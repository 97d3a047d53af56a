import Prebuilt.Proofs.Build.Outcome

/-!
# Histories of a builder

What a builder does over a whole life: any number of builds and clean
steps, with the file tree changed in any way between them.

A build passes *milestones*: it goes on to a state, or it starts a tool.
`route` lists those of a build that comes to its end. `Step.Follows`
says that a step passes a beginning of a plan, all of it if it succeeds,
and that a failure names the last state reached. It is closed under the
ways in which steps are put together, so one line for each part carries
it through the four steps, and a whole history needs only that no call
leaves anything behind but the state.
-/

namespace Prebuilt.Build

/-! ## Milestones -/

/-- What a list of events shows of a build. -/
inductive Mark where
  | moved (last next : State)
  | command (line : Bytes)
deriving Repr, DecidableEq

inductive Milestone where
  | moved (last next : State)
  | started (role : Role) (line : Bytes)
deriving Repr, DecidableEq

namespace Milestone

/-- How a milestone shows among the events. -/
def mark : Milestone → Mark
  | .moved last next => .moved last next
  | .started _ line => .command line

/-- How a milestone shows among the invocations. -/
def run? : Milestone → Option (Role × Bytes)
  | .moved .. => none
  | .started role line => some (role, line)

end Milestone

def State.all : List State := [.start, .cleaned, .compiled, .archived, .done, .failed]

def State.moves : List (State × State) :=
  State.all.flatMap fun last => State.all.map fun next => (last, next)

/-- The mark that one event leaves. -/
def markOf? : Event → Option Mark
  | .log level topic message =>
      if level = Log.Level.info ∧ topic = "build" then
        (State.moves.find? fun m => message = m.1.name ++ " -> " ++ m.2.name).map
          fun m => .moved m.1 m.2
      else none
  | .command line => some (.command line)
  | .stdout _ => none
  | .stderr _ => none

theorem markOf?_moveRecord (last next : State) :
    markOf? (Progress.moveRecord last next) = some (.moved last next) := by
  cases last <;> cases next <;> decide

theorem markOf?_of_ne_info {level : Log.Level} {topic message : Bytes}
    (h : level ≠ Log.Level.info) : markOf? (.log level topic message) = none :=
  if_neg fun hinfo => h hinfo.1

/-- A state's name does not begin with the letter b, so the announcement
of a build is no change of state. -/
theorem markOf?_building (rest : Bytes) :
    markOf? (.log Log.Level.info "build" ("building " ++ rest)) = none := by
  have hname : ∀ m ∈ State.moves, (m.1.name ++ " -> " ++ m.2.name).head? ≠ some 'b'.toUInt8 := by
    decide
  have hnone : State.moves.find? (fun m =>
      ("building " ++ rest : Bytes) = m.1.name ++ " -> " ++ m.2.name) = none := by
    refine List.find?_eq_none.mpr fun m hm heq => hname m hm ?_
    rw [← of_decide_eq_true heq]
    rfl
  simp only [markOf?, hnone, Option.map_none, ite_self]

/-- The milestones of a build that comes to its end. -/
def route (c : Config) : List Milestone :=
  [.moved .start .cleaned,
   .started .compiler (Command.assemble c), .moved .cleaned .compiled,
   .started .archiver (Command.archive c), .moved .compiled .archived,
   .moved .archived .done]

/-- The state that milestones lead to. -/
def reached (origin : State) : List Milestone → State
  | [] => origin
  | .moved _ next :: rest => reached next rest
  | .started .. :: rest => reached origin rest

theorem reached_append (origin : State) :
    ∀ done more, reached origin (done ++ more) = reached (reached origin done) more
  | [], _ => rfl
  | .moved _ next :: rest, more => reached_append next rest more
  | .started .. :: rest, more => reached_append origin rest more

/-- Events and invocations show that exactly these milestones were
passed between two progresses. -/
structure Passed (p q : Progress) (done : List Milestone) : Prop where
  events : ∃ events, q.events = p.events ++ events ∧
    events.filterMap markOf? = done.map Milestone.mark
  runs : ∃ runs, q.invocations = p.invocations ++ runs ∧
    runs.map (fun i => (i.role, i.line)) = done.filterMap Milestone.run?

theorem Passed.refl (p : Progress) : Passed p p [] :=
  ⟨⟨[], (List.append_nil _).symm, rfl⟩, ⟨[], (List.append_nil _).symm, rfl⟩⟩

theorem Passed.trans {p q r : Progress} {done more : List Milestone}
    (h : Passed p q done) (h' : Passed q r more) : Passed p r (done ++ more) := by
  obtain ⟨⟨es, hes, hmarks⟩, ⟨is, his, hruns⟩⟩ := h
  obtain ⟨⟨es', hes', hmarks'⟩, ⟨is', his', hruns'⟩⟩ := h'
  refine ⟨⟨es ++ es', ?_, ?_⟩, ⟨is ++ is', ?_, ?_⟩⟩
  · rw [hes', hes, List.append_assoc]
  · rw [List.filterMap_append, List.map_append, hmarks, hmarks']
  · rw [his', his, List.append_assoc]
  · rw [List.map_append, List.filterMap_append, hruns, hruns']

theorem passed_told {p : Progress} {events : List Event}
    (h : events.filterMap markOf? = []) : Passed p (p.told events) [] :=
  ⟨⟨events, rfl, h⟩, ⟨[], (List.append_nil _).symm, rfl⟩⟩

theorem passed_withFiles (p : Progress) (files : FileTree) : Passed p (p.withFiles files) [] :=
  ⟨⟨[], (List.append_nil _).symm, rfl⟩, ⟨[], (List.append_nil _).symm, rfl⟩⟩

theorem passed_moved (p : Progress) (next : State) :
    Passed p (p.moved next) [.moved p.state next] :=
  ⟨⟨[Progress.moveRecord p.state next], rfl, by
      rw [List.filterMap_cons_some (markOf?_moveRecord ..)]
      rfl⟩,
    ⟨[], (List.append_nil _).symm, rfl⟩⟩

theorem passed_failed (p : Progress) (cause : Cause) : Passed p (p.failed cause) [] :=
  ⟨⟨[Progress.failRecord p.state cause], rfl, rfl⟩, ⟨[], (List.append_nil _).symm, rfl⟩⟩

/-- The events of a tool's run are its command line and its exit code. -/
theorem passed_ran (tools : Tools) (p : Progress) (role : Role) (line : Bytes) :
    Passed p (p.ran role line (tools.run line p.files)) [.started role line] :=
  ⟨⟨_, rfl, rfl⟩, ⟨[⟨role, line, p.files⟩], rfl, rfl⟩⟩

/-! ## Steps that follow a plan -/

namespace Step

variable {α β : Type} {origin : State} {plan more : List Milestone}

/-- The step ends after a beginning of the plan: the whole of it if it
succeeds. -/
def Follows (step : Step α) (origin : State) (plan : List Milestone) : Prop :=
  ∀ p : Progress, p.state = origin → step.Ends p fun r q =>
    ∃ done, done <+: plan ∧ Passed p q done ∧
      match r with
      | .ok _ => done = plan ∧ q.state = reached origin plan
      | .error e => q.state = .failed ∧ e.lastState = reached origin done

theorem follows_bind {step : Step α} {next : α → Step β} (plan : List Milestone)
    (h : step.Follows origin plan) (hnext : ∀ a, (next a).Follows (reached origin plan) more) :
    (step >>= next).Follows origin (plan ++ more) := by
  intro p hp
  refine ends_bind.mpr ((h p hp).imp ?_)
  rintro (e | a) q ⟨done, hprefix, hpassed, hend⟩
  · exact ⟨done, hprefix.trans (List.prefix_append plan more), hpassed, hend⟩
  · obtain ⟨rfl, hstate⟩ := hend
    refine (hnext a q hstate).imp ?_
    rintro r q' ⟨done', hprefix', hpassed', hend'⟩
    refine ⟨done ++ done', (List.prefix_append_right_inj done).mpr hprefix',
      hpassed.trans hpassed', ?_⟩
    cases r with
    | error e => exact ⟨hend'.1, hend'.2.trans (reached_append ..).symm⟩
    | ok b =>
        exact ⟨congrArg _ hend'.1, hend'.2.trans (reached_append ..).symm⟩

/-- A part of a step that ends well where it began. -/
theorem follows_quiet {step : Step α}
    (h : ∀ p, step.Ends p fun r q => (∃ a, r = .ok a) ∧ q.state = p.state ∧ Passed p q []) :
    step.Follows origin [] := by
  intro p hp
  refine (h p).imp ?_
  rintro r q ⟨⟨a, rfl⟩, hstate, hpassed⟩
  exact ⟨[], List.prefix_refl _, hpassed, rfl, hstate.trans hp⟩

theorem follows_files : files.Follows origin [] :=
  follows_quiet fun p => ends_files.mpr ⟨⟨_, rfl⟩, rfl, .refl p⟩

theorem follows_setFiles (t : FileTree) : (setFiles t).Follows origin [] :=
  follows_quiet fun p => ends_setFiles.mpr ⟨⟨_, rfl⟩, rfl, passed_withFiles p t⟩

theorem follows_pure (a : α) : (pure a : Step α).Follows origin [] :=
  follows_quiet fun p => ends_pure.mpr ⟨⟨_, rfl⟩, rfl, .refl p⟩

theorem follows_log {level : Log.Level} {message : Bytes}
    (h : markOf? (.log level "build" message) = none) : (log level message).Follows origin [] :=
  follows_quiet fun p => ends_log.mpr ⟨⟨_, rfl⟩, rfl, passed_told (by simp [h])⟩

theorem follows_advance (next : State) : (advance next).Follows origin [.moved origin next] := by
  rintro p rfl
  exact ends_advance.mpr ⟨_, List.prefix_refl _, passed_moved p next, rfl, rfl⟩

theorem follows_fail (cause : Cause) : (fail cause : Step α).Follows origin plan := by
  rintro p rfl
  exact ends_fail.mpr ⟨[], List.nil_prefix, passed_failed p cause, rfl, rfl⟩

theorem follows_runTool (s : Setup) (role : Role) (line : Bytes) :
    (runTool s role line).Follows origin [.started role line] := by
  rintro p rfl
  have hran := passed_ran s.tools p role line
  refine ends_runTool.mpr ⟨fun _ => ?_, fun _ => ?_⟩
  · exact ⟨_, List.prefix_refl _, hran, rfl, rfl⟩
  · exact ⟨_, List.prefix_refl _, hran.trans (passed_failed _ _), rfl, rfl⟩

theorem follows_forM {f : β → Step PUnit} (h : ∀ b, (f b).Follows origin []) :
    ∀ l : List β, (l.forM f).Follows origin []
  | [] => follows_pure _
  | b :: l => follows_bind [] (h b) fun _ => follows_forM h l

/-! ## The four steps -/

theorem follows_prepareOutDir (out : Path) : (prepareOutDir out).Follows origin [] := by
  unfold prepareOutDir
  refine follows_bind [] follows_files fun t => ?_
  split
  · split
    · exact follows_pure ()
    · exact follows_fail _
  · refine follows_bind [] (follows_setFiles _) fun _ => ?_
    split
    · exact follows_fail _
    · exact follows_log (markOf?_of_ne_info (by decide))

theorem follows_removeArchive (path : Path) : (removeArchive path).Follows origin [] := by
  unfold removeArchive
  refine follows_bind [] follows_files fun t => ?_
  have hlog : (log Log.Level.debug ("removed " ++ path)).Follows origin [] :=
    follows_log (markOf?_of_ne_info (by decide))
  dsimp only
  split
  · exact follows_bind [] (follows_setFiles _) fun _ => hlog
  · exact hlog
  · rw [fail_bind]
    exact follows_fail _

theorem follows_clean (s : Setup) : (clean s).Follows .start [.moved .start .cleaned] := by
  unfold clean
  refine follows_bind [] (follows_prepareOutDir _) fun _ => ?_
  refine follows_bind [] follows_files fun t => ?_
  split
  · exact follows_fail _
  · refine follows_bind [] (follows_forM follows_removeArchive _) fun _ => ?_
    exact follows_bind [_] (follows_advance .cleaned) fun _ => follows_pure _

theorem follows_removeOldObject (object : Path) :
    (removeOldObject object).Follows origin [] := by
  unfold removeOldObject
  refine follows_bind [] follows_files fun t => ?_
  split
  · split
    · exact follows_setFiles _
    · exact follows_fail _
  · exact follows_pure ()

theorem follows_compile (s : Setup) :
    (compile s).Follows .cleaned
      [.started .compiler (Command.assemble s.config), .moved .cleaned .compiled] := by
  unfold compile
  dsimp only
  refine follows_bind [] follows_files fun t => ?_
  split
  · rw [fail_bind]
    exact follows_fail _
  · refine follows_bind [] (follows_removeOldObject _) fun _ => ?_
    refine follows_bind [_] (follows_runTool s _ _) fun _ => ?_
    refine follows_bind [] follows_files fun t => ?_
    split
    · rw [fail_bind]
      exact follows_fail _
    · exact follows_advance .compiled

theorem follows_archive (s : Setup) :
    (archive s).Follows .compiled
      [.started .archiver (Command.archive s.config), .moved .compiled .archived] := by
  unfold archive
  dsimp only
  refine follows_bind [] follows_files fun t => ?_
  split
  · rw [fail_bind]
    exact follows_fail _
  · refine follows_bind [_] (follows_runTool s _ _) fun _ => ?_
    refine follows_bind [] follows_files fun t => ?_
    split
    · rw [fail_bind]
      exact follows_fail _
    · exact follows_advance .archived

theorem follows_cleanup (s : Setup) : (cleanup s).Follows .archived [.moved .archived .done] := by
  unfold cleanup
  dsimp only
  refine follows_bind [] follows_files fun t => ?_
  split
  · rw [fail_bind]
    exact follows_fail _
  · split
    · exact follows_bind [] (follows_setFiles _) fun _ => follows_advance .done
    · rw [fail_bind]
      exact follows_fail _

theorem follows_hash (path : Path) : (hash path).Follows origin [] := by
  rw [hash_eq]
  exact follows_bind [] follows_files fun t => follows_pure _

theorem follows_all (s : Setup) : (all s).Follows .start (route s.config) := by
  unfold all
  dsimp only
  have hlog : markOf? (.log Log.Level.info "build"
      ("building " ++ s.config.archivePath ++ " from " ++ s.config.source)) = none := by
    rw [List.append_assoc, List.append_assoc]
    exact markOf?_building _
  refine follows_bind [] (follows_log hlog) fun _ => ?_
  refine follows_bind [_] (follows_clean s) fun removed => ?_
  refine follows_bind [_, _] (follows_compile s) fun _ => ?_
  refine follows_bind [_, _] (follows_archive s) fun _ => ?_
  refine follows_bind [_] (follows_cleanup s) fun _ => ?_
  exact follows_bind [] (follows_hash _) fun t => follows_pure _

end Step

/-! ## Whole histories -/

/-- What happens in the life of a builder. -/
inductive Deed where
  /-- The file tree changes, and so may what the tools do. -/
  | edit (change : FileTree → FileTree) (tools : Tools)
  | build
  | clean

namespace Builder

/-- A builder and the file tree after one deed. -/
def act (b : Builder) (files : FileTree) : Deed → Builder × FileTree
  | .edit change tools => ({ b with setup := { b.setup with tools := tools } }, change files)
  | .build => ((b.build files).1, (b.build files).2.progress.files)
  | .clean => ((b.clean files).1, (b.clean files).2.progress.files)

def after (b : Builder) (files : FileTree) : List Deed → Builder × FileTree
  | [] => (b, files)
  | deed :: rest => after (b.act files deed).1 (b.act files deed).2 rest

theorem setup_act (b : Builder) (files : FileTree) (deed : Deed) :
    (b.act files deed).1.setup = { b.setup with tools := (b.act files deed).1.setup.tools } := by
  cases deed <;> rfl

/-- A builder keeps what it was made for; only the tools are not its own. -/
theorem setup_after :
    ∀ (b : Builder) (files : FileTree) (history : List Deed),
      (b.after files history).1.setup
        = { b.setup with tools := (b.after files history).1.setup.tools }
  | _, _, [] => rfl
  | b, files, deed :: rest => by
      have hrest := setup_after (b.act files deed).1 (b.act files deed).2 rest
      rw [setup_act] at hrest
      exact hrest

end Builder

/-- What a call shows of itself: it passed a beginning of the plan, and
the whole of it exactly when it succeeded. -/
structure Told {α : Type} (plan : List Milestone) (goal : State) (state : State)
    (run : Run α) (done : List Milestone) : Prop where
  beginning : done <+: plan
  marks : run.progress.events.filterMap markOf? = done.map Milestone.mark
  runs : run.progress.invocations.map (fun i => (i.role, i.line)) = done.filterMap Milestone.run?
  outcome : match run.result with
    | .ok _ => done = plan ∧ state = goal
    | .error e => state = .failed ∧ e.lastState = reached .start done

theorem told_runFrom {α : Type} {step : Step α} {plan : List Milestone}
    (h : step.Follows .start plan) (files : FileTree) :
    ∃ done, Told plan (reached .start plan) (step.runFrom files).progress.state
      (step.runFrom files) done := by
  obtain ⟨done, hprefix, ⟨⟨es, hes, hmarks⟩, ⟨is, his, hruns⟩⟩, hend⟩ :=
    (h ⟨files, .start, [], []⟩ rfl).runFrom
  rw [List.nil_append] at hes his
  refine ⟨done, hprefix, hes ▸ hmarks, his ▸ hruns, ?_⟩
  cases hr : (step.runFrom files).result with
  | ok a =>
      rw [hr] at hend
      exact hend
  | error e =>
      rw [hr] at hend
      exact hend

/-- After any history a build or a clean step does what a new builder
would do, and it tells a beginning of its route: the whole of it exactly
when it succeeds, and a failure names the last state of the part told. -/
theorem builder_after_history (s : Setup) (files : FileTree) (history : List Deed) :
    let b := ((Builder.new s).after files history).1
    let found := ((Builder.new s).after files history).2
    let fresh := Builder.new { s with tools := b.setup.tools }
    ((b.build found).2 = (fresh.build found).2 ∧
      ∃ done, Told (route s.config) .done (b.build found).1.state (b.build found).2 done) ∧
    ((b.clean found).2 = (fresh.clean found).2 ∧
      ∃ done, Told ((route s.config).take 1) .cleaned (b.clean found).1.state
        (b.clean found).2 done) := by
  intro b found fresh
  have hsetup : b.setup = fresh.setup := Builder.setup_after (Builder.new s) files history
  have hbuild : (b.build found).2 = fresh.setup.build found := by
    rw [← hsetup]
    rfl
  have hclean : (b.clean found).2 = fresh.setup.clean found := by
    rw [← hsetup]
    rfl
  refine ⟨⟨hbuild, ?_⟩, ⟨hclean, ?_⟩⟩
  · show ∃ done, Told _ _ (b.build found).2.progress.state (b.build found).2 done
    rw [hbuild]
    exact told_runFrom (Step.follows_all fresh.setup) found
  · show ∃ done, Told _ _ (b.clean found).2.progress.state (b.clean found).2 done
    rw [hclean]
    exact told_runFrom (Step.follows_clean fresh.setup) found

end Prebuilt.Build
