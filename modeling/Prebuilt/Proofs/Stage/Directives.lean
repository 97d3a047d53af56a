import Prebuilt.Stage

/-!
# Reading directives back

Directives are a protocol of lines, and a path is put on its line as it
is. A newline inside a path therefore ends the directive early, and what
follows it is a line of its own, which may even be another directive. The
number of lines counts these newlines as well (`length_lines_directives`),
so a reader gets back what was written exactly if there are none
(`directives_readBack_iff`). Staging takes names with newlines like all
others (`staged_directives_forged`).
-/

namespace Prebuilt

namespace Bytes

theorem length_splitOn (sep : UInt8) (text : Bytes) :
    (List.splitOn sep text).length = text.count sep + 1 := by
  induction text with
  | nil => rfl
  | cons c rest ih =>
      rw [List.splitOn_cons_eq_if_modifyHead]
      by_cases hc : c = sep
      · rw [if_pos (beq_iff_eq.mpr hc), List.length_cons, ih, hc, List.count_cons_self]
      · rw [if_neg (mt beq_iff_eq.mp hc), List.length_modifyHead, ih, List.count_cons_of_ne hc]

/-- The lines of a text. The newline at its end, if there is one, starts
no further line. -/
def lines (text : Bytes) : List Bytes :=
  if (List.splitOn '\n'.toUInt8 text).getLast? = some []
  then (List.splitOn '\n'.toUInt8 text).dropLast
  else List.splitOn '\n'.toUInt8 text

theorem lines_append_newline (text : Bytes) :
    lines (text ++ ['\n'.toUInt8]) = List.splitOn '\n'.toUInt8 text := by
  have hsplit : List.splitOn '\n'.toUInt8 (text ++ ['\n'.toUInt8])
      = List.splitOn '\n'.toUInt8 text ++ [[]] :=
    List.splitOn_append_cons_self _ _
  rw [lines, hsplit, List.getLast?_concat, if_pos rfl, List.dropLast_concat]

/-- Each of the lines with its end. -/
def ended (texts : List Bytes) : Bytes := texts.flatMap (· ++ ['\n'.toUInt8])

theorem ended_concat (texts : List Bytes) (text : Bytes) :
    ended (texts ++ [text]) = (ended texts ++ text) ++ ['\n'.toUInt8] := by
  simp [ended]

theorem count_ended (texts : List Bytes) :
    (ended texts).count '\n'.toUInt8 = texts.length + texts.flatten.count '\n'.toUInt8 := by
  induction texts with
  | nil => rfl
  | cons text rest ih =>
      have hcons : ended (text :: rest) = text ++ '\n'.toUInt8 :: ended rest := by simp [ended]
      rw [hcons, List.count_append, List.count_cons_self, ih, List.length_cons, List.flatten_cons,
        List.count_append]
      omega

/-- There is one line for each text, and one more for each newline in them. -/
theorem length_lines_ended (texts : List Bytes) :
    (lines (ended texts)).length = texts.length + texts.flatten.count '\n'.toUInt8 := by
  rw [← count_ended]
  rcases List.eq_nil_or_concat texts with rfl | ⟨front, last, rfl⟩
  · rfl
  · have hcount : (ended front ++ last ++ ['\n'.toUInt8]).count '\n'.toUInt8
        = (ended front ++ last).count '\n'.toUInt8 + 1 := List.count_append
    rw [List.concat_eq_append, ended_concat, lines_append_newline, length_splitOn, hcount]

theorem lines_ended {texts : List Bytes} (h : ∀ text ∈ texts, '\n'.toUInt8 ∉ text) :
    lines (ended texts) = texts := by
  have hsplit : List.splitOn '\n'.toUInt8 (ended texts) = texts ++ [[]] := by
    induction texts with
    | nil => rfl
    | cons text rest ih =>
        obtain ⟨htext, hrest⟩ := List.forall_mem_cons.mp h
        have hcons : ended (text :: rest) = text ++ '\n'.toUInt8 :: ended rest := by
          simp [ended]
        rw [hcons, List.splitOn_append_cons_self, List.splitOn_eq_singleton htext, ih hrest]
        rfl
  rw [lines, hsplit, List.getLast?_concat, if_pos rfl, List.dropLast_concat]

end Bytes

namespace Stage

variable {dir : Path} {scripts : List Path}

/-! ## The reader -/

/-- A line as the reader of the protocol takes it. -/
inductive Directive where
  | search (dir : Bytes)
  | watch (path : Bytes)
  | other (line : Bytes)
deriving Repr, DecidableEq

def searchKey : Bytes := "cargo:rustc-link-search="

def watchKey : Bytes := "cargo:rerun-if-changed="

def Directive.ofLine (line : Bytes) : Directive :=
  match line.after? searchKey with
  | some dir => .search dir
  | none =>
      match line.after? watchKey with
      | some path => .watch path
      | none => .other line

def readDirectives (text : Bytes) : List Directive := (Bytes.lines text).map Directive.ofLine

theorem ofLine_search (dir : Bytes) : Directive.ofLine (searchKey ++ dir) = .search dir := by
  rw [Directive.ofLine, Bytes.after?_eq_some_iff.mpr rfl]

theorem ofLine_watch (path : Bytes) : Directive.ofLine (watchKey ++ path) = .watch path := by
  have hother : (watchKey ++ path).after? searchKey = none := rfl
  rw [Directive.ofLine, hother, Bytes.after?_eq_some_iff.mpr rfl]

/-! ## The lines -/

/-- The lines that are meant, one for the directory and one for each
script. -/
def meantLines (dir : Path) (scripts : List Path) : List Bytes :=
  (searchKey ++ dir.withForwardSlashes) :: scripts.map (watchKey ++ ·)

theorem directives_eq_ended (dir : Path) (scripts : List Path) :
    directives dir scripts = Bytes.ended (meantLines dir scripts) := by
  rw [meantLines, Bytes.ended, List.flatMap_cons, List.flatMap_map]
  rfl

theorem count_withForwardSlashes (dir : Path) :
    dir.withForwardSlashes.count '\n'.toUInt8 = dir.count '\n'.toUInt8 := by
  induction dir with
  | nil => rfl
  | cons c rest ih =>
      rw [Path.withForwardSlashes, List.map_cons, ← Path.withForwardSlashes, List.count_cons,
        List.count_cons, ih]
      by_cases hc : c = '\\'.toUInt8
      · rw [if_pos hc, hc]
        rfl
      · rw [if_neg hc]

/-- The newlines in the paths. -/
def newlines (dir : Path) (scripts : List Path) : Nat :=
  (dir :: scripts).flatten.count '\n'.toUInt8

theorem newlines_eq_zero_iff : newlines dir scripts = 0 ↔
    '\n'.toUInt8 ∉ dir ∧ ∀ script ∈ scripts, '\n'.toUInt8 ∉ script := by
  rw [newlines, List.count_eq_zero, List.flatten_cons, List.mem_append, not_or, List.mem_flatten]
  refine and_congr_right fun _ => ?_
  exact ⟨fun h script hscript hmem => h ⟨script, hscript, hmem⟩,
    fun h ⟨script, hscript, hmem⟩ => h script hscript hmem⟩

theorem count_flatten_meantLines (dir : Path) (scripts : List Path) :
    (meantLines dir scripts).flatten.count '\n'.toUInt8 = newlines dir scripts := by
  have hwatch : (scripts.map (watchKey ++ ·)).flatten.count '\n'.toUInt8
      = scripts.flatten.count '\n'.toUInt8 := by
    induction scripts with
    | nil => rfl
    | cons script rest ih =>
        rw [List.map_cons, List.flatten_cons, List.flatten_cons, List.count_append,
          List.count_append, List.count_append, ih,
          show watchKey.count '\n'.toUInt8 = 0 from rfl, Nat.zero_add]
  rw [meantLines, newlines, List.flatten_cons, List.flatten_cons, List.count_append,
    List.count_append, List.count_append, hwatch, count_withForwardSlashes,
    show searchKey.count '\n'.toUInt8 = 0 from rfl, Nat.zero_add]

theorem length_lines_directives (dir : Path) (scripts : List Path) :
    (Bytes.lines (directives dir scripts)).length = 1 + scripts.length + newlines dir scripts := by
  rw [directives_eq_ended, Bytes.length_lines_ended, count_flatten_meantLines, meantLines,
    List.length_cons, List.length_map, Nat.add_comm 1]

theorem lines_directives (h : newlines dir scripts = 0) :
    Bytes.lines (directives dir scripts) = meantLines dir scripts := by
  rw [directives_eq_ended]
  refine Bytes.lines_ended fun text htext hmem => ?_
  have hcount := count_flatten_meantLines dir scripts
  rw [h, List.count_eq_zero] at hcount
  exact hcount (List.mem_flatten.mpr ⟨text, htext, hmem⟩)

theorem readDirectives_of_lines
    (h : Bytes.lines (directives dir scripts) = meantLines dir scripts) :
    readDirectives (directives dir scripts)
      = .search dir.withForwardSlashes :: scripts.map .watch := by
  rw [readDirectives, h, meantLines, List.map_cons, ofLine_search, List.map_map]
  exact congrArg _ (List.map_congr_left fun path _ => ofLine_watch path)

/-- The text of the directives has a line for the directory, one for each
script, and one more for each newline in these paths. Without newlines the
lines are the ones that are meant, and a reader gets back the directory,
with forward slashes, and every script, and nothing else; with a newline
neither is so. -/
theorem directives_readBack_iff (dir : Path) (scripts : List Path) :
    (Bytes.lines (directives dir scripts)).length = 1 + scripts.length + newlines dir scripts ∧
    (newlines dir scripts = 0 ↔
      '\n'.toUInt8 ∉ dir ∧ ∀ script ∈ scripts, '\n'.toUInt8 ∉ script) ∧
    (Bytes.lines (directives dir scripts)
        = ("cargo:rustc-link-search=" ++ dir.withForwardSlashes)
          :: scripts.map (fun script => "cargo:rerun-if-changed=" ++ script) ↔
      newlines dir scripts = 0) ∧
    (readDirectives (directives dir scripts)
        = .search dir.withForwardSlashes :: scripts.map .watch ↔
      newlines dir scripts = 0) := by
  have hlength := length_lines_directives dir scripts
  refine ⟨hlength, newlines_eq_zero_iff, ⟨fun h => ?_, lines_directives⟩,
    fun h => ?_, fun h => readDirectives_of_lines (lines_directives h)⟩
  · have hmeant := congrArg List.length h
    rw [List.length_cons, List.length_map] at hmeant
    omega
  · have hmeant := congrArg List.length h
    rw [readDirectives, List.length_map, List.length_cons, List.length_map] at hmeant
    omega

/-- A script whose name goes on behind a newline, and a directory to copy
it into. -/
def forgingTree : FileTree :=
  ((FileTree.empty []).put ["a\ncargo:rustc-link-lib=m"] (.file "X" false)).put ["out"] .directory

/-- The script is copied, and the reader is told to link a library. -/
theorem staged_directives_forged :
    let scripts : List Path := ["a\ncargo:rustc-link-lib=m"]
    (stage forgingTree scripts "out").staged = .ok ["out/a\ncargo:rustc-link-lib=m"] ∧
    (Bytes.lines (directives "out" scripts)).length ≠ 1 + scripts.length ∧
    readDirectives (directives "out" scripts)
      = [.search "out", .watch "a", .other "cargo:rustc-link-lib=m"] := by
  exact ⟨rfl, by decide, by decide⟩

end Stage

end Prebuilt
