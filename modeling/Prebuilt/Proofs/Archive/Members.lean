import Prebuilt.Archive
import Prebuilt.Proofs.Bytes

/-!
# What the archiver lists

The members of an archive are read from what the archiver prints. `Listed`
says which names the lines of an output hold: a line holds what is left of
it without the blanks at both ends, and no name if that is nothing. The
last line counts like all others, whether or not it is ended.

Names are read back however they were printed, one to a line, as long as
they are names that a line can hold (`listMembers_reads_back`).
-/

namespace Prebuilt.Archive

open Bytes (Separated Strips)

variable {line name output : Bytes} {lines names : List Bytes}

/-! ## The names on the lines -/

/-- Blank at either end of a line. -/
def isMargin (c : UInt8) : Bool := c = ' ' || c = '\t' || c = '\r'

/-- The names that the lines hold, in order. -/
inductive Listed : List Bytes → List Bytes → Prop where
  | nil : Listed [] []
  | blank {line : Bytes} {lines names : List Bytes} (h : Strips isMargin line [])
      (more : Listed lines names) : Listed (line :: lines) names
  | name {line name : Bytes} {lines names : List Bytes} (h : Strips isMargin line name)
      (hne : name ≠ []) (more : Listed lines names) : Listed (line :: lines) (name :: names)

/-- The names in an output. -/
def ListedIn (output : Bytes) (names : List Bytes) : Prop :=
  ∃ lines, Separated '\n' lines output ∧ Listed lines names

/-- Where no newline is, the two kinds of blanks are the same. -/
theorem isLineBlank_eq {c : UInt8} (h : c ≠ '\n'.toUInt8) : isLineBlank c = isMargin c := by
  rw [isLineBlank, isMargin, decide_eq_false h, Bool.or_false]

theorem strips_line_iff (hline : '\n'.toUInt8 ∉ line) :
    Strips isMargin line name ↔ name = line.trim isLineBlank := by
  have hsame : ∀ c ∈ line, isLineBlank c = isMargin c :=
    fun c hc => isLineBlank_eq fun heq => hline (heq ▸ hc)
  rw [← Bytes.strips_iff]
  exact ⟨fun h => h.congr hsame, fun h => h.congr fun c hc => (hsame c hc).symm⟩

/-- What one line adds to the names. -/
def nameOf (line : Bytes) : List Bytes := [line.trim isLineBlank].filter (· ≠ [])

theorem memberNames_eq_flatMap (output : Bytes) :
    memberNames output = (List.splitOn '\n'.toUInt8 output).flatMap nameOf := by
  rw [memberNames]
  induction List.splitOn '\n'.toUInt8 output with
  | nil => rfl
  | cons line lines ih =>
      rw [List.map_cons, ← List.singleton_append, List.filter_append, ih, List.flatMap_cons]
      rfl

theorem nameOf_blank (hline : '\n'.toUInt8 ∉ line) (h : Strips isMargin line []) :
    nameOf line = [] := by
  rw [nameOf, ← (strips_line_iff hline).mp h]
  rfl

theorem nameOf_name (hline : '\n'.toUInt8 ∉ line) (h : Strips isMargin line name)
    (hne : name ≠ []) : nameOf line = [name] := by
  rw [nameOf, ← (strips_line_iff hline).mp h]
  exact List.filter_cons_of_pos (decide_eq_true hne)

theorem listed_iff (hlines : ∀ line ∈ lines, '\n'.toUInt8 ∉ line) :
    Listed lines names ↔ names = lines.flatMap nameOf := by
  constructor
  · intro h
    induction h with
    | nil => rfl
    | blank h more ih =>
        obtain ⟨hline, hmore⟩ := List.forall_mem_cons.mp hlines
        rw [List.flatMap_cons, nameOf_blank hline h]
        exact ih hmore
    | name h hne more ih =>
        obtain ⟨hline, hmore⟩ := List.forall_mem_cons.mp hlines
        rw [List.flatMap_cons, nameOf_name hline h hne, ih hmore]
        rfl
  · rintro rfl
    induction lines with
    | nil => exact .nil
    | cons line lines ih =>
        obtain ⟨hline, hmore⟩ := List.forall_mem_cons.mp hlines
        have hstrips := (strips_line_iff hline).mpr rfl
        rw [List.flatMap_cons]
        by_cases hne : line.trim isLineBlank = []
        · rw [hne] at hstrips
          rw [nameOf_blank hline hstrips]
          exact .blank hstrips (ih hmore)
        · rw [nameOf_name hline hstrips hne]
          exact .name hstrips hne (ih hmore)

theorem listedIn_iff : ListedIn output names ↔ names = memberNames output := by
  have hlines : ∀ line ∈ List.splitOn '\n'.toUInt8 output, '\n'.toUInt8 ∉ line :=
    fun _ hline => Bytes.notMem_of_mem_splitOn hline
  rw [memberNames_eq_flatMap, ← listed_iff hlines]
  constructor
  · rintro ⟨lines, hsplit, hlisted⟩
    rwa [← Bytes.separated_iff.mp hsplit]
  · exact fun hlisted => ⟨_, Bytes.separated_iff.mpr rfl, hlisted⟩

/-! ## Names as they are printed -/

/-- A name that can be told from what stands around it on its line. -/
structure IsMemberName (name : Bytes) : Prop where
  nonempty : name ≠ []
  oneLine : '\n'.toUInt8 ∉ name
  first : ∀ c ∈ name.head?, isMargin c = false
  last : ∀ c ∈ name.getLast?, isMargin c = false

instance (name : Bytes) : Decidable (IsMemberName name) :=
  decidable_of_iff (name ≠ [] ∧ '\n'.toUInt8 ∉ name ∧
      (name.head?.all fun c => !isMargin c) = true ∧
      (name.getLast?.all fun c => !isMargin c) = true) (by
    simp only [Option.all_eq_true, Bool.not_eq_true']
    exact ⟨fun ⟨hne, hline, hfirst, hlast⟩ => ⟨hne, hline, hfirst, hlast⟩,
      fun ⟨hne, hline, hfirst, hlast⟩ => ⟨hne, hline, hfirst, hlast⟩⟩)

/-- What ends a line. -/
def IsLineEnd (ending : Bytes) : Prop := ending = "\n" ∨ ending = "\r\n"

/-- The names one to a line, in order, with any blank lines around them.
The last line need not be ended. -/
inductive Printed : List Bytes → Bytes → Prop where
  | done {blanks : Bytes} (h : ∀ c ∈ blanks, isMargin c = true) : Printed [] blanks
  | lastName {name blanks : Bytes} (h : ∀ c ∈ blanks, isMargin c = true) :
      Printed [name] (name ++ blanks)
  | blankLine {blanks ending text : Bytes} {names : List Bytes}
      (h : ∀ c ∈ blanks, isMargin c = true) (hending : IsLineEnd ending)
      (more : Printed names text) : Printed names (blanks ++ ending ++ text)
  | name {name ending text : Bytes} {names : List Bytes} (hending : IsLineEnd ending)
      (more : Printed names text) : Printed (name :: names) (name ++ ending ++ text)

theorem notMem_margin {blanks : Bytes} (h : ∀ c ∈ blanks, isMargin c = true) :
    '\n'.toUInt8 ∉ blanks := by
  intro hmem
  exact absurd (h _ hmem) (by decide)

/-- Blanks alone come down to nothing. -/
theorem strips_margin {blanks : Bytes} (h : ∀ c ∈ blanks, isMargin c = true) :
    Strips isMargin blanks [] :=
  ⟨⟨blanks, [], by rw [List.append_nil, List.append_nil], h, List.forall_mem_nil _⟩, nofun, nofun⟩

theorem IsMemberName.strips {blanks : Bytes} (hname : IsMemberName name)
    (h : ∀ c ∈ blanks, isMargin c = true) : Strips isMargin (name ++ blanks) name :=
  ⟨⟨[], blanks, rfl, List.forall_mem_nil _, h⟩, hname.first, hname.last⟩

theorem memberNames_line (hline : '\n'.toUInt8 ∉ line) : memberNames line = nameOf line := by
  rw [memberNames_eq_flatMap, List.splitOn_eq_singleton hline, List.flatMap_singleton]

/-- The carriage return of a line's end is blank, and the newline ends
the line. -/
theorem memberNames_ended {ending text : Bytes} (hending : IsLineEnd ending)
    (hline : '\n'.toUInt8 ∉ line) : ∃ blanks : Bytes, (∀ c ∈ blanks, isMargin c = true) ∧
      '\n'.toUInt8 ∉ line ++ blanks ∧
      memberNames (line ++ ending ++ text) = nameOf (line ++ blanks) ++ memberNames text := by
  obtain ⟨blanks, hblanks, rfl⟩ : ∃ blanks : Bytes, (∀ c ∈ blanks, isMargin c = true) ∧
      ending = blanks ++ ['\n'.toUInt8] := by
    rcases hending with rfl | rfl
    · exact ⟨[], List.forall_mem_nil _, rfl⟩
    · exact ⟨['\r'.toUInt8], List.forall_mem_singleton.mpr rfl, rfl⟩
  have hbare : '\n'.toUInt8 ∉ line ++ blanks := by
    rw [List.mem_append, not_or]
    exact ⟨hline, notMem_margin hblanks⟩
  refine ⟨blanks, hblanks, hbare, ?_⟩
  have hjoined : line ++ (blanks ++ ['\n'.toUInt8]) ++ text
      = (line ++ blanks) ++ '\n'.toUInt8 :: text := by
    simp only [List.append_assoc, List.cons_append, List.nil_append]
  rw [hjoined, memberNames_eq_flatMap, List.splitOn_append_cons_self,
    List.splitOn_eq_singleton hbare, List.flatMap_append, List.flatMap_singleton,
    ← memberNames_eq_flatMap]

theorem memberNames_of_printed (h : Printed names output)
    (hnames : ∀ name ∈ names, IsMemberName name) : memberNames output = names := by
  induction h with
  | done h =>
      have hline := notMem_margin h
      rw [memberNames_line hline, nameOf_blank hline (strips_margin h)]
  | @lastName name blanks h =>
      have hname := hnames name (List.mem_singleton_self _)
      have hline : '\n'.toUInt8 ∉ name ++ blanks := by
        rw [List.mem_append, not_or]
        exact ⟨hname.oneLine, notMem_margin h⟩
      rw [memberNames_line hline, nameOf_name hline (hname.strips h) hname.nonempty]
  | @blankLine blanks ending text names h hending more ih =>
      obtain ⟨back, hback, hline, heq⟩ := memberNames_ended hending (notMem_margin h)
      have hall : ∀ c ∈ blanks ++ back, isMargin c = true := List.forall_mem_append.mpr ⟨h, hback⟩
      rw [heq, nameOf_blank hline (strips_margin hall), ih hnames]
      rfl
  | @name name ending text names hending more ih =>
      obtain ⟨hname, hmore⟩ := List.forall_mem_cons.mp hnames
      obtain ⟨back, hback, hline, heq⟩ := memberNames_ended hending hname.oneLine
      rw [heq, nameOf_name hline (hname.strips hback) hname.nonempty, ih hmore]
      rfl

/-! ## Asking the archiver -/

/-- When the archiver ends with code zero, the members are the names in
its output, and a list of names that it has printed is read back as it
was. -/
theorem listMembers_reads_back (tools : Tools) (files : FileTree) (archiver : Bytes)
    (archive : Path) (hfile : files.isRegularFile archive = true)
    (hexit : (tools.capture (Command.listMembers archiver archive) files).exitCode = 0) :
    let output := (tools.capture (Command.listMembers archiver archive) files).output
    ∃ names, (listMembers tools files archiver archive).members = .ok names ∧
      (∀ listed, ListedIn output listed ↔ listed = names) ∧
      ∀ printed, (∀ name ∈ printed, IsMemberName name) → Printed printed output →
        names = printed := by
  intro output
  refine ⟨memberNames output, ?_, fun listed => listedIn_iff, fun printed hnames h =>
    memberNames_of_printed h hnames⟩
  rw [listMembers, if_pos hfile]
  exact if_pos hexit

/-- An archiver that prints two names, with blank lines between them and
the last line open. -/
def printingArchiver : Tools :=
  fun _ files => ⟨0, "start.o\r\n \t\n\nrebase hack.o", files⟩

theorem listMembers_reads_back_mixedEnds :
    let files := (FileTree.empty []).put ["lib.a"] (.file "" false)
    let done := printingArchiver.capture (Command.listMembers "ar" "lib.a") files
    let printed : List Bytes := ["start.o", "rebase hack.o"]
    files.isRegularFile "lib.a" = true ∧ done.exitCode = 0 ∧
      (∀ name ∈ printed, IsMemberName name) ∧ Printed printed done.output ∧
      (listMembers printingArchiver files "ar" "lib.a").members = .ok printed := by
  intro files done printed
  have hfile : files.isRegularFile "lib.a" = true := by decide
  have hexit : done.exitCode = 0 := by decide
  have hnames : ∀ name ∈ printed, IsMemberName name :=
    List.forall_mem_cons.mpr ⟨by decide, List.forall_mem_singleton.mpr (by decide)⟩
  have hblanks : ∀ c ∈ Bytes.ofString " \t", isMargin c = true := List.all_eq_true.mp (by decide)
  have hprinted : Printed printed done.output :=
    @Printed.name "start.o" "\r\n" _ _ (.inr rfl)
      (@Printed.blankLine " \t" "\n" _ _ hblanks (.inl rfl)
        (@Printed.blankLine [] "\n" _ _ (List.forall_mem_nil _) (.inl rfl)
          (@Printed.lastName "rebase hack.o" [] (List.forall_mem_nil _))))
  obtain ⟨names, hmembers, -, hback⟩ :=
    listMembers_reads_back printingArchiver files "ar" "lib.a" hfile hexit
  exact ⟨hfile, hexit, hnames, hprinted, hback printed hnames hprinted ▸ hmembers⟩

end Prebuilt.Archive
