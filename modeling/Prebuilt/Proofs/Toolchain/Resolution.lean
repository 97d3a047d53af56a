import Prebuilt.Toolchain.Search

/-!
# How the tools are chosen

A tool is what the configuration says, or else what its variable says, or
else what a search comes to (`Chosen`). The search for the compiler goes
through the candidates in order, and through the directories of the
search path for each of them; the search for the archiver asks for the
sibling of the compiler that was chosen before.

Both tools have a name in the end, whatever is found, and a configuration
that names its tools is left as it is. So resolving is stable
(`resolveTools_in_order`).
-/

namespace Prebuilt

/-! ## Pieces of a text -/

/-- The piece stands between two separators of the text, or between one
of them and an end, and holds none itself. -/
structure IsPiece (sep : UInt8) (piece text : Bytes) : Prop where
  bare : sep ∉ piece
  framed : sep :: (piece ++ [sep]) <:+: sep :: (text ++ [sep])

namespace Bytes

variable {sep : UInt8} {piece text : Bytes}

/-- With a separator in front of each, the pieces make up the text. -/
theorem flatMap_splitOn (sep : UInt8) (text : Bytes) :
    (List.splitOn sep text).flatMap (sep :: ·) = sep :: text := by
  induction text with
  | nil => rfl
  | cons c rest ih =>
      rw [List.splitOn_cons_eq_if_modifyHead]
      by_cases hc : c = sep
      · rw [if_pos (beq_iff_eq.mpr hc), List.flatMap_cons, ih, hc]
        rfl
      · obtain ⟨p, ps, hp⟩ := List.exists_cons_of_ne_nil (List.splitOn_ne_nil sep rest)
        rw [hp, List.flatMap_cons, List.cons_append] at ih
        rw [if_neg (mt beq_iff_eq.mp hc), hp, List.modifyHead_cons, List.flatMap_cons,
          List.cons_append, List.cons_append, (List.cons.inj ih).2]

theorem isPiece_of_mem_splitOn (h : piece ∈ List.splitOn sep text) : IsPiece sep piece text := by
  obtain ⟨before, after, hsplit⟩ := List.append_of_mem h
  have htext := flatMap_splitOn sep text
  rw [hsplit, List.flatMap_append, List.flatMap_cons] at htext
  -- Whether or not another piece follows, a separator does.
  obtain ⟨rest, hrest⟩ : ∃ rest, after.flatMap (sep :: ·) ++ [sep] = sep :: rest := by
    cases after with
    | nil => exact ⟨[], rfl⟩
    | cons next more => exact ⟨_, rfl⟩
  refine ⟨notMem_of_mem_splitOn h, before.flatMap (sep :: ·), rest, ?_⟩
  have hjoined : sep :: (text ++ [sep])
      = before.flatMap (sep :: ·) ++ (sep :: piece ++ after.flatMap (sep :: ·)) ++ [sep] := by
    rw [htext]
    rfl
  rw [hjoined]
  simp only [List.append_assoc, List.cons_append, List.nil_append, hrest]

theorem mem_splitOn_of_isPiece (h : IsPiece sep piece text) : piece ∈ List.splitOn sep text := by
  obtain ⟨front, rest, hframed⟩ := h.framed
  have hsplit : List.splitOn sep (sep :: (text ++ [sep]))
      = [] :: (List.splitOn sep text ++ [[]]) := by
    rw [List.splitOn_cons_eq_if_modifyHead, if_pos (beq_self_eq_true sep),
      List.splitOn_append_cons_self]
    rfl
  have hparts : List.splitOn sep (front ++ sep :: (piece ++ sep :: rest))
      = List.splitOn sep front ++ piece :: List.splitOn sep rest := by
    rw [List.splitOn_append_cons_self, List.splitOn_append_cons_self,
      List.splitOn_eq_singleton h.bare]
    rfl
  have hjoined : front ++ sep :: (piece ++ sep :: rest) = sep :: (text ++ [sep]) := by
    rw [← hframed]
    simp only [List.append_assoc, List.cons_append, List.nil_append]
  rw [hjoined, hsplit] at hparts
  -- The empty pieces at both ends come from the frame.
  obtain ⟨first, before, hbefore⟩ := List.exists_cons_of_ne_nil (List.splitOn_ne_nil sep front)
  obtain ⟨after, last, hafter⟩ := (List.eq_nil_or_concat (List.splitOn sep rest)).resolve_left
    (List.splitOn_ne_nil sep rest)
  rw [hbefore, hafter, List.concat_eq_append, List.cons_append] at hparts
  have hkept : List.splitOn sep text ++ [[]] = (before ++ piece :: after) ++ [last] := by
    rw [List.append_assoc, List.cons_append]
    exact (List.cons.inj hparts).2
  rw [(List.append_inj' hkept rfl).1]
  exact List.mem_append_right _ (List.mem_cons_self ..)

theorem mem_splitOn_iff : piece ∈ List.splitOn sep text ↔ IsPiece sep piece text :=
  ⟨isPiece_of_mem_splitOn, mem_splitOn_of_isPiece⟩

end Bytes

/-! ## What is found -/

variable {env : Environment} {files : FileTree} {name : Bytes}

/-- Some directory of the search path has a file of this name. -/
def OnPath (env : Environment) (files : FileTree) (name : Bytes) : Prop :=
  ∃ dir, IsPiece ':' dir (env.valueOf "PATH") ∧ dir ≠ [] ∧
    files.isRegularFile (Path.join dir name) = true

/-- The name holds a slash of either kind, so that it is a path. -/
def HasSlash (name : Bytes) : Prop := '/'.toUInt8 ∈ name ∨ '\\'.toUInt8 ∈ name

/-- The tool is there, on the search path or at its own path. -/
def Found (env : Environment) (files : FileTree) (name : Bytes) : Prop :=
  name ≠ [] ∧ (HasSlash name → files.isRegularFile name = true) ∧
    (¬ HasSlash name → OnPath env files name)

theorem mem_searchPath_iff {dir : Path} :
    dir ∈ env.searchPath ↔ IsPiece ':' dir (env.valueOf "PATH") ∧ dir ≠ [] := by
  rw [Environment.searchPath, List.mem_filter, Bytes.mem_splitOn_iff, decide_eq_true_eq]

theorem hasSlash_iff : HasSlash name ↔ name.any (fun c => c = '/' ∨ c = '\\') = true := by
  simp only [HasSlash, List.any_eq_true, decide_eq_true_eq]
  constructor
  · rintro (h | h)
    · exact ⟨_, h, Or.inl rfl⟩
    · exact ⟨_, h, Or.inr rfl⟩
  · rintro ⟨c, hc, rfl | rfl⟩
    · exact Or.inl hc
    · exact Or.inr hc

theorem isSome_findProgram?_iff :
    (findProgram? env files name).isSome = true ↔ Found env files name := by
  rw [findProgram?, Found, hasSlash_iff]
  by_cases hempty : name = []
  · rw [if_pos hempty]
    exact ⟨nofun, fun h => absurd hempty h.1⟩
  rw [if_neg hempty]
  by_cases hslash : name.any (fun c => c = '/' ∨ c = '\\') = true
  · rw [if_pos hslash]
    by_cases hfile : files.isRegularFile name = true
    · rw [if_pos hfile]
      exact ⟨fun _ => ⟨hempty, fun _ => hfile, fun h => absurd hslash h⟩, fun _ => rfl⟩
    · rw [if_neg hfile]
      exact ⟨nofun, fun h => absurd (h.2.1 hslash) hfile⟩
  · rw [if_neg hslash, List.find?_isSome]
    constructor
    · rintro ⟨p, hp, hfile⟩
      obtain ⟨dir, hdir, rfl⟩ := List.mem_map.mp hp
      obtain ⟨hpiece, hne⟩ := mem_searchPath_iff.mp hdir
      exact ⟨hempty, fun h => absurd h hslash, fun _ => ⟨dir, hpiece, hne, hfile⟩⟩
    · rintro ⟨-, -, h⟩
      obtain ⟨dir, hpiece, hne, hfile⟩ := h hslash
      exact ⟨_, List.mem_map_of_mem (mem_searchPath_iff.mpr ⟨hpiece, hne⟩), hfile⟩

namespace Toolchain

/-! ## The order of choice -/

/-- The choice of a tool: what is configured, or else what the variable
says, or else what the search comes to. -/
inductive Chosen (configured inherited : Bytes) (sought : Bytes → Prop) : Bytes → Prop where
  | configured (h : configured ≠ []) : Chosen configured inherited sought configured
  | fromVariable (h : configured = []) (hinherited : inherited ≠ []) :
      Chosen configured inherited sought inherited
  | fromSearch {tool : Bytes} (h : configured = []) (hinherited : inherited = [])
      (htool : sought tool) : Chosen configured inherited sought tool

theorem firstNonempty_eq_iff {configured inherited otherwise tool : Bytes}
    {sought : Bytes → Prop} (h : ∀ tool, otherwise = tool ↔ sought tool) :
    firstNonempty configured inherited otherwise = tool
      ↔ Chosen configured inherited sought tool := by
  rw [firstNonempty]
  by_cases hconfigured : configured = []
  · rw [if_neg (not_not_intro hconfigured)]
    by_cases hinherited : inherited = []
    · rw [if_neg (not_not_intro hinherited), h]
      refine ⟨.fromSearch hconfigured hinherited, fun hchosen => ?_⟩
      cases hchosen with
      | configured h => exact absurd hconfigured h
      | fromVariable _ h => exact absurd hinherited h
      | fromSearch _ _ htool => exact htool
    · rw [if_pos hinherited]
      refine ⟨fun heq => heq ▸ .fromVariable hconfigured hinherited, fun hchosen => ?_⟩
      cases hchosen with
      | configured h => exact absurd hconfigured h
      | fromVariable _ _ => rfl
      | fromSearch _ h _ => exact absurd h hinherited
  · rw [if_pos hconfigured]
    refine ⟨fun heq => heq ▸ .configured hconfigured, fun hchosen => ?_⟩
    cases hchosen with
    | configured _ => rfl
    | fromVariable h _ => exact absurd h hconfigured
    | fromSearch h _ _ => exact absurd h hconfigured

theorem firstNonempty_ne_nil {configured inherited otherwise : Bytes} (h : otherwise ≠ []) :
    firstNonempty configured inherited otherwise ≠ [] := by
  rw [firstNonempty]
  split
  · assumption
  · split
    · assumption
    · exact h

/-! ## The compiler -/

/-- The first candidate that is on the search path, or the default if
none is. -/
def SoughtCompiler (env : Environment) (files : FileTree) (tool : Bytes) : Prop :=
  (∃ before after, compilerCandidates = before ++ tool :: after ∧ OnPath env files tool ∧
      ∀ earlier ∈ before, ¬ OnPath env files earlier) ∨
    tool = defaultCompiler ∧ ∀ candidate ∈ compilerCandidates, ¬ OnPath env files candidate

/-- A candidate is a bare name. -/
theorem isSome_findProgram?_candidate (h : name ∈ compilerCandidates) :
    (findProgram? env files name).isSome = true ↔ OnPath env files name := by
  have hbare : ∀ name ∈ compilerCandidates,
      name ≠ [] ∧ name.any (fun c => c = '/' ∨ c = '\\') = false := by decide
  obtain ⟨hne, hslash⟩ := hbare name h
  rw [isSome_findProgram?_iff, Found, hasSlash_iff, hslash]
  exact ⟨fun hfound => hfound.2.2 Bool.false_ne_true, fun hpath => ⟨hne, nofun, fun _ => hpath⟩⟩

theorem isSome_findProgram?_split {before after : List Bytes} {tool : Bytes}
    (hsplit : compilerCandidates = before ++ tool :: after) :
    ((findProgram? env files tool).isSome = true ↔ OnPath env files tool) ∧
      ∀ earlier ∈ before,
        ((findProgram? env files earlier).isSome = true ↔ OnPath env files earlier) := by
  have hmem : ∀ candidate ∈ before ++ tool :: after, candidate ∈ compilerCandidates :=
    fun _ h => hsplit ▸ h
  exact ⟨isSome_findProgram?_candidate
      (hmem tool (List.mem_append_right _ (List.mem_cons_self ..))),
    fun earlier hin => isSome_findProgram?_candidate
      (hmem earlier (List.mem_append_left _ hin))⟩

theorem find?_candidate_iff {tool : Bytes} :
    (compilerCandidates.find? fun c => (findProgram? env files c).isSome) = some tool ↔
      ∃ before after, compilerCandidates = before ++ tool :: after ∧ OnPath env files tool ∧
        ∀ earlier ∈ before, ¬ OnPath env files earlier := by
  rw [List.find?_eq_some_iff_append]
  constructor
  · rintro ⟨hfound, before, after, hsplit, hearlier⟩
    obtain ⟨htool, hothers⟩ := isSome_findProgram?_split hsplit
    refine ⟨before, after, hsplit, htool.mp hfound, fun earlier hin hpath => ?_⟩
    have hnot := hearlier earlier hin
    rw [(hothers earlier hin).mpr hpath] at hnot
    cases hnot
  · rintro ⟨before, after, hsplit, hpath, hearlier⟩
    obtain ⟨htool, hothers⟩ := isSome_findProgram?_split hsplit
    refine ⟨htool.mpr hpath, before, after, hsplit, fun earlier hin => ?_⟩
    rw [Bool.not_eq_true']
    exact Bool.eq_false_iff.mpr fun hfound => hearlier earlier hin ((hothers earlier hin).mp hfound)

theorem searched_compiler_eq_iff {tool : Bytes} :
    (compilerCandidates.find? fun c => (findProgram? env files c).isSome).getD defaultCompiler
        = tool ↔ SoughtCompiler env files tool := by
  rw [SoughtCompiler, ← find?_candidate_iff]
  cases hfind : compilerCandidates.find? fun c => (findProgram? env files c).isSome with
  | none =>
      have hnone : ∀ candidate ∈ compilerCandidates, ¬ OnPath env files candidate :=
        fun candidate hmem hpath => List.find?_eq_none.mp hfind candidate hmem
          ((isSome_findProgram?_candidate hmem).mpr hpath)
      rw [Option.getD_none]
      exact ⟨fun h => Or.inr ⟨h.symm, hnone⟩, fun h => (h.resolve_left nofun).1.symm⟩
  | some first =>
      have hmem := List.mem_of_find?_eq_some hfind
      have hpath : OnPath env files first :=
        (find?_candidate_iff.mp hfind).elim fun _ ⟨_, _, hpath, _⟩ => hpath
      rw [Option.getD_some]
      constructor
      · rintro rfl
        exact Or.inl rfl
      · rintro (heq | ⟨-, hnone⟩)
        · exact Option.some.inj heq
        · exact absurd hpath (hnone first hmem)

/-! ## The archiver -/

/-- The sibling of the compiler if that is found, and the host's archiver
otherwise. -/
def SoughtArchiver (env : Environment) (files : FileTree) (compiler tool : Bytes) : Prop :=
  (∃ front : Bytes, front ≠ [] ∧ compiler = front ++ "gcc" ∧ tool = front ++ "ar" ∧
      Found env files tool) ∨
    tool = "ar" ∧ ∀ front : Bytes, front ≠ [] → compiler = front ++ "gcc" →
      ¬ Found env files (front ++ "ar")

theorem siblingArchiver?_eq_some_iff {compiler sibling : Bytes} :
    siblingArchiver? compiler = some sibling ↔
      ∃ front : Bytes, front ≠ [] ∧ compiler = front ++ "gcc" ∧ sibling = front ++ "ar" := by
  rw [siblingArchiver?]
  cases hfront : compiler.before? "gcc" with
  | none =>
      refine ⟨nofun, ?_⟩
      rintro ⟨front, -, hcompiler, -⟩
      rw [Bytes.before?_eq_some_iff.mpr hcompiler] at hfront
      cases hfront
  | some front =>
      have hcompiler := Bytes.before?_eq_some_iff.mp hfront
      dsimp only
      constructor
      · intro h
        by_cases hempty : front = []
        · rw [if_pos hempty] at h
          cases h
        · rw [if_neg hempty] at h
          exact ⟨front, hempty, hcompiler, (Option.some.inj h).symm⟩
      · rintro ⟨front', hne, hcompiler', rfl⟩
        obtain rfl := List.append_cancel_right (hcompiler.symm.trans hcompiler')
        rw [if_neg hne]

theorem searched_archiver_eq_iff {compiler tool : Bytes} :
    (match siblingArchiver? compiler with
      | some sibling => if (findProgram? env files sibling).isSome then sibling else "ar"
      | none => Bytes.ofString "ar") = tool ↔ SoughtArchiver env files compiler tool := by
  cases hsibling : siblingArchiver? compiler with
  | none =>
      have hnone : ∀ front : Bytes, front ≠ [] → compiler ≠ front ++ "gcc" := by
        intro front hne hcompiler
        rw [siblingArchiver?_eq_some_iff.mpr ⟨front, hne, hcompiler, rfl⟩] at hsibling
        cases hsibling
      constructor
      · rintro rfl
        exact Or.inr ⟨rfl, fun front hne hcompiler => absurd hcompiler (hnone front hne)⟩
      · rintro (⟨front, hne, hcompiler, -⟩ | ⟨rfl, -⟩)
        · exact absurd hcompiler (hnone front hne)
        · rfl
  | some sibling =>
      obtain ⟨front, hne, hcompiler, rfl⟩ := siblingArchiver?_eq_some_iff.mp hsibling
      have hunique : ∀ front' : Bytes, compiler = front' ++ "gcc" → front' = front :=
        fun front' h => List.append_cancel_right (h.symm.trans hcompiler)
      dsimp only
      by_cases hfound : (findProgram? env files (front ++ "ar")).isSome = true
      · rw [if_pos hfound]
        rw [isSome_findProgram?_iff] at hfound
        constructor
        · rintro rfl
          exact Or.inl ⟨front, hne, hcompiler, rfl, hfound⟩
        · rintro (⟨front', -, hcompiler', rfl, -⟩ | ⟨-, hnot⟩)
          · rw [hunique front' hcompiler']
          · exact absurd hfound (hnot front hne hcompiler)
      · rw [if_neg hfound]
        rw [isSome_findProgram?_iff] at hfound
        constructor
        · rintro rfl
          exact Or.inr ⟨rfl, fun front' _ hcompiler' => hunique front' hcompiler' ▸ hfound⟩
        · rintro (⟨front', -, hcompiler', rfl, hfound'⟩ | ⟨rfl, -⟩)
          · rw [hunique front' hcompiler'] at hfound'
            exact absurd hfound' hfound
          · rfl

/-! ## Both tools -/

theorem findCompiler_ne_nil (t : Toolchain) : findCompiler env files t ≠ [] := by
  refine firstNonempty_ne_nil fun hempty => ?_
  have hnames : ∀ name ∈ defaultCompiler :: compilerCandidates, name ≠ [] := by decide
  cases hfind : compilerCandidates.find? fun c => (findProgram? env files c).isSome with
  | none =>
      rw [hfind] at hempty
      exact hnames _ (List.mem_cons_self ..) hempty
  | some first =>
      rw [hfind] at hempty
      exact hnames first (List.mem_cons_of_mem _ (List.mem_of_find?_eq_some hfind)) hempty

theorem findArchiver_ne_nil (t : Toolchain) (compiler : Bytes) :
    findArchiver env files t compiler ≠ [] := by
  refine firstNonempty_ne_nil fun hempty => ?_
  rcases searched_archiver_eq_iff.mp hempty with ⟨front, -, -, hsibling, -⟩ | ⟨har, -⟩
  · exact List.append_ne_nil_of_right_ne_nil front (by decide) hsibling.symm
  · exact absurd har (by decide)

/-- Tools that have names are left alone. -/
theorem complete_of_ne {t : Toolchain} (hcompiler : t.compiler ≠ [])
    (harchiver : t.archiver ≠ []) : t.complete env files = t := by
  have hfound : findCompiler env files t = t.compiler := if_pos hcompiler
  have hfound' : findArchiver env files t t.compiler = t.archiver := if_pos harchiver
  simp only [complete, hfound, hfound']

end Toolchain

namespace Config

/-- The warnings among events. -/
def warnings (events : List Event) : List Event :=
  events.filter fun event =>
    match event with
    | .log level _ _ => level = Log.Level.warn
    | _ => false

/-- The warning about a tool that is not found. -/
def notFound (role tool : Bytes) : Event :=
  .log Log.Level.warn "config" (role ++ " '" ++ tool ++ "' not found on PATH")

theorem warnings_searchWarning (env : Environment) (files : FileTree) (role tool : Bytes) :
    warnings (searchWarning env files role tool) =
      if (findProgram? env files tool).isNone then [notFound role tool] else [] := by
  rw [searchWarning]
  cases findProgram? env files tool <;> rfl

/-- Resolving the tools takes the compiler from the first source in order
that has one, and then the archiver, which depends on it. Nothing else of
the configuration is touched, both tools have a name in the end, and there
is one warning for each of them that is not found. Once resolved, the
configuration stays as it is. -/
theorem resolveTools_in_order (env : Environment) (files : FileTree) (c : Config) :
    let resolved := (c.resolveTools env files).1
    let t := resolved.toolchain
    (∀ tool, t.compiler = tool ↔
      Toolchain.Chosen c.toolchain.compiler (env.valueOf "RVBLOB_CC")
        (Toolchain.SoughtCompiler env files) tool) ∧
    (∀ tool, t.archiver = tool ↔
      Toolchain.Chosen c.toolchain.archiver (env.valueOf "RVBLOB_AR")
        (Toolchain.SoughtArchiver env files t.compiler) tool) ∧
    resolved = { c with
      toolchain := { c.toolchain with compiler := t.compiler, archiver := t.archiver } } ∧
    t.compiler ≠ [] ∧ t.archiver ≠ [] ∧
    warnings (c.resolveTools env files).2 =
      ([(Bytes.ofString "compiler", t.compiler), (Bytes.ofString "archiver", t.archiver)].filter
        fun (_, tool) => (findProgram? env files tool).isNone).map
        (fun (role, tool) => notFound role tool) ∧
    (resolved.resolveTools env files).1 = resolved := by
  intro resolved t
  have hcompiler : t.compiler ≠ [] := Toolchain.findCompiler_ne_nil c.toolchain
  have harchiver : t.archiver ≠ [] := Toolchain.findArchiver_ne_nil c.toolchain t.compiler
  refine ⟨fun tool => ?_, fun tool => ?_, rfl, hcompiler, harchiver, ?_, ?_⟩
  · exact Toolchain.firstNonempty_eq_iff fun _ => Toolchain.searched_compiler_eq_iff
  · exact Toolchain.firstNonempty_eq_iff fun _ => Toolchain.searched_archiver_eq_iff
  · show warnings (_ ++ searchWarning env files "compiler" t.compiler
      ++ searchWarning env files "archiver" t.archiver) = _
    rw [warnings, List.filter_append, List.filter_append, ← warnings, ← warnings, ← warnings,
      warnings_searchWarning, warnings_searchWarning]
    simp only [List.filter_cons, List.filter_nil]
    split <;> split <;> rfl
  · show { resolved with toolchain := t.complete env files } = resolved
    rw [Toolchain.complete_of_ne hcompiler harchiver]

/-- A directory with the second candidate and its sibling. -/
def crossTree : FileTree where
  entries := [(["t"], .directory), (["t", "riscv32-unknown-elf-gcc"], .file "exit 0" true),
    (["t", "riscv32-unknown-elf-ar"], .file "exit 0" true)]
  distinct := by decide
  workingDirectory := []
  emptied := []

/-- Over one search path each tool comes from each of its sources: from
the configuration, from its variable and from the search. -/
theorem resolveTools_in_order_eachSource :
    let resolved (given : Toolchain) (further : Environment) :=
      let r := Config.resolveTools (("PATH", "none::t") :: further) crossTree
        { toolchain := given }
      (r.1.toolchain.compiler, r.1.toolchain.archiver, warnings r.2)
    resolved { compiler := "tcc", archiver := "tar" } [("RVBLOB_CC", "clang")] =
        (Bytes.ofString "tcc", Bytes.ofString "tar",
          [notFound "compiler" "tcc", notFound "archiver" "tar"]) ∧
      resolved {} [("RVBLOB_CC", "clang")] =
        (Bytes.ofString "clang", Bytes.ofString "ar",
          [notFound "compiler" "clang", notFound "archiver" "ar"]) ∧
      resolved {} [("RVBLOB_CC", ""), ("RVBLOB_AR", "llvm-ar")] =
        (Bytes.ofString "riscv32-unknown-elf-gcc", Bytes.ofString "llvm-ar",
          [notFound "archiver" "llvm-ar"]) ∧
      resolved {} [] =
        (Bytes.ofString "riscv32-unknown-elf-gcc", Bytes.ofString "riscv32-unknown-elf-ar",
          []) := by
  intro resolved
  have heach (given : Toolchain) (further : Environment) {compiler archiver : Bytes} :
      let env : Environment := ("PATH", "none::t") :: further
      Toolchain.Chosen given.compiler (env.valueOf "RVBLOB_CC")
        (Toolchain.SoughtCompiler env crossTree) compiler →
      Toolchain.Chosen given.archiver (env.valueOf "RVBLOB_AR")
        (Toolchain.SoughtArchiver env crossTree compiler) archiver →
      resolved given further = (compiler, archiver,
        ([(Bytes.ofString "compiler", compiler), (Bytes.ofString "archiver", archiver)].filter
          fun (_, tool) => (findProgram? env crossTree tool).isNone).map
          fun (role, tool) => notFound role tool) := by
    intro env hcompiler harchiver
    obtain ⟨hchosen, hchosen', -, -, -, hwarnings, -⟩ :=
      resolveTools_in_order env crossTree { toolchain := given }
    have h := (hchosen compiler).mpr hcompiler
    have h' := (hchosen' archiver).mpr (h.symm ▸ harchiver)
    rw [h, h'] at hwarnings
    exact Prod.ext h (Prod.ext h' hwarnings)
  have hclang : Toolchain.SoughtArchiver [("PATH", "none::t"), ("RVBLOB_CC", "clang")] crossTree
      "clang" "ar" := Toolchain.searched_archiver_eq_iff.mp (by decide)
  have hset : Toolchain.SoughtCompiler
      [("PATH", "none::t"), ("RVBLOB_CC", ""), ("RVBLOB_AR", "llvm-ar")] crossTree
      "riscv32-unknown-elf-gcc" := Toolchain.searched_compiler_eq_iff.mp (by decide)
  have hcross : Toolchain.SoughtCompiler [("PATH", "none::t")] crossTree
      "riscv32-unknown-elf-gcc" := Toolchain.searched_compiler_eq_iff.mp (by decide)
  have hsibling : Toolchain.SoughtArchiver [("PATH", "none::t")] crossTree
      "riscv32-unknown-elf-gcc" "riscv32-unknown-elf-ar" :=
    Toolchain.searched_archiver_eq_iff.mp (by decide)
  refine ⟨?_, ?_, ?_, ?_⟩
  · rw [heach _ _ (.configured (by decide)) (.configured (by decide))]
    decide
  · rw [heach _ _ (.fromVariable rfl (by decide)) (.fromSearch rfl rfl hclang)]
    decide
  · rw [heach _ _ (.fromSearch rfl rfl hset) (.fromVariable rfl (by decide))]
    decide
  · rw [heach _ _ (.fromSearch rfl rfl hcross) (.fromSearch rfl rfl hsibling)]
    decide

end Config

end Prebuilt
