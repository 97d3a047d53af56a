import Prebuilt.Proofs.Log.Specification

/-!
# Bare entries

A bare entry of a specification is to be short for the entry with
`=trace` behind it. That holds of every name but one. A name is compared
with `*` only if an equals sign follows it, so a bare `*` does not set
the default but names a topic that nothing is logged under. The empty
entry is passed over as well, while `=trace` names the empty topic.
`spelledOut_agrees_iff` tells when the two spellings make filters that
agree in spite of that.
-/

namespace Prebuilt.Log

namespace Filter

/-! ## The last of several pieces -/

theorem lastIn_append (pick : Clause → Option Level) (front back : List Bytes) :
    lastIn pick (front ++ back) = (lastIn pick back).or (lastIn pick front) := by
  rw [lastIn, clausesOf, List.filter_append, List.map_append, List.filterMap_append,
    List.getLast?_append]
  rfl

theorem lastIn_cons (pick : Clause → Option Level) (piece : Bytes) (back : List Bytes) :
    lastIn pick (piece :: back) = (lastIn pick back).or (lastIn pick [piece]) :=
  lastIn_append pick [piece] back

theorem lastIn_between (pick : Clause → Option Level) (front : List Bytes) (piece : Bytes)
    (back : List Bytes) :
    lastIn pick (front ++ piece :: back)
      = (lastIn pick back).or ((lastIn pick [piece]).or (lastIn pick front)) := by
  rw [lastIn_append, lastIn_cons, Option.or_assoc]

/-- A piece that says nothing may be left out. -/
theorem lastIn_between_of_none {pick : Clause → Option Level} {piece : Bytes}
    (h : lastIn pick [piece] = none) (front back : List Bytes) :
    lastIn pick (front ++ piece :: back) = lastIn pick (front ++ back) := by
  rw [lastIn_between, h, Option.none_or, lastIn_append]

theorem lastIn_singleton (pick : Clause → Option Level) {piece : Bytes} (h : piece ≠ []) :
    lastIn pick [piece] = pick (Clause.ofEntry piece) := by
  have hone : clausesOf [piece] = [Clause.ofEntry piece] := by simp [clausesOf, h]
  rw [lastIn, hone, List.filterMap_cons, List.filterMap_nil]
  cases pick (Clause.ofEntry piece) <;> rfl

theorem isSome_lastIn_iff {pick : Clause → Option Level} {pieces : List Bytes} :
    (lastIn pick pieces).isSome = true
      ↔ ∃ piece ∈ pieces, piece ≠ [] ∧ (pick (Clause.ofEntry piece)).isSome = true := by
  induction pieces with
  | nil => simp [lastIn, clausesOf]
  | cons piece rest ih =>
      have hone : (lastIn pick [piece]).isSome = true
          ↔ piece ≠ [] ∧ (pick (Clause.ofEntry piece)).isSome = true := by
        by_cases h : piece = []
        · simp [h, lastIn, clausesOf]
        · rw [lastIn_singleton pick h, and_iff_right h]
      rw [lastIn_cons, Option.isSome_or, Bool.or_eq_true, ih, hone, List.exists_mem_cons_iff,
        or_comm]

theorem isSome_given?_iff {name entry : Bytes} (hname : '='.toUInt8 ∉ name)
    (hne : entry ≠ name) :
    (given? name entry).isSome = true ↔ name ++ Bytes.ofString "=" <+: entry := by
  rw [given?, if_neg hname, if_neg hne, Option.isSome_map, Option.isSome_iff_exists]
  exact exists_congr fun rest => Bytes.after?_eq_some_iff.trans eq_comm

theorem isSome_lastIn_begins_iff {pick : Clause → Option Level} {name : Bytes}
    (hname : '='.toUInt8 ∉ name)
    (hpick : ∀ piece, piece ≠ name → pick (Clause.ofEntry piece) = given? name piece)
    (hbare : name = [] ∨ pick (Clause.ofEntry name) = none) {pieces : List Bytes} :
    (lastIn pick pieces).isSome = true
      ↔ ∃ piece ∈ pieces, name ++ Bytes.ofString "=" <+: piece := by
  have hone : ∀ piece : Bytes, (piece ≠ [] ∧ (pick (Clause.ofEntry piece)).isSome = true)
      ↔ name ++ Bytes.ofString "=" <+: piece := by
    intro piece
    by_cases h : piece = name
    · subst h
      constructor
      · rintro ⟨hne, hsome⟩
        rw [hbare.resolve_left hne] at hsome
        cases hsome
      · intro hbegins
        exact absurd
          (hbegins.subset (List.mem_append_right _ (List.mem_cons_self ..))) hname
    · rw [hpick piece h, isSome_given?_iff hname h]
      refine and_iff_right_of_imp fun hbegins hnil => ?_
      rw [hnil, List.prefix_nil, List.append_eq_nil_iff] at hbegins
      exact absurd hbegins.2 (by decide)
  rw [isSome_lastIn_iff]
  exact exists_congr fun piece => and_congr_right fun _ => hone piece

/-- The default is set by an entry that begins with `*=`. -/
theorem isSome_lastIn_default?_iff {pieces : List Bytes} :
    (lastIn Clause.default? pieces).isSome = true
      ↔ ∃ piece ∈ pieces, Bytes.ofString "*=" <+: piece :=
  isSome_lastIn_begins_iff (by decide) (fun _ => default?_ofEntry) (Or.inr rfl)

/-- The empty topic is named by an entry that begins with an equals
sign. -/
theorem isSome_lastIn_nil_iff {pieces : List Bytes} :
    (lastIn (Clause.levelFor? []) pieces).isSome = true
      ↔ ∃ piece ∈ pieces, Bytes.ofString "=" <+: piece :=
  isSome_lastIn_begins_iff List.not_mem_nil (fun piece _ => levelFor?_ofEntry (by decide) piece)
    (Or.inl rfl)

/-- Only a bare `*` names the topic `*`. -/
theorem levelFor?_star_ofEntry (entry : Bytes) :
    (Clause.ofEntry entry).levelFor? "*" = if entry = "*" then some Level.trace else none := by
  rcases ofEntry_cases entry with ⟨-, hclause⟩ | ⟨name, text, -, rfl, hclause⟩
  · rw [hclause]
    rfl
  · have hne : name ++ '='.toUInt8 :: text ≠ "*" := by
      intro heq
      have hmem : '='.toUInt8 ∈ (Bytes.ofString "*") :=
        heq ▸ List.mem_append_right _ (List.mem_cons_self ..)
      exact absurd hmem (by decide)
    rw [hclause, if_neg hne]
    by_cases hstar : name = "*"
    · rw [if_pos hstar]
      rfl
    · rw [if_neg hstar]
      exact if_neg hstar

/-- The topic `*` has a level of its own after a bare `*` only. -/
theorem lastIn_star (pieces : List Bytes) :
    lastIn (Clause.levelFor? "*") pieces
      = if Bytes.ofString "*" ∈ pieces then some Level.trace else none := by
  induction pieces with
  | nil => rfl
  | cons piece rest ih =>
      have hone : lastIn (Clause.levelFor? "*") [piece]
          = if piece = "*" then some Level.trace else none := by
        by_cases h : piece = []
        · subst h
          decide
        · rw [lastIn_singleton _ h, levelFor?_star_ofEntry]
      rw [lastIn_cons, ih, hone]
      by_cases hrest : Bytes.ofString "*" ∈ rest
      · rw [if_pos hrest, if_pos (List.mem_cons_of_mem _ hrest), Option.some_or]
      · rw [if_neg hrest, Option.none_or]
        simp only [List.mem_cons, hrest, or_false, eq_comm]

/-! ## A bare entry spelled out -/

/-- The specification with `=trace` behind the entry between these. -/
def spelledOut (front : List Bytes) (name : Bytes) (back : List Bytes) : Bytes :=
  List.intercalate [','.toUInt8] (front ++ (name ++ "=trace") :: back)

theorem splitOn_spelledOut {spec name : Bytes} {front back : List Bytes}
    (hspec : List.splitOn ','.toUInt8 spec = front ++ name :: back) :
    List.splitOn ','.toUInt8 (spelledOut front name back)
      = front ++ (name ++ "=trace") :: back := by
  have hpieces : ∀ piece ∈ front ++ name :: back, ','.toUInt8 ∉ piece :=
    fun piece hpiece => Bytes.notMem_of_mem_splitOn (hspec ▸ hpiece)
  refine List.splitOn_intercalate _ (fun piece hpiece => ?_) (by simp)
  simp only [List.mem_append, List.mem_cons] at hpieces hpiece
  rcases hpiece with hfront | rfl | hback
  · exact hpieces piece (Or.inl hfront)
  · have hname := hpieces name (Or.inr (Or.inl rfl))
    rw [List.mem_append, not_or]
    exact ⟨hname, by decide⟩
  · exact hpieces piece (Or.inr (Or.inr hback))

theorem ofEntry_of_bare {name : Bytes} (h : '='.toUInt8 ∉ name) :
    Clause.ofEntry name = .topic name Level.trace := by
  rcases ofEntry_cases name with ⟨-, hclause⟩ | ⟨before, text, -, heq, -⟩
  · exact hclause
  · exact absurd (heq ▸ List.mem_append_right _ (List.mem_cons_self ..)) h

theorem ofEntry_spelled {name : Bytes} (h : '='.toUInt8 ∉ name) :
    Clause.ofEntry (name ++ "=trace")
      = if name = "*" then .all Level.trace else .topic name Level.trace := by
  have hcut : (name ++ "=trace").cut? '=' = some (name, Bytes.ofString "trace") :=
    Bytes.cut?_eq_some_iff.mpr ⟨rfl, h⟩
  have hlevel : Level.ofName "trace" = Level.trace := by decide
  rw [Clause.ofEntry, hcut]
  dsimp only
  rw [hlevel]

/-- A level that is stated last of all is the outcome unless something
behind it says otherwise. -/
theorem getD_eq_getD_or_iff {back front : Option Level} {stated start : Level} :
    back.getD stated = (back.or front).getD start
      ↔ (back.or front).getD start = stated ∨ back.isSome = true := by
  cases back with
  | none => rw [Option.getD_none, eq_comm, Option.isSome_none, or_iff_left Bool.false_ne_true]
  | some level => simp

/-- Only for the topic of its name does an entry change by being spelled
out. -/
theorem lastIn_levelFor?_spelled {name topic : Bytes} (hbare : '='.toUInt8 ∉ name)
    (htopic : topic ≠ name) (front back : List Bytes) :
    lastIn (Clause.levelFor? topic) (front ++ (name ++ "=trace") :: back)
      = lastIn (Clause.levelFor? topic) (front ++ name :: back) := by
  have hname : lastIn (Clause.levelFor? topic) [name] = none := by
    by_cases h : name = []
    · rw [h]
      rfl
    · rw [lastIn_singleton _ h, ofEntry_of_bare hbare]
      exact if_neg htopic.symm
  have hspelled : lastIn (Clause.levelFor? topic) [name ++ Bytes.ofString "=trace"] = none := by
    rw [lastIn_singleton _ (List.append_ne_nil_of_right_ne_nil _ (by decide)),
      ofEntry_spelled hbare]
    split
    · rfl
    · exact if_neg htopic.symm
  rw [lastIn_between_of_none hname]
  exact lastIn_between_of_none hspelled front back

/-- Spelling out a bare `*` sets the default. -/
theorem default_spelledOut_star_iff (f : Filter) {spec : Bytes} {front back : List Bytes}
    (hspec : List.splitOn ','.toUInt8 spec = front ++ Bytes.ofString "*" :: back) :
    (f.parse (spelledOut front "*" back)).default = (f.parse spec).default
      ↔ (f.parse spec).default = Level.trace ∨
        ∃ entry ∈ back, Bytes.ofString "*=" <+: entry := by
  have hsets : lastIn Clause.default? [Bytes.ofString "*" ++ Bytes.ofString "=trace"]
      = some Level.trace := by decide
  have hkeeps : lastIn Clause.default? [Bytes.ofString "*"] = none := by decide
  rw [default_parse, splitOn_spelledOut hspec, lastIn_between, hsets, Option.some_or,
    Option.getD_or, Option.getD_some, default_parse, hspec, lastIn_between, hkeeps,
    Option.none_or, ← isSome_lastIn_default?_iff]
  exact getD_eq_getD_or_iff

/-- It also takes away the level of the topic `*`, unless another entry
is a bare `*`. -/
theorem threshold_spelledOut_star (f : Filter) {spec : Bytes} {front back : List Bytes}
    (hspec : List.splitOn ','.toUInt8 spec = front ++ Bytes.ofString "*" :: back) :
    (f.parse (spelledOut front "*" back)).threshold "*"
      = if Bytes.ofString "*" ∈ front ++ back then Level.trace
        else (f.parse (spelledOut front "*" back)).default := by
  have hnone : lastIn (Clause.levelFor? "*") [Bytes.ofString "*" ++ Bytes.ofString "=trace"]
      = none := by decide
  rw [threshold_parse, splitOn_spelledOut hspec, lastIn_between_of_none hnone, lastIn_star]
  split <;> rfl

theorem thresholds_star_agree_iff (f : Filter) {spec : Bytes} {front back : List Bytes}
    (hspec : List.splitOn ','.toUInt8 spec = front ++ Bytes.ofString "*" :: back) :
    (∀ topic, (f.parse (spelledOut front "*" back)).threshold topic
        = (f.parse spec).threshold topic)
      ↔ (f.parse spec).default = Level.trace ∨
        (Bytes.ofString "*" ∈ front ++ back ∧ ∃ entry ∈ back, Bytes.ofString "*=" <+: entry) := by
  have hdefaults := default_spelledOut_star_iff f hspec
  have hstar := threshold_spelledOut_star f hspec
  have hbare : (f.parse spec).threshold "*" = Level.trace := by
    have hmem : Bytes.ofString "*" ∈ front ++ Bytes.ofString "*" :: back :=
      List.mem_append_right _ (List.mem_cons_self ..)
    rw [threshold_parse, hspec, lastIn_star, if_pos hmem, Option.getD_some]
  constructor
  · intro h
    -- A topic that neither filter names shows the two defaults.
    obtain ⟨topic, htopic⟩ := exists_topic_notMem
      ((f.parse (spelledOut front "*" back)).named ++ (f.parse spec).named)
    rw [List.mem_append, not_or] at htopic
    have hequal : (f.parse (spelledOut front "*" back)).default = (f.parse spec).default := by
      rw [← threshold_of_notMem_named htopic.1, h, threshold_of_notMem_named htopic.2]
    by_cases hagain : Bytes.ofString "*" ∈ front ++ back
    · exact (hdefaults.mp hequal).imp_right fun hset => ⟨hagain, hset⟩
    · rw [if_neg hagain, h, hbare] at hstar
      exact Or.inl (hequal.symm.trans hstar.symm)
  · intro h topic
    have hequal := hdefaults.mpr (h.imp_right And.right)
    by_cases htopic : topic = "*"
    · rw [htopic, hstar, hbare]
      rcases h with htrace | ⟨hagain, -⟩
      · rw [hequal, htrace, ite_self]
      · rw [if_pos hagain]
    · rw [threshold_parse, splitOn_spelledOut hspec, threshold_parse, hspec, hequal]
      exact congrArg (Option.getD · _)
        (lastIn_levelFor?_spelled (by decide) htopic front back)

/-- An empty entry is passed over, but spelled out it names the empty
topic. -/
theorem thresholds_nil_agree_iff (f : Filter) {spec : Bytes} {front back : List Bytes}
    (hspec : List.splitOn ','.toUInt8 spec = front ++ [] :: back) :
    (∀ topic, (f.parse (spelledOut front [] back)).threshold topic
        = (f.parse spec).threshold topic)
      ↔ (f.parse spec).threshold [] = Level.trace ∨
        ∃ entry ∈ back, Bytes.ofString "=" <+: entry := by
  have hspelled := splitOn_spelledOut hspec
  have hequal : (f.parse (spelledOut front [] back)).default = (f.parse spec).default := by
    have hnone : lastIn Clause.default? [[] ++ Bytes.ofString "=trace"] = none := by decide
    have hempty : lastIn Clause.default? [[]] = none := rfl
    rw [default_parse, hspelled, default_parse, hspec, lastIn_between_of_none hnone,
      lastIn_between_of_none hempty]
  have hnil : (f.parse (spelledOut front [] back)).threshold [] = (f.parse spec).threshold []
      ↔ (f.parse spec).threshold [] = Level.trace ∨
        ∃ entry ∈ back, Bytes.ofString "=" <+: entry := by
    have hnames : lastIn (Clause.levelFor? []) [[] ++ Bytes.ofString "=trace"]
        = some Level.trace := by decide
    have hempty : lastIn (Clause.levelFor? []) [[]] = none := rfl
    rw [threshold_parse, hspelled, lastIn_between, hnames, Option.some_or, Option.getD_or,
      Option.getD_some, threshold_parse, hspec, lastIn_between, hempty, Option.none_or,
      ← isSome_lastIn_nil_iff]
    exact getD_eq_getD_or_iff
  rw [← hnil]
  constructor
  · exact fun h => h []
  · intro h topic
    by_cases htopic : topic = []
    · rw [htopic, h]
    · rw [threshold_parse, hspelled, threshold_parse, hspec, hequal]
      exact congrArg (Option.getD · _)
        (lastIn_levelFor?_spelled List.not_mem_nil htopic front back)

theorem parse_spelledOut_of_ne (f : Filter) {spec name : Bytes} {front back : List Bytes}
    (hspec : List.splitOn ','.toUInt8 spec = front ++ name :: back) (hbare : '='.toUInt8 ∉ name)
    (hstar : name ≠ "*") (hnil : name ≠ []) :
    f.parse (spelledOut front name back) = f.parse spec := by
  have hclauses : clauses (spelledOut front name back) = clauses spec := by
    rw [clauses, clauses, hspec, splitOn_spelledOut hspec]
    simp [hnil, ofEntry_of_bare hbare, ofEntry_spelled hbare, hstar]
  rw [parse, parse, hclauses]

/-- A bare entry and the entry with `=trace` behind it make the same
filter, except for `*` and for the empty entry: there the two spellings
agree only where the outcome happens to be the same. -/
theorem spelledOut_agrees_iff (f : Filter) {spec name : Bytes} {front back : List Bytes}
    (hspec : List.splitOn ','.toUInt8 spec = front ++ name :: back) (hbare : '='.toUInt8 ∉ name) :
    let bare := f.parse spec
    let spelled := f.parse (spelledOut front name back)
    ((∀ level topic, spelled.admits level topic = bare.admits level topic)
        ∧ spelled.minLevel = bare.minLevel)
      ↔ (name = "*" → bare.default = Level.trace ∨
          (Bytes.ofString "*" ∈ front ++ back
            ∧ ∃ entry ∈ back, Bytes.ofString "*=" <+: entry))
        ∧ (name = [] → bare.threshold [] = Level.trace ∨
          ∃ entry ∈ back, Bytes.ofString "=" <+: entry) := by
  intro bare spelled
  rw [and_iff_left_of_imp
    (minLevel_eq_of_admits_eq (nodup_named_parse f _) (nodup_named_parse f spec)), forall_comm,
    forall_congr' fun topic => admits_eq_iff]
  by_cases hstar : name = "*"
  · subst hstar
    rw [and_iff_left fun hnil => absurd hnil (by decide), imp_iff_right rfl]
    exact thresholds_star_agree_iff f hspec
  by_cases hnil : name = []
  · subst hnil
    rw [and_iff_right fun heq => absurd heq hstar, imp_iff_right rfl]
    exact thresholds_nil_agree_iff f hspec
  · rw [parse_spelledOut_of_ne f hspec hbare hstar hnil]
    exact ⟨fun _ => ⟨fun h => absurd h hstar, fun h => absurd h hnil⟩, fun _ _ => rfl⟩

/-- The first `*` may be spelled out: the second one still names the
topic, and the default is set behind both. -/
theorem spelledOut_agrees_beforeDefault :
    let bare := initial.parse "*,tools=info,*,*=warn"
    let spelled := initial.parse (spelledOut [] "*" ["tools=info", "*", "*=warn"])
    (∀ level topic, spelled.admits level topic = bare.admits level topic)
      ∧ spelled.minLevel = bare.minLevel := by
  refine (spelledOut_agrees_iff initial (by decide) (by decide)).mpr ⟨fun _ => Or.inr ?_, ?_⟩
  · exact ⟨by decide, "*=warn", by decide, by decide⟩
  · exact fun hnil => absurd hnil (by decide)

/-- Alone, a bare `*` shows nothing of `build` below `info`. -/
theorem bareStar_shows_less_than_spelledOut :
    List.splitOn ','.toUInt8 "*" = [] ++ Bytes.ofString "*" :: []
      ∧ '='.toUInt8 ∉ Bytes.ofString "*"
      ∧ (initial.parse "*").admits Level.trace "build" = false
      ∧ (initial.parse (spelledOut [] "*" [])).admits Level.trace "build" = true := by
  decide

end Filter

end Prebuilt.Log
