import Prebuilt.Proofs.Log.Gate
import Prebuilt.Proofs.Options

/-!
# What a filter specification means

A filter is the outcome of the calls that were made on it. To say which
level a topic is shown at, one need not follow them: the last entry of
the last specification that names the topic gives it, and without one
the last level that any call gave to all other topics (`meant`).
`admits_iff_meant_le` states this for specifications without a bare `*`.
-/

namespace Prebuilt.Log

/-! ## Names of levels -/

namespace Level

/-- A small letter as its capital. -/
def capital (c : UInt8) : UInt8 := if Byte.isLower c then c - 32 else c

/-- The level whose name this is but for the case of its letters. -/
def named? (text : Bytes) : Option Level := (names.idxOf? (text.map capital)).map Int.ofNat

theorem sameLetter_iff {u c : UInt8} (hu : Byte.isUpper u = true) :
    sameLetter u c = true ↔ capital c = u := by
  simp only [Byte.isUpper, Bool.and_eq_true, decide_eq_true_eq, UInt8.le_iff_toNat_le] at hu
  simp only [sameLetter, capital, Byte.isLower, Bool.and_eq_true, decide_eq_true_eq,
    UInt8.le_iff_toNat_le, ← UInt8.toNat_inj, UInt8.toNat_add]
  have hA : 'A'.toUInt8.toNat = 65 := rfl
  have hZ : 'Z'.toUInt8.toNat = 90 := rfl
  have ha : 'a'.toUInt8.toNat = 97 := rfl
  have hz : 'z'.toUInt8.toNat = 122 := rfl
  have hshift : (32 : UInt8).toNat = 32 := rfl
  split
  · rw [UInt8.toNat_sub]
    omega
  · omega

theorem spells_iff {capitals : Bytes} (h : ∀ u ∈ capitals, Byte.isUpper u = true)
    (text : Bytes) : spells capitals text = true ↔ capitals = text.map capital := by
  induction capitals generalizing text with
  | nil => cases text <;> simp [spells]
  | cons u rest ih =>
      obtain ⟨hu, hrest⟩ := List.forall_mem_cons.mp h
      cases text with
      | nil => simp [spells]
      | cons c text =>
          rw [spells, Bool.and_eq_true, sameLetter_iff hu, ih hrest, List.map_cons,
            List.cons.injEq, eq_comm (a := u)]

theorem ofName?_eq_named? (text : Bytes) : ofName? text = named? text := by
  have hnames : ∀ name ∈ names, ∀ u ∈ name, Byte.isUpper u = true := by
    have hall : (names.all fun name => name.all Byte.isUpper) = true := by decide
    simpa only [List.all_eq_true] using hall
  have hfind : ∀ {l : List Bytes}, (∀ name ∈ l, ∀ u ∈ name, Byte.isUpper u = true) →
      l.findIdx? (spells · text) = l.idxOf? (text.map capital) := by
    intro l hl
    induction l with
    | nil => rfl
    | cons name rest ih =>
        obtain ⟨hname, hrest⟩ := List.forall_mem_cons.mp hl
        have htest : spells name text = (name == text.map capital) :=
          Bool.eq_iff_iff.mpr ((spells_iff hname text).trans beq_iff_eq.symm)
        rw [List.findIdx?_cons, List.idxOf?_cons, htest, ih hrest]
  rw [ofName?, named?, hfind hnames]

end Level

namespace Filter

/-! ## Entries -/

/-- The entries of a specification, in their order. -/
def entries (spec : Bytes) : List Bytes := (List.splitOn ','.toUInt8 spec).filter (· ≠ [])

/-- The level that an entry gives to a name: `trace` if it is the name,
and otherwise the level named behind the first equals sign if the name
stands before it. A level that is none stands for `info`. -/
def given? (name entry : Bytes) : Option Level :=
  if '='.toUInt8 ∈ name then none
  else if entry = name then some Level.trace
  else (entry.after? (name ++ "=")).map fun text => (Level.named? text).getD Level.info

/-- An entry is bare, or it has a first equals sign. -/
theorem ofEntry_cases (entry : Bytes) :
    ('='.toUInt8 ∉ entry ∧ Clause.ofEntry entry = .topic entry Level.trace) ∨
    ∃ name text, '='.toUInt8 ∉ name ∧ entry = name ++ '='.toUInt8 :: text ∧
      Clause.ofEntry entry =
        if name = "*" then .all (Level.ofName text) else .topic name (Level.ofName text) := by
  rw [Clause.ofEntry]
  cases hcut : entry.cut? '=' with
  | none =>
      refine Or.inl ⟨fun hmem => ?_, rfl⟩
      obtain ⟨name, text, heq, hname⟩ := List.eq_append_cons_of_mem hmem
      rw [Bytes.cut?_eq_some_iff.mpr ⟨heq, hname⟩] at hcut
      cases hcut
  | some parts =>
      obtain ⟨name, text⟩ := parts
      obtain ⟨heq, hname⟩ := Bytes.cut?_eq_some_iff.mp hcut
      exact Or.inr ⟨name, text, hname, heq, rfl⟩

theorem given?_of_bare {name entry : Bytes} (h : '='.toUInt8 ∉ entry) :
    given? name entry = if entry = name then some Level.trace else none := by
  have hnone : entry.after? (name ++ "=") = none := by
    rw [Option.eq_none_iff_forall_ne_some]
    intro text htext
    refine h ?_
    rw [Bytes.after?_eq_some_iff.mp htext]
    exact List.mem_append_left _ (List.mem_append_right _ (List.mem_cons_self ..))
  rw [given?, hnone]
  by_cases hname : '='.toUInt8 ∈ name
  · rw [if_pos hname, if_neg fun heq : entry = name => h (heq ▸ hname)]
  · rw [if_neg hname]
    rfl

theorem given?_of_split {name before text : Bytes} (h : '='.toUInt8 ∉ before) :
    given? name (before ++ '='.toUInt8 :: text)
      = if before = name then some (Level.ofName text) else none := by
  rw [given?]
  by_cases hname : '='.toUInt8 ∈ name
  · rw [if_pos hname, if_neg fun heq : before = name => h (heq ▸ hname)]
  have hne : before ++ '='.toUInt8 :: text ≠ name := fun heq =>
    hname (heq ▸ List.mem_append_right _ (List.mem_cons_self ..))
  rw [if_neg hname, if_neg hne]
  have hafter : ∀ rest, (before ++ '='.toUInt8 :: text).after? (name ++ "=") = some rest ↔
      before = name ∧ text = rest := by
    intro rest
    have hcut : ∀ {a b : Bytes}, '='.toUInt8 ∉ a →
        (a ++ '='.toUInt8 :: b).cut? '=' = some (a, b) :=
      fun ha => Bytes.cut?_eq_some_iff.mpr ⟨rfl, ha⟩
    have hjoin : name ++ "=" ++ rest = name ++ '='.toUInt8 :: rest := List.append_assoc ..
    rw [Bytes.after?_eq_some_iff, hjoin]
    constructor
    · intro heq
      have hparts := (hcut h).symm.trans ((congrArg (Bytes.cut? '=') heq).trans (hcut hname))
      exact Prod.mk.inj (Option.some.inj hparts)
    · rintro ⟨rfl, rfl⟩
      rfl
  by_cases hbefore : before = name
  · rw [if_pos hbefore, (hafter text).mpr ⟨hbefore, rfl⟩, Option.map_some, Level.ofName,
      Level.ofName?_eq_named?]
  · rw [if_neg hbefore, Option.map_eq_none_iff, Option.eq_none_iff_forall_ne_some]
    exact fun rest hrest => hbefore ((hafter rest).mp hrest).1

/-! ## Clauses -/

/-- The level that a clause gives to this topic. -/
def Clause.levelFor? (topic : Bytes) : Clause → Option Level
  | .all _ => none
  | .topic name level => if name = topic then some level else none

/-- The level that a clause gives to all other topics. -/
def Clause.default? : Clause → Option Level
  | .all level => some level
  | .topic .. => none

theorem levelFor?_ofEntry {topic : Bytes} (h : topic ≠ "*") (entry : Bytes) :
    (Clause.ofEntry entry).levelFor? topic = given? topic entry := by
  rcases ofEntry_cases entry with ⟨hbare, hclause⟩ | ⟨name, text, hname, rfl, hclause⟩
  · rw [hclause, given?_of_bare hbare]
    rfl
  · rw [hclause, given?_of_split hname]
    by_cases hstar : name = "*"
    · rw [if_pos hstar, if_neg fun heq : name = topic => h (heq.symm.trans hstar)]
      rfl
    · rw [if_neg hstar]
      rfl

theorem default?_ofEntry {entry : Bytes} (h : entry ≠ "*") :
    (Clause.ofEntry entry).default? = given? "*" entry := by
  rcases ofEntry_cases entry with ⟨hbare, hclause⟩ | ⟨name, text, hname, rfl, hclause⟩
  · rw [hclause, given?_of_bare hbare, if_neg h]
    rfl
  · rw [hclause, given?_of_split hname]
    by_cases hstar : name = "*"
    · rw [if_pos hstar, if_pos hstar]
      rfl
    · rw [if_neg hstar, if_neg hstar]
      rfl

theorem default_apply (f : Filter) (clause : Clause) :
    (f.apply clause).default = clause.default?.getD f.default := by
  cases clause <;> rfl

theorem default_foldl_apply (cs : List Clause) (f : Filter) :
    (cs.foldl apply f).default = (cs.filterMap Clause.default?).getLast?.getD f.default :=
  foldl_last Filter.default default_apply cs f

theorem levelIn_override (f : Filter) (name topic : Bytes) (level : Level) :
    levelIn topic (f.override name level).overrides
      = if name = topic then some level else levelIn topic f.overrides := by
  rw [override, levelIn]
  by_cases h : name = topic
  · rw [if_pos h, if_pos h]
  · rw [if_neg h, if_neg h, levelIn_filter_ne (Ne.symm h)]

theorem levelIn_apply (topic : Bytes) (f : Filter) (clause : Clause) :
    levelIn topic (f.apply clause).overrides
      = ((clause.levelFor? topic).map some).getD (levelIn topic f.overrides) := by
  cases clause with
  | all level => rfl
  | topic name level =>
      refine (levelIn_override f name topic level).trans ?_
      rw [Clause.levelFor?]
      split <;> rfl

theorem levelIn_foldl_apply (topic : Bytes) (cs : List Clause) (f : Filter) :
    levelIn topic (cs.foldl apply f).overrides
      = (cs.filterMap (Clause.levelFor? topic)).getLast?.or (levelIn topic f.overrides) := by
  rw [foldl_last (fun f : Filter => levelIn topic f.overrides) (levelIn_apply topic) cs f,
    ← List.map_filterMap, List.getLast?_map]
  cases (cs.filterMap (Clause.levelFor? topic)).getLast? <;> rfl

/-! ## The last clause to say something -/

/-- The clauses that the pieces of a specification hold. -/
def clausesOf (pieces : List Bytes) : List Clause :=
  (pieces.filter (· ≠ [])).map Clause.ofEntry

/-- What the last of the pieces that says something says. -/
def lastIn (pick : Clause → Option Level) (pieces : List Bytes) : Option Level :=
  ((clausesOf pieces).filterMap pick).getLast?

theorem default_parse (f : Filter) (spec : Bytes) :
    (f.parse spec).default
      = (lastIn Clause.default? (List.splitOn ','.toUInt8 spec)).getD f.default :=
  default_foldl_apply (clauses spec) _

theorem levelIn_parse (f : Filter) (spec topic : Bytes) :
    levelIn topic (f.parse spec).overrides
      = lastIn (Clause.levelFor? topic) (List.splitOn ','.toUInt8 spec) := by
  rw [parse, levelIn_foldl_apply, levelIn, Option.or_none]
  rfl

theorem threshold_parse (f : Filter) (spec topic : Bytes) :
    (f.parse spec).threshold topic
      = (lastIn (Clause.levelFor? topic) (List.splitOn ','.toUInt8 spec)).getD
          (f.parse spec).default := by
  rw [threshold, levelIn_parse]

theorem lastIn_splitOn {pick : Clause → Option Level} {say : Bytes → Option Level}
    {spec : Bytes} (h : ∀ entry ∈ entries spec, pick (Clause.ofEntry entry) = say entry) :
    lastIn pick (List.splitOn ','.toUInt8 spec) = ((entries spec).filterMap say).getLast? := by
  rw [lastIn, clausesOf, List.filterMap_map]
  exact congrArg _ (List.filterMap_congr h)

/-! ## Calls -/

/-- What can be done to a filter. -/
inductive Call where
  | setDefault (level : Level)
  | parse (spec : Bytes)

def perform (f : Filter) : Call → Filter
  | .setDefault level => f.setDefault level
  | .parse spec => f.parse spec

/-- The filter that the calls leave, in their order. -/
def ofCalls (calls : List Call) : Filter := calls.foldl perform initial

def Call.spec? : Call → Option Bytes
  | .setDefault _ => none
  | .parse spec => some spec

/-- The levels that a call gives to all topics that have none of their
own, in order. -/
def Call.defaults : Call → List Level
  | .setDefault level => [level]
  | .parse spec => (entries spec).filterMap (given? "*")

/-- The specification that was read last, empty if there was none. -/
def lastSpec (calls : List Call) : Bytes := (calls.filterMap Call.spec?).getLast?.getD []

/-- The level that the calls are meant to show a topic from: that of the
last entry of the last specification that names the topic, or else the
last one that was set for all others. -/
def meant (calls : List Call) (topic : Bytes) : Level :=
  ((entries (lastSpec calls)).filterMap (given? topic)).getLast?.getD
    ((calls.flatMap Call.defaults).getLast?.getD Level.info)

/-- The induction is on the calls, each of which begins with the default
that those before it have left. -/
theorem default_foldl_perform {calls : List Call}
    (h : ∀ spec, .parse spec ∈ calls → Bytes.ofString "*" ∉ entries spec) (f : Filter) :
    (calls.foldl perform f).default = (calls.flatMap Call.defaults).getLast?.getD f.default := by
  induction calls generalizing f with
  | nil => rfl
  | cons call rest ih =>
      have hcall : (f.perform call).default = call.defaults.getLast?.getD f.default := by
        cases call with
        | setDefault level => rfl
        | parse spec =>
            have hbare := h spec (List.mem_cons_self ..)
            have hlast : lastIn Clause.default? (List.splitOn ','.toUInt8 spec)
                = (Call.parse spec).defaults.getLast? :=
              lastIn_splitOn fun entry hentry => default?_ofEntry fun heq => hbare (heq ▸ hentry)
            exact (default_parse f spec).trans (congrArg (Option.getD · f.default) hlast)
      rw [List.foldl_cons, ih (fun spec hspec => h spec (List.mem_cons_of_mem _ hspec)), hcall,
        List.flatMap_cons, List.getLast?_append, Option.getD_or]

theorem levelIn_ofCalls {topic : Bytes} (h : topic ≠ "*") (calls : List Call) :
    levelIn topic (ofCalls calls).overrides
      = ((entries (lastSpec calls)).filterMap (given? topic)).getLast? := by
  have hcall : ∀ (f : Filter) (call : Call), levelIn topic (f.perform call).overrides
      = (call.spec?.map fun spec => ((entries spec).filterMap (given? topic)).getLast?).getD
        (levelIn topic f.overrides) := by
    intro f call
    cases call with
    | setDefault level => rfl
    | parse spec =>
        rw [Call.spec?, Option.map_some, Option.getD_some]
        exact (levelIn_parse f spec topic).trans
          (lastIn_splitOn fun entry _ => levelFor?_ofEntry h entry)
  rw [ofCalls, foldl_last (fun f : Filter => levelIn topic f.overrides) hcall calls initial,
    ← List.map_filterMap, List.getLast?_map, lastSpec]
  cases (calls.filterMap Call.spec?).getLast? <;> rfl

/-- A topic is shown from the level on that the calls are meant to give
it. -/
theorem admits_iff_meant_le (calls : List Call)
    (hcalls : ∀ spec, .parse spec ∈ calls → Bytes.ofString "*" ∉ entries spec) (topic : Bytes)
    (htopic : topic ≠ "*") (level : Level) :
    (ofCalls calls).admits level topic = true ↔ meant calls topic ≤ level := by
  have hdefault : (ofCalls calls).default
      = (calls.flatMap Call.defaults).getLast?.getD Level.info :=
    default_foldl_perform hcalls initial
  rw [admits_iff, threshold, levelIn_ofCalls htopic, hdefault, meant]

/-- `tools` is named twice, `build` only by a specification that was
read over, and `config` at a level that is none. -/
theorem admits_iff_meant_le_namedTwice :
    let calls : List Call :=
      [.parse "*=error,build=warn", .setDefault 3, .parse "tools,*=off,,tools=Debug,config=a=b,"]
    (∀ spec, .parse spec ∈ calls → Bytes.ofString "*" ∉ entries spec)
      ∧ meant calls "tools" = 1 ∧ meant calls "build" = 6 ∧ meant calls "config" = 2
      ∧ ((ofCalls calls).admits Level.trace "tools" = true
          ↔ meant calls "tools" ≤ Level.trace) := by
  intro calls
  have hcalls : ∀ spec, .parse spec ∈ calls → Bytes.ofString "*" ∉ entries spec := by
    intro spec hspec
    simp only [calls, List.mem_cons, Call.parse.injEq, reduceCtorEq, List.not_mem_nil,
      false_or, or_false] at hspec
    rcases hspec with rfl | rfl <;> decide
  exact ⟨hcalls, by decide, by decide, by decide,
    admits_iff_meant_le calls hcalls "tools" (by decide) Level.trace⟩

end Filter

end Prebuilt.Log
