import Prebuilt.Log.Level

/-!
# Log filters

A filter gives each topic a least level: its own if it was named, the
default otherwise. A *specification* is a list of entries separated by
commas, `topic=level`, `*=level` for the default, and a bare `topic`
for everything about it. Reading one forgets the topics named before
but keeps a default that it does not set.
-/

namespace Prebuilt.Log

structure Filter where
  default : Level
  /-- The named topics, each at most once, with their least levels. -/
  overrides : List (Bytes × Level)
deriving Repr, DecidableEq

namespace Filter

def initial : Filter := ⟨Level.info, []⟩

/-! ## Entries of a specification -/

inductive Clause where
  | all (level : Level)
  | topic (name : Bytes) (level : Level)
deriving Repr, DecidableEq

/-- What one entry says. Its first equals sign ends the topic. Only an
entry with one can set the default: a bare `*` names a topic. -/
def Clause.ofEntry (entry : Bytes) : Clause :=
  match entry.cut? '=' with
  | none => .topic entry Level.trace
  | some (name, level) =>
      if name = "*" then .all (Level.ofName level) else .topic name (Level.ofName level)

/-- The clauses of a specification, empty entries left out. -/
def clauses (spec : Bytes) : List Clause :=
  ((List.splitOn ','.toUInt8 spec).filter (· ≠ [])).map Clause.ofEntry

/-! ## Reading a specification -/

def override (f : Filter) (name : Bytes) (level : Level) : Filter :=
  { f with overrides := (name, level) :: f.overrides.filter fun o => o.1 ≠ name }

def setDefault (f : Filter) (level : Level) : Filter := { f with default := level }

def apply (f : Filter) : Clause → Filter
  | .all level => f.setDefault level
  | .topic name level => f.override name level

/-- The filter after a specification was read. -/
def parse (f : Filter) (spec : Bytes) : Filter :=
  (clauses spec).foldl apply { f with overrides := [] }

/-! ## Asking -/

def levelIn (name : Bytes) : List (Bytes × Level) → Option Level
  | [] => none
  | (k, l) :: rest => if k = name then some l else levelIn name rest

/-- The least level a topic is shown at. -/
def threshold (f : Filter) (topic : Bytes) : Level :=
  (levelIn topic f.overrides).getD f.default

def admits (f : Filter) (level : Level) (topic : Bytes) : Bool := f.threshold topic ≤ level

/-- The least level that some topic is shown at. -/
def minLevel (f : Filter) : Level :=
  f.overrides.foldl (fun least o => if o.2 < least then o.2 else least) f.default

theorem levelIn_filter_ne {name other : Bytes} (h : name ≠ other)
    (overrides : List (Bytes × Level)) :
    levelIn name (overrides.filter fun o => o.1 ≠ other) = levelIn name overrides := by
  induction overrides with
  | nil => rfl
  | cons o rest ih =>
      obtain ⟨k, l⟩ := o
      by_cases hk : k = other
      · subst hk
        simpa [levelIn, Ne.symm h] using ih
      · simp only [ne_eq, hk, not_false_eq_true, decide_true, List.filter_cons_of_pos,
          levelIn] at ih ⊢
        rw [ih]

end Filter

end Prebuilt.Log
