import Prebuilt.Command.Words

/-!
# Splitting a command line

A command line is put together from texts with a blank between each two.
If every text ends outside of quotes, the shell's words are those of the
texts, one text after the other (`words?_unwords`). What stands unquoted
on the line is, by the same cut, what stands unquoted in the texts and
the blanks between them (`inert_unwords`).

Two kinds of text come from outside. Quoted ones and tool names are one
word each, with exactly the bytes that were quoted, and no byte in them
is left to the shell.
-/

namespace Prebuilt.Command

/-! ## Between the bytes of a text -/

/-- What the byte behind a text is to a shell. -/
def Mode.after (mode : Mode) (text : Bytes) : Mode := text.foldl Mode.next mode

theorem Mode.after_append (mode : Mode) (a b : Bytes) :
    mode.after (a ++ b) = (mode.after a).after b := List.foldl_append ..

/-- The byte before this one is a backslash that keeps it. -/
def Mode.keeps : Mode → Bool
  | .escaped => true
  | .doubleEscaped => true
  | _ => false

/-- The bytes that a backslash keeps. -/
def escapedBytes (mode : Mode) : Bytes → Bytes
  | [] => []
  | c :: rest =>
      if mode.keeps then c :: escapedBytes (mode.next c) rest
      else escapedBytes (mode.next c) rest

theorem bareBytes_append (mode : Mode) (a b : Bytes) :
    bareBytes mode (a ++ b) = bareBytes mode a ++ bareBytes (mode.after a) b := by
  induction a generalizing mode with
  | nil => rfl
  | cons c a ih =>
      rw [List.cons_append, bareBytes, bareBytes, ih]
      by_cases hshows : mode.shows c = true
      · rw [if_pos hshows, if_pos hshows]
        rfl
      · rw [if_neg hshows, if_neg hshows]
        rfl

theorem escapedBytes_append (mode : Mode) (a b : Bytes) :
    escapedBytes mode (a ++ b) = escapedBytes mode a ++ escapedBytes (mode.after a) b := by
  induction a generalizing mode with
  | nil => rfl
  | cons c a ih =>
      rw [List.cons_append, escapedBytes, escapedBytes, ih]
      by_cases hkeeps : mode.keeps = true
      · rw [if_pos hkeeps, if_pos hkeeps]
        rfl
      · rw [if_neg hkeeps, if_neg hkeeps]
        rfl

/-! ## Words of joined texts -/

/-- A text has words if it ends outside of quotes. -/
theorem isSome_wordsFrom (current : Option Bytes) (mode : Mode) (text : Bytes) :
    (wordsFrom current mode text).isSome = true ↔ mode.after text = .bare := by
  induction text generalizing current mode with
  | nil =>
      show (if mode = .bare then some current.toList else none).isSome = true ↔ mode = .bare
      split <;> simp [*]
  | cons c text ih =>
      show _ ↔ (mode.next c).after text = .bare
      rw [wordsFrom]
      cases mode.effect c with
      | nothing => exact ih current _
      | adds bytes => exact ih _ _
      | ends => rw [Option.isSome_map, ih]

/-- A blank ends the words before it. -/
theorem wordsFrom_append_blank {current : Option Bytes} {mode : Mode} {text : Bytes}
    {words : List Bytes} (h : wordsFrom current mode text = some words) (rest : Bytes) :
    wordsFrom current mode (text ++ ' '.toUInt8 :: rest) = (words? rest).map (words ++ ·) := by
  -- Up to the blank both texts are the same, so they are split side by
  -- side; at its end `h` says that the text is outside of quotes.
  induction text generalizing current mode words with
  | nil =>
      rw [wordsFrom] at h
      split at h
      · rename_i hbare
        obtain rfl : current.toList = words := Option.some.inj h
        rw [hbare]
        rfl
      · cases h
  | cons c text ih =>
      rw [List.cons_append]
      rw [wordsFrom] at h ⊢
      cases heffect : mode.effect c with
      | nothing =>
          rw [heffect] at h
          exact ih h
      | adds bytes =>
          rw [heffect] at h
          exact ih h
      | ends =>
          rw [heffect] at h
          obtain ⟨more, hmore, rfl⟩ := Option.map_eq_some_iff.mp h
          dsimp only
          rw [ih hmore, Option.map_map]
          simp only [Function.comp_def, List.append_assoc]

/-- The words of a text that ends outside of quotes. -/
def wordsOf (text : Bytes) : List Bytes := (words? text).getD []

theorem words?_eq_wordsOf {text : Bytes} (h : Mode.after .bare text = .bare) :
    words? text = some (wordsOf text) := by
  obtain ⟨words, hwords⟩ := Option.isSome_iff_exists.mp ((isSome_wordsFrom none .bare text).mpr h)
  rw [wordsOf, words?, hwords, Option.getD_some]

theorem unwords_singleton (text : Bytes) : unwords [text] = text := List.intercalate_singleton

theorem unwords_append {a b : List Bytes} (ha : a ≠ []) (hb : b ≠ []) :
    unwords (a ++ b) = unwords a ++ ' '.toUInt8 :: unwords b := by
  obtain ⟨next, b, rfl⟩ := List.exists_cons_of_ne_nil hb
  have hcons : ∀ (text next : Bytes) (texts : List Bytes),
      unwords (text :: next :: texts) = text ++ ' '.toUInt8 :: unwords (next :: texts) := by
    intro text next texts
    rw [unwords, List.intercalate_cons_cons, List.append_assoc]
    rfl
  induction a with
  | nil => exact absurd rfl ha
  | cons text a ih =>
      cases a with
      | nil => rw [List.singleton_append, hcons, unwords_singleton]
      | cons text' a =>
          rw [List.cons_append, List.cons_append, hcons, hcons, ← List.cons_append,
            ih (List.cons_ne_nil _ _), List.append_assoc]
          rfl

/-- Texts that together end outside of quotes do not touch the words of
what is behind them. -/
theorem words?_unwords_append {a b : List Bytes} (ha : Mode.after .bare (unwords a) = .bare)
    (hb : b ≠ []) :
    words? (unwords (a ++ b)) = (words? (unwords b)).map (wordsOf (unwords a) ++ ·) := by
  -- Without texts in front there is no blank either.
  by_cases hnil : a = []
  · rw [hnil]
    exact Option.map_id'.symm
  · rw [unwords_append hnil hb]
    exact wordsFrom_append_blank (words?_eq_wordsOf ha) _

theorem words?_unwords {texts : List Bytes} (h : ∀ text ∈ texts, Mode.after .bare text = .bare) :
    words? (unwords texts) = some (texts.flatMap wordsOf) := by
  induction texts with
  | nil => rfl
  | cons text texts ih =>
      obtain ⟨htext, hrest⟩ := List.forall_mem_cons.mp h
      rw [List.flatMap_cons]
      by_cases hnil : texts = []
      · rw [hnil, unwords_singleton, words?_eq_wordsOf htext, List.flatMap_nil, List.append_nil]
      · rw [← unwords_singleton text] at htext
        rw [← List.singleton_append, words?_unwords_append htext hnil, ih hrest,
          unwords_singleton, Option.map_some]

theorem wordsOf_unwords {texts : List Bytes}
    (h : ∀ text ∈ texts, Mode.after .bare text = .bare) :
    wordsOf (unwords texts) = texts.flatMap wordsOf := by
  rw [wordsOf, words?_unwords h, Option.getD_some]

/-! ## Nothing is left to the shell -/

/-- A command line reaches the shell as a text that ends at its first
NUL. -/
def NulFree (b : Bytes) : Prop := (0 : UInt8) ∉ b

instance (b : Bytes) : Decidable (NulFree b) := inferInstanceAs (Decidable (_ ∉ b))

/-- A byte that means more than itself to a shell where it stands
unquoted. An equals sign does so only in a word before the command,
which is for `isAssignment` to tell. -/
def isMetacharacter (c : UInt8) : Bool := isMeta c && c ≠ '='

theorem not_isMetacharacter_of_isHarmless {c : UInt8} (h : isHarmless c = true) :
    isMetacharacter c = false := by
  have hmeta : (Bytes.ofString "|&;<>()$`\\\"' \t\n*?[]#~=%\x7b\x7d!").all
      (fun d => !isHarmless d || d = '=') = true := by decide
  rw [isMetacharacter, Bool.and_eq_false_imp]
  intro hc
  have hone := List.all_eq_true.mp hmeta c (List.contains_iff_mem.mp hc)
  rw [h, Bool.not_true, Bool.false_or, decide_eq_true_eq] at hone
  exact decide_eq_false (not_not_intro hone)

/-- A text that a shell takes as it stands: all of it arrives, it ends
outside of quotes, the metacharacters left bare are of a harmless kind,
and so are the bytes that a backslash keeps. -/
structure Inert (blank kept : UInt8 → Prop) (text : Bytes) : Prop where
  whole : NulFree text
  closed : Mode.after .bare text = .bare
  bare : ∀ c ∈ bareBytes .bare text, isMetacharacter c = true → blank c
  escaped : ∀ c ∈ escapedBytes .bare text, kept c

variable {blank kept : UInt8 → Prop}

theorem inert_iff_all [DecidablePred blank] [DecidablePred kept] {text : Bytes} :
    Inert blank kept text ↔ NulFree text ∧ Mode.after .bare text = .bare ∧
      ((bareBytes .bare text).all fun c => !isMetacharacter c || blank c) = true ∧
      ((escapedBytes .bare text).all fun c => kept c) = true := by
  simp only [List.all_eq_true, Bool.or_eq_true, Bool.not_eq_true', decide_eq_true_eq,
    ← Bool.not_eq_true, ← Decidable.imp_iff_not_or]
  constructor
  · intro h
    exact ⟨h.whole, h.closed, h.bare, h.escaped⟩
  · intro h
    exact ⟨h.1, h.2.1, h.2.2.1, h.2.2.2⟩

instance [DecidablePred blank] [DecidablePred kept] (text : Bytes) :
    Decidable (Inert blank kept text) := decidable_of_iff' _ inert_iff_all

theorem inert_nil : Inert blank kept [] := ⟨List.not_mem_nil, rfl, nofun, nofun⟩

theorem inert_append {a b : Bytes} (ha : Inert blank kept a) (hb : Inert blank kept b) :
    Inert blank kept (a ++ b) where
  whole := fun h => (List.mem_append.mp h).elim ha.whole hb.whole
  closed := by rw [Mode.after_append, ha.closed, hb.closed]
  bare := by
    rw [bareBytes_append, ha.closed]
    exact fun c hc => (List.mem_append.mp hc).elim (ha.bare c) (hb.bare c)
  escaped := by
    rw [escapedBytes_append, ha.closed]
    exact fun c hc => (List.mem_append.mp hc).elim (ha.escaped c) (hb.escaped c)

theorem inert_blank (hblank : blank ' ') : Inert blank kept [' '.toUInt8] :=
  ⟨by decide, rfl, fun _ hc _ => List.mem_singleton.mp hc ▸ hblank, nofun⟩

theorem inert_unwords_append (hblank : blank ' ') {a b : List Bytes}
    (ha : Inert blank kept (unwords a)) (hb : Inert blank kept (unwords b)) :
    Inert blank kept (unwords (a ++ b)) := by
  by_cases hanil : a = []
  · rw [hanil]
    exact hb
  by_cases hbnil : b = []
  · rw [hbnil, List.append_nil]
    exact ha
  · rw [unwords_append hanil hbnil]
    exact inert_append ha (inert_append (inert_blank hblank) hb)

theorem inert_unwords (hblank : blank ' ') {texts : List Bytes}
    (h : ∀ text ∈ texts, Inert blank kept text) : Inert blank kept (unwords texts) := by
  induction texts with
  | nil => exact inert_nil
  | cons text texts ih =>
      obtain ⟨htext, hrest⟩ := List.forall_mem_cons.mp h
      rw [← unwords_singleton text] at htext
      exact inert_unwords_append hblank htext (ih hrest)

/-- Harmless bytes stand for themselves. -/
theorem inert_harmless {text : Bytes} (h : ∀ c ∈ text, isHarmless c = true) :
    Inert blank kept text := by
  induction text with
  | nil => exact inert_nil
  | cons c text ih =>
      have hc := h c (List.mem_cons_self ..)
      have hone : Inert blank kept [c] := by
        refine ⟨?_, next_of_isHarmless hc, ?_, nofun⟩
        · intro hzero
          rw [← List.mem_singleton.mp hzero] at hc
          exact absurd hc (by decide)
        · intro d hd hmeta
          have hshown : d ∈ [c] := by
            rw [bareBytes] at hd
            split at hd
            · exact hd
            · cases hd
          rw [List.mem_singleton.mp hshown, not_isMetacharacter_of_isHarmless hc] at hmeta
          cases hmeta
      exact inert_append hone (ih fun d hd => h d (List.mem_cons_of_mem _ hd))

/-- Within the quotes a single quote is the only byte that ever shows,
and then behind a backslash. -/
theorem single_flatMap_quoteByte (word : Bytes) :
    Mode.after .single (word.flatMap quoteByte) = .single ∧
      bareBytes .single (word.flatMap quoteByte) = [] ∧
      ∀ c ∈ escapedBytes .single (word.flatMap quoteByte), c = '\'' := by
  induction word with
  | nil => exact ⟨rfl, rfl, nofun⟩
  | cons c word ih =>
      have hone : Mode.after .single (quoteByte c) = .single ∧
          bareBytes .single (quoteByte c) = [] ∧
          ∀ d ∈ escapedBytes .single (quoteByte c), d = '\'' := by
        unfold quoteByte
        by_cases hc : c = '\''
        · rw [if_pos hc]
          exact ⟨rfl, rfl, fun d hd => List.mem_singleton.mp hd⟩
        · rw [if_neg hc]
          exact ⟨if_neg hc, rfl, nofun⟩
      rw [List.flatMap_cons, Mode.after_append, bareBytes_append, escapedBytes_append, hone.1,
        hone.2.1, List.nil_append]
      refine ⟨ih.1, ih.2.1, fun d hd => ?_⟩
      exact (List.mem_append.mp hd).elim (hone.2.2 d) (ih.2.2 d)

theorem nulFree_quote {word : Bytes} (h : NulFree word) : NulFree (quote word) := by
  have hinner : NulFree (word.flatMap quoteByte) := by
    intro hmem
    obtain ⟨c, hc, hzero⟩ := List.mem_flatMap.mp hmem
    unfold quoteByte at hzero
    split at hzero
    · exact absurd hzero (by decide)
    · exact h (List.mem_singleton.mp hzero ▸ hc)
  intro hmem
  rcases List.mem_append.mp hmem with hmem | hmem
  · exact (List.mem_append.mp hmem).elim (by decide) hinner
  · exact absurd hmem (by decide)

theorem quote_eq_cons (word : Bytes) :
    quote word = '\''.toUInt8 :: (word.flatMap quoteByte ++ ['\''.toUInt8]) := by
  rw [quote, List.append_assoc]
  rfl

/-- Seen from outside, a quoted text is nothing but escaped quotes. -/
theorem outside_quote (word : Bytes) :
    Mode.after .bare (quote word) = .bare ∧ bareBytes .bare (quote word) = [] ∧
      ∀ c ∈ escapedBytes .bare (quote word), c = '\'' := by
  obtain ⟨hafter, hbare, hescaped⟩ := single_flatMap_quoteByte word
  rw [quote_eq_cons]
  refine ⟨?_, ?_, ?_⟩
  · show Mode.after .single (word.flatMap quoteByte ++ ['\''.toUInt8]) = .bare
    rw [Mode.after_append, hafter]
    rfl
  · show bareBytes .single (word.flatMap quoteByte ++ ['\''.toUInt8]) = []
    rw [bareBytes_append, hafter, hbare]
    rfl
  · show ∀ c ∈ escapedBytes .single (word.flatMap quoteByte ++ ['\''.toUInt8]), c = '\''
    rw [escapedBytes_append, hafter]
    exact List.forall_mem_append.mpr ⟨hescaped, nofun⟩

theorem inert_quote (hquote : kept '\'') {word : Bytes} (h : NulFree word) :
    Inert blank kept (quote word) := by
  obtain ⟨hafter, hbare, hescaped⟩ := outside_quote word
  refine ⟨nulFree_quote h, hafter, ?_, fun c hc => hescaped c hc ▸ hquote⟩
  rw [hbare]
  exact List.forall_mem_nil _

theorem inert_quoteName (hquote : kept '\'') {name : Bytes} (h : NulFree name) :
    Inert blank kept (quoteName name) := by
  unfold quoteName
  split
  · rename_i hname
    exact inert_harmless (List.all_eq_true.mp hname.2)
  · exact inert_quote hquote h

/-! ## One word each -/

theorem wordsOf_quote (word : Bytes) : wordsOf (quote word) = [word] := by
  have hread := wordsFrom_quote none word []
  rw [List.append_nil] at hread
  rw [wordsOf, words?, hread]
  rfl

theorem wordsOf_quoteName (name : Bytes) : wordsOf (quoteName name) = [name] := by
  have hread := wordsFrom_quoteName name []
  rw [List.append_nil] at hread
  rw [wordsOf, words?, hread]
  rfl

/-- A harmless text is the word itself. -/
theorem wordsOf_harmless {text : Bytes} (hne : text ≠ []) (h : ∀ c ∈ text, isHarmless c = true) :
    wordsOf text = [text] := by
  have hname : quoteName text = text := if_pos ⟨hne, List.all_eq_true.mpr h⟩
  rw [← hname, wordsOf_quoteName, hname]

theorem wordsOf_quotePath (p : Path) : wordsOf (quotePath p) = [p.withForwardSlashes] :=
  wordsOf_quote _

end Prebuilt.Command
