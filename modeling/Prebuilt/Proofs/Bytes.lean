import Mathlib.Data.List.TakeWhile
import Prebuilt.Bytes

/-!
# Texts and their parts

Splitting, trimming and cutting are recursions on a text. The relations
here say what such a recursion is to find without going through the text:
it is its pieces with a separator between each two (`Separated`), it is
what is kept of it and blanks around that (`Strips`), or it is pieces of
one size and a last one that may be shorter (`Cut`). For the first two
there is exactly one answer, and it is the one that is found
(`separated_iff`, `strips_iff`).
-/

namespace Prebuilt.Bytes

/-! ## Between separators -/

/-- The text is these pieces, joined by separators that none of them
holds. -/
structure Separated (sep : UInt8) (pieces : List Bytes) (text : Bytes) : Prop where
  joined : List.intercalate [sep] pieces = text
  bare : ∀ piece ∈ pieces, sep ∉ piece
  nonempty : pieces ≠ []

theorem separated_iff {sep : UInt8} {pieces : List Bytes} {text : Bytes} :
    Separated sep pieces text ↔ pieces = List.splitOn sep text := by
  constructor
  · rintro ⟨rfl, hbare, hne⟩
    exact (List.splitOn_intercalate sep hbare hne).symm
  · rintro rfl
    exact ⟨List.intercalate_splitOn sep, fun _ hpiece => notMem_of_mem_splitOn hpiece,
      List.splitOn_ne_nil sep text⟩

/-! ## Without the blanks at both ends -/

/-- The text is what is kept of it with blanks before and behind, and
what is kept neither begins nor ends with a blank. -/
structure Strips (isBlank : UInt8 → Bool) (text kept : Bytes) : Prop where
  framed : ∃ front back, text = front ++ kept ++ back ∧
    (∀ c ∈ front, isBlank c = true) ∧ ∀ c ∈ back, isBlank c = true
  first : ∀ c ∈ kept.head?, isBlank c = false
  last : ∀ c ∈ kept.getLast?, isBlank c = false

variable {isBlank : UInt8 → Bool} {text kept : Bytes}

theorem dropWhile_of_head? (h : ∀ c ∈ text.head?, isBlank c = false) :
    text.dropWhile isBlank = text := by
  cases text with
  | nil => rfl
  | cons c rest => exact List.dropWhile_cons_of_neg (by rw [h c rfl]; exact Bool.false_ne_true)

theorem head?_dropWhile {c : UInt8} (h : c ∈ (text.dropWhile isBlank).head?) :
    isBlank c = false := by
  have hstop := List.head?_dropWhile_not isBlank text
  rwa [Option.mem_def.mp h] at hstop

theorem trim_of_strips (h : Strips isBlank text kept) : text.trim isBlank = kept := by
  obtain ⟨⟨front, back, rfl, hfront, hback⟩, hfirst, hlast⟩ := h
  have hback' : ∀ c ∈ back.reverse, isBlank c = true :=
    fun c hc => hback c (List.mem_reverse.mp hc)
  rw [trim, List.append_assoc, List.dropWhile_append_of_pos hfront]
  cases kept with
  | nil =>
      -- A text of blanks alone is gone before its end is looked at.
      rw [List.nil_append, List.dropWhile_eq_nil_iff.mpr hback]
      rfl
  | cons c rest =>
      have hbody : ∀ d ∈ (c :: rest ++ back).head?, isBlank d = false := hfirst
      have hlast' : ∀ d ∈ (c :: rest).reverse.head?, isBlank d = false := by
        rw [List.head?_reverse]
        exact hlast
      rw [dropWhile_of_head? hbody, List.reverse_append,
        List.dropWhile_append_of_pos hback', dropWhile_of_head? hlast', List.reverse_reverse]

theorem strips_trim (isBlank : UInt8 → Bool) (text : Bytes) :
    Strips isBlank text (text.trim isBlank) := by
  have hblanks : ∀ {b : Bytes}, ∀ c ∈ b.takeWhile isBlank, isBlank c = true :=
    fun c hc => List.all_eq_true.mp List.all_takeWhile c hc
  have hbody : text.dropWhile isBlank = text.trim isBlank
      ++ ((text.dropWhile isBlank).reverse.takeWhile isBlank).reverse := by
    rw [trim, ← List.reverse_append, List.takeWhile_append_dropWhile, List.reverse_reverse]
  refine ⟨⟨text.takeWhile isBlank, ((text.dropWhile isBlank).reverse.takeWhile isBlank).reverse,
    ?_, hblanks, fun c hc => hblanks c (List.mem_reverse.mp hc)⟩, fun c hc => ?_, fun c hc => ?_⟩
  · rw [List.append_assoc, ← hbody, List.takeWhile_append_dropWhile]
  · -- What is kept begins where the blanks in front end.
    have hbegin : c ∈ (text.dropWhile isBlank).head? := by
      rw [hbody, List.head?_append, Option.mem_def.mp hc]
      rfl
    exact head?_dropWhile hbegin
  · rw [trim, List.getLast?_reverse] at hc
    exact head?_dropWhile hc

theorem strips_iff : Strips isBlank text kept ↔ kept = text.trim isBlank := by
  constructor
  · exact fun h => (trim_of_strips h).symm
  · rintro rfl
    exact strips_trim isBlank text

/-- Only the bytes of the text need to be told apart alike. -/
theorem Strips.congr {isBlank' : UInt8 → Bool} (h : Strips isBlank text kept)
    (hsame : ∀ c ∈ text, isBlank' c = isBlank c) : Strips isBlank' text kept := by
  obtain ⟨⟨front, back, rfl, hfront, hback⟩, hfirst, hlast⟩ := h
  have hkept : ∀ c ∈ kept, isBlank' c = isBlank c :=
    fun c hc => hsame c (List.mem_append_left _ (List.mem_append_right _ hc))
  refine ⟨⟨front, back, rfl, fun c hc => ?_, fun c hc => ?_⟩, fun c hc => ?_, fun c hc => ?_⟩
  · rw [hsame c (List.mem_append_left _ (List.mem_append_left _ hc)), hfront c hc]
  · rw [hsame c (List.mem_append_right _ hc), hback c hc]
  · rw [hkept c (List.mem_of_mem_head? hc), hfirst c hc]
  · rw [hkept c (List.mem_of_getLast? hc), hlast c hc]

/-! ## Into pieces of one size -/

/-- The content is these pieces one after the other. None is empty or
longer than the size, and only the last one may be shorter. -/
structure Cut (size : Nat) (pieces : List Bytes) (content : Bytes) : Prop where
  joined : pieces.flatten = content
  sized : ∀ piece ∈ pieces, piece ≠ [] ∧ piece.length ≤ size
  full : ∀ piece ∈ pieces.dropLast, piece.length = size

variable {size : Nat} {content : Bytes}

theorem chunks_nil (size : Nat) : chunks size [] = [] := by
  rw [chunks]

theorem chunks_of_ne_nil (hsize : 0 < size) (hne : content ≠ []) :
    chunks size content = content.take size :: chunks size (content.drop size) := by
  obtain ⟨c, rest, rfl⟩ := List.exists_cons_of_ne_nil hne
  obtain ⟨n, rfl⟩ := Nat.exists_eq_add_one.mpr hsize
  rw [chunks, List.take_succ_cons, List.drop_succ_cons, Nat.add_sub_cancel]

theorem chunks_append {piece : Bytes} (hsize : 0 < size) (hpiece : piece.length = size)
    (rest : Bytes) : chunks size (piece ++ rest) = piece :: chunks size rest := by
  have hne : piece ++ rest ≠ [] := by
    intro h
    rw [(List.append_eq_nil_iff.mp h).1] at hpiece
    exact absurd hpiece (Nat.ne_of_lt hsize)
  rw [chunks_of_ne_nil hsize hne, List.take_left' hpiece, List.drop_left' hpiece]

theorem chunks_flatten_append {pieces : List Bytes} (hsize : 0 < size)
    (h : ∀ piece ∈ pieces, piece.length = size) (rest : Bytes) :
    chunks size (pieces.flatten ++ rest) = pieces ++ chunks size rest := by
  induction pieces with
  | nil => rfl
  | cons piece more ih =>
      obtain ⟨hpiece, hmore⟩ := List.forall_mem_cons.mp h
      rw [List.flatten_cons, List.append_assoc, chunks_append hsize hpiece, ih hmore,
        List.cons_append]

theorem cut_chunks (hsize : 0 < size) (content : Bytes) :
    Cut size (chunks size content) content := by
  refine ⟨flatten_chunks size content, ?_, ?_⟩
  · fun_induction chunks size content with
    | case1 => exact List.forall_mem_nil _
    | case2 c rest ih =>
        refine List.forall_mem_cons.mpr ⟨⟨List.cons_ne_nil _ _, ?_⟩, ih⟩
        rw [List.length_cons, List.length_take]
        omega
  · fun_induction chunks size content with
    | case1 => exact List.forall_mem_nil _
    | case2 c rest ih =>
        by_cases hrest : rest.drop (size - 1) = []
        · rw [hrest, chunks_nil]
          exact List.forall_mem_nil _
        · -- Another piece follows, so there were enough bytes for this one.
          have hlong := List.length_pos_iff.mpr hrest
          rw [List.length_drop] at hlong
          rw [chunks_of_ne_nil hsize hrest] at ih ⊢
          refine List.forall_mem_cons.mpr ⟨?_, ih⟩
          rw [List.length_cons, List.length_take]
          omega

/-- A content that comes to whole pieces has no shorter one. -/
theorem length_of_mem_chunks (hsize : 0 < size) (hwhole : size ∣ content.length) :
    ∀ piece ∈ chunks size content, piece.length = size := by
  fun_induction chunks size content with
  | case1 => exact List.forall_mem_nil _
  | case2 c rest ih =>
      rw [List.length_cons] at hwhole
      have hlong := Nat.le_of_dvd (Nat.succ_pos _) hwhole
      refine List.forall_mem_cons.mpr ⟨?_, ih ?_⟩
      · rw [List.length_cons, List.length_take]
        omega
      · have hrest : (rest.drop (size - 1)).length = rest.length + 1 - size := by
          rw [List.length_drop]
          omega
        rw [hrest]
        exact Nat.dvd_sub hwhole (Nat.dvd_refl size)

end Prebuilt.Bytes
