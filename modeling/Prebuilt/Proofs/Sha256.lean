import Mathlib.Data.List.Basic
import Prebuilt.Proofs.Bytes
import Prebuilt.Sha256

/-!
# What is hashed

The standard describes a hash by the schedule of each block, a sequence of
words in which every word from the seventeenth on is computed from four
earlier ones, and by the blocks of the padded message (`IsDigest`). Here a
block goes through its rounds with a window of sixteen words, and a
message comes in pieces that need not be blocks.

The window is the part of the schedule that the round is at
(`compress_eq`), so `digest` is that hash (`isDigest_iff`). A hasher has
at every moment compressed the whole blocks of what it was given and keeps
the rest (`Absorbed`), so it finishes with the digest of all pieces
together (`finish_foldl_update`).
-/

namespace Prebuilt.Sha256

/-! ## The schedule -/

/-- The words of a block, continued. -/
def schedule (block : Bytes) (t : Nat) : UInt32 :=
  if t < 16 then (wordsOf block).getD t 0
  else scheduleLarge (schedule block (t - 2)) + schedule block (t - 7)
    + scheduleSmall (schedule block (t - 15)) + schedule block (t - 16)

/-- The sixteen words of the schedule from `t` on. -/
def windowAt (block : Bytes) (t : Nat) : List UInt32 :=
  (List.range 16).map fun i => schedule block (t + i)

theorem length_wordsOf (block : Bytes) : (wordsOf block).length = block.length / 4 := by
  fun_induction wordsOf block with
  | case1 a b c d rest ih =>
      simp only [List.length_cons, ih]
      omega
  | case2 block hshort =>
      have hlt : block.length < 4 := by
        match block with
        | [] | [_] | [_, _] | [_, _, _] => simp only [List.length_cons, List.length_nil]; omega
        | a :: b :: c :: d :: rest => exact absurd rfl (hshort a b c d rest)
      rw [Nat.div_eq_of_lt hlt]
      rfl

theorem wordsOf_eq_windowAt {block : Bytes} (h : block.length = blockSize) :
    wordsOf block = windowAt block 0 := by
  have hwords : (wordsOf block).length = 16 := by rw [length_wordsOf, h, blockSize]
  have hwindow : (windowAt block 0).length = 16 := by
    rw [windowAt, List.length_map, List.length_range]
  refine List.ext_getElem (hwords.trans hwindow.symm) fun i hi _ => ?_
  rw [hwords] at hi
  simp only [windowAt, List.getElem_map, List.getElem_range, Nat.zero_add]
  rw [schedule, if_pos hi, List.getD_eq_getElem?_getD, List.getElem?_eq_getElem, Option.getD_some]

theorem slide_windowAt (block : Bytes) (t : Nat) :
    slide (windowAt block t) = windowAt block (t + 1) := by
  have hnext : schedule block (t + 16)
      = scheduleLarge (schedule block (t + 14)) + schedule block (t + 9)
        + scheduleSmall (schedule block (t + 1)) + schedule block t := by
    rw [schedule, if_neg (by omega)]
    rfl
  have hshift : windowAt block (t + 1)
      = (windowAt block t).drop 1 ++ [schedule block (t + 16)] := by
    simp only [windowAt, List.range, List.range.loop, List.map_cons, List.map_nil,
      List.drop_succ_cons, List.drop_zero, List.cons_append, List.nil_append, Nat.add_assoc,
      Nat.reduceAdd]
  rw [hshift, hnext]
  rfl

/-- The rounds take the words of the schedule one after the other. -/
theorem rounds_windowAt (block : Bytes) (constants : List UInt32) (x : Chain) (t : Nat) :
    rounds x (windowAt block t) constants
      = (constants.zipIdx t).foldl (fun y c => round y c.1 (schedule block c.2)) x := by
  induction constants generalizing x t with
  | nil => rfl
  | cons constant more ih =>
      rw [rounds, slide_windowAt, ih, List.zipIdx_cons, List.foldl_cons]
      rfl

/-- A block put into the chain, each round with its constant and its word
of the schedule. -/
def compressBySchedule (x : Chain) (block : Bytes) : Chain :=
  x.add (roundConstants.zipIdx.foldl (fun y c => round y c.1 (schedule block c.2)) x)

theorem compress_eq (x : Chain) {block : Bytes} (h : block.length = blockSize) :
    compress x block = compressBySchedule x block := by
  rw [compress, wordsOf_eq_windowAt h, rounds_windowAt, compressBySchedule]

/-! ## The padded message -/

/-- The message with one bit, zeros and its length behind it, and no more
zeros than it takes to come to whole blocks. -/
def IsPadded (message padded : Bytes) : Prop :=
  ∃ zeros < blockSize,
    padded = message ++ 0x80 :: List.replicate zeros 0 ++ eightBytes (8 * message.length) ∧
      blockSize ∣ padded.length

/-- The hash of a message: its padded form in blocks, put into the chain
in order. -/
def IsDigest (message hash : Bytes) : Prop :=
  ∃ blocks : List Bytes, IsPadded message blocks.flatten ∧
    (∀ block ∈ blocks, block.length = blockSize) ∧
    hash = (blocks.foldl compressBySchedule .initial).bytes

variable {message padded hash : Bytes}

theorem isPadded_iff : IsPadded message padded ↔ padded = message ++ padding message.length := by
  have hlength : ∀ zeros, (message ++ 0x80 :: List.replicate zeros (0 : UInt8)
      ++ eightBytes (8 * message.length)).length = message.length + zeros + 9 := by
    intro zeros
    simp only [List.length_append, List.length_cons, List.length_replicate, eightBytes,
      List.length_map, List.length_nil]
    omega
  have hpadding : message ++ padding message.length
      = message ++ 0x80 :: List.replicate ((119 - message.length % blockSize) % blockSize) 0
        ++ eightBytes (8 * message.length) := (List.append_assoc ..).symm
  constructor
  · rintro ⟨zeros, hzeros, rfl, hwhole⟩
    rw [hlength] at hwhole
    have heq : zeros = (119 - message.length % blockSize) % blockSize := by
      rw [blockSize] at hzeros hwhole ⊢
      omega
    rw [hpadding, heq]
  · rintro rfl
    refine ⟨_, Nat.mod_lt _ (by decide), hpadding, ?_⟩
    rw [hpadding, hlength, blockSize]
    omega

theorem foldl_compress {blocks : List Bytes} (h : ∀ block ∈ blocks, block.length = blockSize)
    (x : Chain) : blocks.foldl compress x = blocks.foldl compressBySchedule x :=
  List.foldl_ext _ _ x fun y block hblock => compress_eq y (h block hblock)

theorem isDigest_iff : IsDigest message hash ↔ hash = digest message := by
  have hsize : 0 < blockSize := by decide
  constructor
  · rintro ⟨blocks, hpadded, hblocks, rfl⟩
    have hcut := Bytes.chunks_flatten_append hsize hblocks []
    rw [List.append_nil, Bytes.chunks_nil, List.append_nil, isPadded_iff.mp hpadded] at hcut
    rw [digest, hcut, foldl_compress hblocks]
  · rintro rfl
    have hpadded : IsPadded message (message ++ padding message.length) := isPadded_iff.mpr rfl
    have hwhole : blockSize ∣ (message ++ padding message.length).length := by
      obtain ⟨_, _, _, hwhole⟩ := hpadded
      exact hwhole
    have hblocks := Bytes.length_of_mem_chunks hsize hwhole
    refine ⟨_, ?_, hblocks, ?_⟩
    · rwa [Bytes.flatten_chunks]
    · rw [digest, foldl_compress hblocks]

example : digest "abc" =
    [0xba, 0x78, 0x16, 0xbf, 0x8f, 0x01, 0xcf, 0xea, 0x41, 0x41, 0x40, 0xde, 0x5d, 0xae, 0x22, 0x23,
     0xb0, 0x03, 0x61, 0xa3, 0x96, 0x17, 0x7a, 0x9c, 0xb4, 0x10, 0xff, 0x61, 0xf2, 0x00, 0x15, 0xad]
    := by decide +kernel

theorem length_bytes (x : Chain) : x.bytes.length = 32 := rfl

theorem length_digest (message : Bytes) : (digest message).length = 32 := length_bytes _

/-! ## Messages in pieces -/

open Hasher

/-- The hasher was given this message: the blocks that are complete are in
the chain, and the rest waits. -/
structure Absorbed (s : Hasher) (message : Bytes) : Prop where
  split : ∃ blocks : List Bytes, (∀ block ∈ blocks, block.length = blockSize) ∧
    message = blocks.flatten ++ s.pending ∧ s.chain = blocks.foldl compress .initial
  short : s.pending.length < blockSize
  counted : s.length = message.length

theorem absorbed_start : Absorbed .start [] :=
  ⟨⟨[], List.forall_mem_nil _, rfl, rfl⟩, by decide, rfl⟩

variable {s : Hasher}

theorem Absorbed.push (h : Absorbed s message) (b : UInt8) :
    Absorbed (s.push b) (message ++ [b]) := by
  obtain ⟨⟨blocks, hblocks, hmessage, hchain⟩, hshort, hcounted⟩ := h
  have hcounted' : s.length + 1 = (message ++ [b]).length := by
    rw [hcounted, List.length_append, List.length_singleton]
  unfold Hasher.push
  dsimp only
  by_cases hfull : (s.pending ++ [b]).length = blockSize
  · rw [if_pos hfull]
    have hempty : ([] : Bytes).length < blockSize := by decide
    refine ⟨⟨blocks ++ [s.pending ++ [b]], ?_, ?_, ?_⟩, hempty, hcounted'⟩
    · exact List.forall_mem_append.mpr ⟨hblocks, List.forall_mem_singleton.mpr hfull⟩
    · rw [hmessage, List.flatten_append, List.flatten_singleton, List.append_nil,
        List.append_assoc]
    · rw [List.foldl_append, ← hchain]
      rfl
  · rw [if_neg hfull]
    refine ⟨⟨blocks, hblocks, ?_, hchain⟩, ?_, hcounted'⟩
    · rw [hmessage, List.append_assoc]
    · rw [List.length_append, List.length_singleton] at hfull ⊢
      omega

theorem Absorbed.update (h : Absorbed s message) (piece : Bytes) :
    Absorbed (s.update piece) (message ++ piece) := by
  induction piece generalizing s message with
  | nil => rwa [List.append_nil]
  | cons b rest ih =>
      rw [← List.singleton_append, ← List.append_assoc]
      exact ih (h.push b)

theorem Absorbed.finish_eq (h : Absorbed s message) : s.finish = digest message := by
  obtain ⟨⟨blocks, hblocks, hmessage, hchain⟩, -, hcounted⟩ := h
  have hcut : Bytes.chunks blockSize (message ++ padding message.length)
      = blocks ++ Bytes.chunks blockSize (s.pending ++ padding message.length) := by
    rw [hmessage, List.append_assoc]
    exact Bytes.chunks_flatten_append (by decide) hblocks _
  rw [finish, digest, hcut, hchain, hcounted, List.foldl_append]

theorem finish_foldl_update (pieces : List Bytes) :
    (pieces.foldl update .start).finish = digest pieces.flatten := by
  rw [foldl_update]
  exact (absorbed_start.update pieces.flatten).finish_eq

end Prebuilt.Sha256
