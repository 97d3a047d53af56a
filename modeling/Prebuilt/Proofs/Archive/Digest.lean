import Prebuilt.Archive
import Prebuilt.Proofs.Sha256

/-!
# The digest of a file

A file is read by asking for one piece after the other. A read that meets
the end of the file delivers what there is and falls short, and after that
nothing more is delivered. So a loop that goes on while reads are complete
or deliver something takes a short last piece along, and it takes nothing
twice where the file ends with a whole piece: what it gives to a digest are
the pieces of the content (`feed_eq`).

Which digest it is makes no difference to that. With one that computes
SHA-256 of what it is given (`Digester.ComputesSha256`), the hash of a file
is the one of its whole content, written in hexadecimal (`HexText`,
`fileHash_covers_content`).
-/

namespace Prebuilt

namespace Bytes

/-! ## Hexadecimal text -/

/-- The value of a lower-case hexadecimal digit. -/
def lowerHexValue? (c : UInt8) : Option Nat :=
  if Byte.isDigit c then some (c.toNat - 48)
  else if 'a' ≤ c && c ≤ 'f' then some (c.toNat - 87)
  else none

/-- Two lower-case digits for each byte, the one of the sixteens first. -/
inductive HexText : Bytes → Bytes → Prop where
  | nil : HexText [] []
  | cons {high low b : UInt8} {digits bytes : Bytes} {x y : Nat}
      (hhigh : lowerHexValue? high = some x) (hlow : lowerHexValue? low = some y)
      (hvalue : b.toNat = 16 * x + y) (more : HexText digits bytes) :
      HexText (high :: low :: digits) (b :: bytes)

theorem lowerHexValue?_hexDigit {d : UInt8} (h : d.toNat < 16) :
    lowerHexValue? (hexDigit d) = some d.toNat := by
  have hall : ∀ n < 16, lowerHexValue? (hexDigit (UInt8.ofNat n)) = some n := by decide
  rw [← hall d.toNat h, UInt8.ofNat_toNat]

theorem hexText_flatMap (bytes : Bytes) : HexText (bytes.flatMap hexPair) bytes := by
  induction bytes with
  | nil => exact .nil
  | cons b bytes ih =>
      have hb := b.toNat_lt
      have hhigh : (b / 16).toNat = b.toNat / 16 := UInt8.toNat_div ..
      have hlow : (b % 16).toNat = b.toNat % 16 := UInt8.toNat_mod ..
      exact .cons (lowerHexValue?_hexDigit (by omega)) (lowerHexValue?_hexDigit (by omega))
        (by omega) ih

theorem HexText.length_eq {digits bytes : Bytes} (h : HexText digits bytes) :
    digits.length = 2 * bytes.length := by
  induction h with
  | nil => rfl
  | cons hhigh hlow hvalue more ih =>
      simp only [List.length_cons, ih]
      omega

end Bytes

namespace Archive

open Bytes (Cut HexText)
open Sha256 (IsDigest)

/-! ## Reading a file in pieces -/

namespace Input

variable {size : Nat}

/-- What is still going to be delivered. -/
def due (size : Nat) (i : Input) : List Bytes :=
  if i.short then [] else i.ahead.chunks size

/-- With bytes ahead, the next of the pieces is what a read delivers. -/
theorem due_of_ne_nil {ahead : Bytes} (hsize : 0 < size) (hne : ahead ≠ []) :
    (⟨ahead, false⟩ : Input).due size
      = ahead.take size :: due size ⟨ahead.drop size, decide (ahead.length < size)⟩ := by
  rw [due, if_neg Bool.false_ne_true, Bytes.chunks_of_ne_nil hsize hne]
  by_cases hlt : ahead.length < size
  · -- A short piece was the last one.
    rw [due, decide_eq_true hlt, if_pos rfl, List.drop_of_length_le (Nat.le_of_lt hlt),
      Bytes.chunks_nil]
  · rw [due, decide_eq_false hlt, if_neg Bool.false_ne_true]

/-- A read falls short with nothing when nothing more is due, and otherwise
it delivers the first piece of what is due. -/
theorem read_cases (hsize : 0 < size) (i : Input) :
    (i.read size).1 = [] ∧ (i.read size).2.short = true ∧ i.due size = [] ∨
      (i.read size).1 ≠ [] ∧ i.due size = (i.read size).1 :: (i.read size).2.due size := by
  obtain ⟨ahead, short⟩ := i
  cases short with
  | true => exact Or.inl ⟨rfl, rfl, rfl⟩
  | false =>
      by_cases hne : ahead = []
      · subst hne
        refine Or.inl ⟨List.take_nil, decide_eq_true hsize, ?_⟩
        rw [due, if_neg Bool.false_ne_true, Bytes.chunks_nil]
      · refine Or.inr ⟨fun hnil => ?_, due_of_ne_nil hsize hne⟩
        exact (List.take_eq_nil_iff.mp hnil).elim (Nat.ne_of_gt hsize) hne

end Input

/-- The loop gives a digest what is due, each piece once and in order. -/
theorem feed_eq (d : Digester) (i : Input) (s : d.State) :
    feed d i s = (i.due pieceSize).foldlM d.update s := by
  rw [feed]
  rcases i.read_cases (by decide : 0 < pieceSize) with ⟨hnone, hshort, hdue⟩ | ⟨hne, hdue⟩
  · have hstop : ¬ ((i.read pieceSize).2.short = false ∨ (i.read pieceSize).1 ≠ []) := by
      rw [hnone, hshort]
      decide
    rw [if_neg hstop, hdue]
    rfl
  · rw [if_pos (Or.inr hne), hdue, List.foldlM_cons]
    cases d.update s (i.read pieceSize).1 with
    | none => rfl
    | some s' => exact feed_eq d (i.read pieceSize).2 s'
termination_by i.ahead.length
decreasing_by exact Input.length_ahead_read (by decide) (Or.inr hne)

/-! ## Digests -/

/-- What a digest makes of these pieces, if none of its calls fails. -/
def Digester.run (d : Digester) (pieces : List Bytes) : Option Bytes := do
  let s ← d.start
  let s ← pieces.foldlM d.update s
  d.finish s

/-- No call fails, and the hash is the SHA-256 of all the pieces together. -/
def Digester.ComputesSha256 (d : Digester) : Prop :=
  ∀ pieces, ∃ hash, d.run pieces = some hash ∧ IsDigest pieces.flatten hash

variable {d : Digester} {files : FileTree} {path : Path} {content : Bytes}

/-- The hash of a file is what the digest makes of its pieces, and empty
if it makes nothing of them. -/
theorem hashFile_eq (d : Digester) (hread : files.read? path = some content) :
    hashFile d files path
      = (((d.run (content.chunks pieceSize)).map hashText).getD [],
        if d.start.isNone then [.log Log.Level.error "build" "SHA-256 initialization failed"]
        else []) := by
  have hdue : (Input.opened content).due pieceSize = content.chunks pieceSize :=
    if_neg Bool.false_ne_true
  rw [hashFile, hread, Digester.run]
  dsimp only
  cases d.start with
  | none => rfl
  | some s =>
      dsimp only
      rw [feed_eq, hdue]
      show _ = (((((content.chunks pieceSize).foldlM d.update s).bind d.finish).map
        hashText).getD [], [])
      cases ((content.chunks pieceSize).foldlM d.update s).bind d.finish with
      | none => rfl
      | some hash => rfl

theorem run_sha256 (pieces : List Bytes) :
    sha256.run pieces = some (Sha256.digest pieces.flatten) := by
  have hfold : ∀ (s : Sha256.Hasher),
      pieces.foldlM sha256.update s = some (pieces.foldl Sha256.Hasher.update s) :=
    fun s => List.foldlM_pure ..
  show (pieces.foldlM sha256.update Sha256.Hasher.start).bind sha256.finish = _
  rw [hfold]
  exact congrArg some (Sha256.finish_foldl_update pieces)

theorem sha256_computesSha256 : sha256.ComputesSha256 :=
  fun pieces => ⟨_, run_sha256 pieces, Sha256.isDigest_iff.mpr rfl⟩

theorem hashFile_sha256 (files : FileTree) (path : Path) :
    hashFile sha256 files path = (fileHash files path, []) := by
  refine Prod.ext rfl ?_
  cases hread : files.read? path with
  | none => rw [hashFile, hread]
  | some content =>
      rw [hashFile_eq sha256 hread]
      rfl

/-- A file that can be read is cut into pieces, each byte in one of them and
in order, and these are what is given to the digest, whatever it makes of
them. If it computes SHA-256, then the hash is the one of the content,
written as 64 lower-case digits, two for each byte. -/
theorem fileHash_covers_content (d : Digester) (hd : d.ComputesSha256) (files : FileTree)
    (path : Path) (content : Bytes) (x : Bool)
    (hfile : files.stat path = .ok (.file content x)) :
    ∃ (pieces : List Bytes) (hash digits : Bytes), Cut pieceSize pieces content ∧
      (∀ other : Digester,
        (hashFile other files path).1 = ((other.run pieces).map hashText).getD []) ∧
      d.run pieces = some hash ∧ IsDigest content hash ∧
      hashFile d files path = ("sha256:" ++ digits, []) ∧
      digits.length = 64 ∧ HexText digits hash := by
  have hread : files.read? path = some content := by rw [FileTree.read?, hfile]
  obtain ⟨hash, hrun, hdigest⟩ := hd (content.chunks pieceSize)
  rw [Bytes.flatten_chunks] at hdigest
  have hdigits := Bytes.hexText_flatMap hash
  refine ⟨content.chunks pieceSize, hash, _, Bytes.cut_chunks (by decide) content,
    fun other => congrArg Prod.fst (hashFile_eq other hread), hrun, hdigest, ?_, ?_, hdigits⟩
  · have hstart : d.start.isNone = false := by
      cases hnone : d.start with
      | none => rw [Digester.run, hnone] at hrun; cases hrun
      | some s => rfl
    rw [hashFile_eq d hread, hrun, hstart]
    rfl
  · rw [hdigits.length_eq, Sha256.isDigest_iff.mp hdigest, Sha256.length_digest]

/-- A file of exactly two pieces. -/
def twoPieces : Bytes := List.replicate (2 * pieceSize) 'a'.toUInt8

theorem fileHash_covers_content_twoPieces :
    let files := (FileTree.empty []).put ["lib.a"] (.file twoPieces false)
    sha256.ComputesSha256 ∧ files.stat "lib.a" = .ok (.file twoPieces false) ∧
      ∃ (pieces : List Bytes) (hash digits : Bytes), Cut pieceSize pieces twoPieces ∧
        sha256.run pieces = some hash ∧ IsDigest twoPieces hash ∧
        fileHash files "lib.a" = "sha256:" ++ digits ∧
        digits.length = 64 ∧ HexText digits hash := by
  intro files
  have hfile : files.stat "lib.a" = .ok (.file twoPieces false) := rfl
  obtain ⟨pieces, hash, digits, hcut, -, hrun, hdigest, htext, hlength, hdigits⟩ :=
    fileHash_covers_content sha256 sha256_computesSha256 files "lib.a" twoPieces false hfile
  exact ⟨sha256_computesSha256, hfile, pieces, hash, digits, hcut, hrun, hdigest,
    congrArg Prod.fst htext, hlength, hdigits⟩

end Archive

end Prebuilt
