import Prebuilt.Tool

/-!
# Status words

The system delivers the end of a run as a word of 32 bits. The seven low
bits are the signal that ended it, zero if it ended by itself, and then
the byte above the lowest is its exit code. All of the seven bits are set
in a word that stands for neither, such as that of a tool that could not
be started. `Ending.ofStatus` reads such a word as a signed number, and
the statements here say that it reads the bits.
-/

namespace Prebuilt

/-- How a run ended, as the system tells it. -/
abbrev StatusWord := BitVec 32

namespace StatusWord

/-- The signal that ended the run. -/
def signal (w : StatusWord) : BitVec 7 := w.extractLsb' 0 7

/-- The exit code of a run that ended by itself. -/
def code (w : StatusWord) : BitVec 8 := w.extractLsb' 8 8

/-- The run ended by itself with this exit code. -/
def Exited (w : StatusWord) (c : Nat) : Prop := w.signal = 0 ∧ w.code.toNat = c

/-- This signal ended the run. -/
def Killed (w : StatusWord) (n : Nat) : Prop := w.signal.toNat = n ∧ 0 < n ∧ n < 127

instance (w : StatusWord) (c : Nat) : Decidable (w.Exited c) :=
  inferInstanceAs (Decidable (_ ∧ _))

instance (w : StatusWord) (n : Nat) : Decidable (w.Killed n) :=
  inferInstanceAs (Decidable (_ ∧ _ ∧ _))

/-- The tool could not be started. -/
def notStarted : StatusWord := -1

variable {w : StatusWord} {c n : Nat}

theorem toInt_emod (w : StatusWord) : w.toInt % 128 = w.signal.toNat := by
  have hsignal : w.signal.toNat = w.toNat % 128 := by
    rw [signal, BitVec.extractLsb'_toNat, Nat.shiftRight_zero]
  rw [hsignal, BitVec.toInt_eq_toNat_cond]
  split <;> omega

theorem toInt_ediv_emod (w : StatusWord) : w.toInt / 256 % 256 = w.code.toNat := by
  have hcode : w.code.toNat = w.toNat / 256 % 256 := by
    rw [code, BitVec.extractLsb'_toNat, Nat.shiftRight_eq_div_pow]
  rw [hcode, BitVec.toInt_eq_toNat_cond]
  split <;> omega

/-! ## What a word is read as -/

theorem Exited.ofStatus (h : w.Exited c) : Ending.ofStatus w.toInt = .exited c := by
  obtain ⟨hsignal, rfl⟩ := h
  have hlow : w.toInt % 128 = 0 := by
    rw [toInt_emod, hsignal]
    rfl
  have hstarted : w.toInt ≠ -1 := by omega
  rw [Ending.ofStatus, if_neg hstarted, if_pos hlow, toInt_ediv_emod]

theorem Killed.ofStatus (h : w.Killed n) : Ending.ofStatus w.toInt = .killed n := by
  obtain ⟨rfl, hpos, hlt⟩ := h
  have hlow := toInt_emod w
  rw [Ending.ofStatus, if_neg, if_neg, if_pos, hlow] <;> omega

end StatusWord

end Prebuilt
