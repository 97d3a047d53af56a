import Prebuilt.Log.Record

/-!
# Reading JSON lines

A reader for flat JSON objects, whose values are strings and integers.
It knows nothing of log records: `readObject?` gives the members of any
such object in their order, and nothing for a text that is not exactly
one object.

Strings are bytes. Those from 128 on stand for themselves, an escape by
code point stands for its UTF-8 bytes, and a bare control byte is
refused. The main statement is `readString_escape`: the escapes of a
record's strings are undone.
-/

namespace Prebuilt.Json

inductive Value where
  | text (b : Bytes)
  | number (n : Int)
deriving Repr, DecidableEq

/-! ## Strings -/

def hexValue? (c : UInt8) : Option Nat :=
  if Byte.isDigit c then some (c.toNat - 48)
  else if 'a' ≤ c && c ≤ 'f' then some (c.toNat - 87)
  else if 'A' ≤ c && c ≤ 'F' then some (c.toNat - 55)
  else none

/-- The escapes of one letter. -/
def letterEscape? (c : UInt8) : Option UInt8 :=
  if c = '"' ∨ c = '\\' ∨ c = '/' then some c
  else if c = 'b' then some 8
  else if c = 'f' then some 12
  else if c = 'n' then some 10
  else if c = 'r' then some 13
  else if c = 't' then some 9
  else none

/-- The UTF-8 bytes of a code point, if it is one of a character. -/
def utf8? (code : Nat) : Option Bytes :=
  if code.isValidChar then some (String.utf8EncodeChar (Char.ofNat code)) else none

/-- What the next byte of a string is. -/
inductive Mode where
  | plain
  | escaped
  /-- A digit of a code point, of which some more follow. -/
  | code (more : Nat) (value : Nat)
deriving Repr, DecidableEq

/-- The value of a string after its opening quote, and what follows it. -/
def readString : Mode → Bytes → Option (Bytes × Bytes)
  | _, [] => none
  | .plain, c :: rest =>
      if c = '"' then some ([], rest)
      else if c = '\\' then readString .escaped rest
      else if c < 32 then none
      else (readString .plain rest).map fun r => (c :: r.1, r.2)
  | .escaped, c :: rest =>
      if c = 'u' then readString (.code 3 0) rest
      else
        match letterEscape? c with
        | some e => (readString .plain rest).map fun r => (e :: r.1, r.2)
        | none => none
  | .code more value, c :: rest =>
      match hexValue? c with
      | none => none
      | some d =>
          match more with
          | more + 1 => readString (.code more (16 * value + d)) rest
          | 0 =>
              match utf8? (16 * value + d) with
              | some bytes => (readString .plain rest).map fun r => (bytes ++ r.1, r.2)
              | none => none

/-! ## Numbers -/

def digitsValue (digits : Bytes) : Nat := digits.foldl (fun n c => 10 * n + (c.toNat - 48)) 0

/-- An integer without leading zeros, and what follows it. -/
def readNumber (b : Bytes) : Option (Int × Bytes) :=
  match b with
  | [] => none
  | sign :: rest =>
      let negative := sign = '-'
      let body := if negative then rest else b
      let digits := body.takeWhile Byte.isDigit
      if digits = [] ∨ (digits.head? = some '0'.toUInt8 ∧ digits ≠ "0") then none
      else
        let n : Int := digitsValue digits
        some (if negative then -n else n, body.dropWhile Byte.isDigit)

/-! ## Objects -/

def isSpace (c : UInt8) : Bool := c = ' ' || c = '\t' || c = '\n' || c = '\r'

def skipSpace (b : Bytes) : Bytes := b.dropWhile isSpace

/-- What follows a sign, spaces around it left out. -/
def afterSign? (sign : UInt8) (b : Bytes) : Option Bytes :=
  match skipSpace b with
  | [] => none
  | c :: rest => if c = sign then some (skipSpace rest) else none

def readValue (b : Bytes) : Option (Value × Bytes) :=
  match b with
  | [] => none
  | c :: rest =>
      if c = '"' then (readString .plain rest).map fun r => (.text r.1, r.2)
      else (readNumber b).map fun r => (.number r.1, r.2)

/-- A key, a colon and a value. -/
def readMember (b : Bytes) : Option ((Bytes × Value) × Bytes) :=
  match b with
  | [] => none
  | c :: rest =>
      if c ≠ '"' then none
      else
        match readString .plain rest with
        | none => none
        | some (key, rest) =>
            match (afterSign? ':' rest).bind readValue with
            | none => none
            | some (value, rest) => some ((key, value), rest)

/-- The members of an object up to its closing brace, and what follows. -/
def readMembers : (fuel : Nat) → Bytes → Option (List (Bytes × Value) × Bytes)
  | 0, _ => none
  | fuel + 1, b =>
      match readMember b with
      | none => none
      | some (member, rest) =>
          match afterSign? ',' rest with
          | some rest => (readMembers fuel rest).map fun r => (member :: r.1, r.2)
          | none => (afterSign? '\x7d' rest).map fun rest => ([member], rest)

/-- The members of a text that is exactly one object. -/
def readObject? (b : Bytes) : Option (List (Bytes × Value)) :=
  match afterSign? '\x7b' b with
  | none => none
  | some rest =>
      match afterSign? '\x7d' rest with
      | some [] => some []
      | some _ => none
      | none =>
          match readMembers (rest.length + 1) rest with
          | some (members, []) => some members
          | _ => none

/-! ## Escapes undone -/

/-- A code point below 256 is read from its two digits. -/
theorem readString_code {high low : UInt8} {x y : Nat} {bytes : Bytes}
    (hx : hexValue? high = some x) (hy : hexValue? low = some y)
    (hcode : utf8? (16 * x + y) = some bytes) (rest : Bytes) :
    readString .plain ("\\u00" ++ [high, low] ++ rest)
      = (readString .plain rest).map fun r => (bytes ++ r.1, r.2) := by
  have hzero : hexValue? 48 = some 0 := rfl
  have hshape : ("\\u00" ++ [high, low] ++ rest : Bytes)
      = 92 :: 117 :: 48 :: 48 :: high :: low :: rest := rfl
  rw [hshape]
  have h1 : (92 : UInt8) ≠ '"'.toUInt8 := by decide
  have h2 : (92 : UInt8) = '\\'.toUInt8 := by decide
  have h3 : (117 : UInt8) = 'u'.toUInt8 := by decide
  simp only [readString, if_neg h1, if_pos h2, if_pos h3, hzero, hx, hy, hcode, Nat.mul_zero,
    Nat.zero_add]

theorem control_digits : ∀ n < 32, hexValue? (Bytes.hexDigit (UInt8.ofNat n / 16)) = some (n / 16) ∧
    hexValue? (Bytes.hexDigit (UInt8.ofNat n % 16)) = some (n % 16) ∧
    utf8? (16 * (n / 16) + n % 16) = some [UInt8.ofNat n] := by
  decide +kernel

/-- A control byte comes back from its two digits. -/
theorem readString_control {c : UInt8} (h : c < 32) (rest : Bytes) :
    readString .plain ("\\u00" ++ Bytes.hexPair c ++ rest)
      = (readString .plain rest).map fun r => (c :: r.1, r.2) := by
  obtain ⟨hx, hy, hcode⟩ := control_digits c.toNat (UInt8.lt_iff_toNat_lt.mp h)
  rw [UInt8.ofNat_toNat] at hx hy hcode
  exact readString_code hx hy hcode rest

/-- A letter escape stands for its byte. -/
theorem readString_letter {letter c : UInt8} (hu : letter ≠ 'u')
    (h : letterEscape? letter = some c) (rest : Bytes) :
    readString .plain ('\\'.toUInt8 :: letter :: rest)
      = (readString .plain rest).map fun r => (c :: r.1, r.2) := by
  have h1 : '\\'.toUInt8 ≠ '"'.toUInt8 := by decide
  simp only [readString, if_neg h1, if_true, if_neg hu, h]

theorem readString_escapeByte (c : UInt8) (rest : Bytes) :
    readString .plain (Log.escapeByte c ++ rest)
      = (readString .plain rest).map fun r => (c :: r.1, r.2) := by
  unfold Log.escapeByte
  split
  · rename_i h
    subst h
    exact readString_letter (by decide) (by decide) rest
  · rename_i hquote
    split
    · rename_i h
      subst h
      exact readString_letter (by decide) (by decide) rest
    · rename_i hslash
      split
      · rename_i h
        subst h
        exact readString_letter (by decide) (by decide) rest
      · split
        · rename_i h
          subst h
          exact readString_letter (by decide) (by decide) rest
        · split
          · rename_i h
            subst h
            exact readString_letter (by decide) (by decide) rest
          · split
            · rename_i h
              exact readString_control h rest
            · rename_i h
              change readString .plain (c :: rest) = _
              rw [readString, if_neg hquote, if_neg hslash, if_neg h]

/-- The escapes of a record's strings are undone. -/
theorem readString_escape (value rest : Bytes) :
    readString .plain (Log.escape value ++ '"'.toUInt8 :: rest) = some (value, rest) := by
  induction value with
  | nil => rfl
  | cons c value ih =>
      have hshape : Log.escape (c :: value) ++ '"'.toUInt8 :: rest
          = Log.escapeByte c ++ (Log.escape value ++ '"'.toUInt8 :: rest) := by
        rw [Log.escape, List.flatMap_cons, List.append_assoc]
        rfl
      rw [hshape, readString_escapeByte, ih]
      rfl

end Prebuilt.Json
