import Prebuilt.Log.Json

/-!
# JSON lines lose nothing

A record as JSON is a flat object, as are the lines of any log that is
written that way. `objectText` writes a flat object with any members.
Reading it gives these members back, in their order, and nothing else
(`readObject?_objectText`), and no byte of the text is a control byte,
so an object never leaves its line (`not_control_of_mem_objectText`).

`Record.json` is such an object (`Record.json_eq`), so both hold of
every record, whatever bytes its strings hold (`Record.json_lossless`).
-/

namespace Prebuilt

/-! ## Decimal digits -/

namespace Bytes

theorem digit_toNat {n : Nat} (h : n < 10) : (48 + n.toUInt8).toNat = 48 + n := by
  have hn : n.toUInt8.toNat = n := Nat.mod_eq_of_lt (by omega)
  have h48 : (48 : UInt8).toNat = 48 := rfl
  rw [UInt8.toNat_add, hn, h48, Nat.mod_eq_of_lt (by omega)]

theorem isDigit_iff {c : UInt8} : Byte.isDigit c = true ↔ 48 ≤ c.toNat ∧ c.toNat ≤ 57 := by
  simp only [Byte.isDigit, Bool.and_eq_true, decide_eq_true_eq, UInt8.le_iff_toNat_le]
  rfl

theorem isDigit_digit {n : Nat} (h : n < 10) : Byte.isDigit (48 + n.toUInt8) = true := by
  rw [isDigit_iff, digit_toNat h]
  omega

theorem ofNat_of_lt {n : Nat} (h : n < 10) : ofNat n = [48 + n.toUInt8] := by
  rw [ofNat, if_pos h]

/-- From ten on, the last digit comes behind the others. -/
theorem ofNat_of_le {n : Nat} (h : 10 ≤ n) :
    ofNat n = ofNat (n / 10) ++ [48 + (n % 10).toUInt8] := by
  rw [ofNat, if_neg (by omega)]

theorem isDigit_of_mem_ofNat (n : Nat) : ∀ c ∈ ofNat n, Byte.isDigit c = true := by
  induction n using Nat.strongRecOn with
  | ind n ih =>
      intro c hc
      by_cases hn : n < 10
      · rw [ofNat_of_lt hn] at hc
        rw [List.mem_singleton.mp hc]
        exact isDigit_digit hn
      · rw [ofNat_of_le (by omega)] at hc
        rcases List.mem_append.mp hc with hc | hc
        · exact ih (n / 10) (by omega) c hc
        · rw [List.mem_singleton.mp hc]
          exact isDigit_digit (by omega)

/-- Only zero has a zero for its first digit. -/
theorem exists_ofNat_eq_cons {n : Nat} (h : 0 < n) :
    ∃ c digits, ofNat n = c :: digits ∧ c ≠ '0' := by
  induction n using Nat.strongRecOn with
  | ind n ih =>
      by_cases hn : n < 10
      · refine ⟨_, [], ofNat_of_lt hn, fun hzero => ?_⟩
        have hcode := congrArg UInt8.toNat hzero
        rw [digit_toNat hn] at hcode
        have h48 : '0'.toUInt8.toNat = 48 := rfl
        omega
      · obtain ⟨c, digits, hshape, hzero⟩ := ih (n / 10) (by omega) (by omega)
        rw [ofNat_of_le (by omega), hshape]
        exact ⟨c, _, rfl, hzero⟩

end Bytes

namespace Json

open Bytes

/-! ## Numbers -/

theorem digitsValue_concat (digits : Bytes) (c : UInt8) :
    digitsValue (digits ++ [c]) = 10 * digitsValue digits + (c.toNat - 48) := by
  rw [digitsValue, List.foldl_append]
  rfl

theorem digitsValue_ofNat (n : Nat) : digitsValue (ofNat n) = n := by
  induction n using Nat.strongRecOn with
  | ind n ih =>
      by_cases hn : n < 10
      · rw [ofNat_of_lt hn, ← List.nil_append [_], digitsValue_concat, digit_toNat hn]
        show 10 * 0 + (48 + n - 48) = n
        omega
      · rw [ofNat_of_le (by omega), digitsValue_concat, ih (n / 10) (by omega),
          digit_toNat (by omega)]
        omega

/-- The digits of a number end at the first byte that is none. -/
theorem digits_ofNat (n : Nat) {c : UInt8} (hc : Byte.isDigit c = false) (rest : Bytes) :
    (ofNat n ++ c :: rest).takeWhile Byte.isDigit = ofNat n ∧
      (ofNat n ++ c :: rest).dropWhile Byte.isDigit = c :: rest := by
  rw [List.takeWhile_append_of_pos (isDigit_of_mem_ofNat n),
    List.dropWhile_append_of_pos (isDigit_of_mem_ofNat n),
    List.takeWhile_cons_of_neg (by rw [hc]; decide),
    List.dropWhile_cons_of_neg (by rw [hc]; decide), List.append_nil]
  exact ⟨rfl, rfl⟩

/-- A written number has digits, and a zero in front of none of them. -/
theorem not_padded_ofNat (n : Nat) :
    ¬ (ofNat n = [] ∨ ((ofNat n).head? = some '0'.toUInt8 ∧ ofNat n ≠ "0")) := by
  rcases Nat.eq_zero_or_pos n with rfl | hn
  · rw [ofNat_of_lt (by omega)]
    decide
  · obtain ⟨c, digits, hshape, hzero⟩ := exists_ofNat_eq_cons hn
    rw [hshape]
    rintro (hnil | ⟨hhead, -⟩)
    · cases hnil
    · exact hzero (Option.some.inj hhead)

theorem readNumber_ofInt (n : Int) {c : UInt8} (hc : Byte.isDigit c = false) (rest : Bytes) :
    readNumber (ofInt n ++ c :: rest) = some (n, c :: rest) := by
  cases n with
  | negSucc n =>
      obtain ⟨htake, hdrop⟩ := digits_ofNat (n + 1) hc rest
      show readNumber ('-'.toUInt8 :: (ofNat (n + 1) ++ c :: rest)) = _
      simp only [readNumber, if_true, htake, hdrop,
        if_neg (not_padded_ofNat (n + 1)), digitsValue_ofNat]
      rfl
  | ofNat n =>
      obtain ⟨htake, hdrop⟩ := digits_ofNat n hc rest
      have hpadded := not_padded_ofNat n
      have hvalue := digitsValue_ofNat n
      have hdigits := isDigit_of_mem_ofNat n
      show readNumber (ofNat n ++ c :: rest) = some (Int.ofNat n, c :: rest)
      cases hshape : ofNat n with
      | nil => exact absurd (Or.inl hshape) hpadded
      | cons d digits =>
          rw [hshape] at htake hdrop hpadded hvalue hdigits
          have hsign : d ≠ '-' := by
            rintro rfl
            exact absurd (hdigits _ (List.mem_cons_self ..)) (by decide)
          rw [List.cons_append] at htake hdrop ⊢
          simp only [readNumber, hsign, if_false, htake, hdrop, if_neg hpadded, hvalue]
          rfl

/-! ## Flat objects as they are written -/

def Value.written : Value → Bytes
  | .text b => '"'.toUInt8 :: (Log.escape b ++ ['"'.toUInt8])
  | .number n => ofInt n

/-- A member, and what is behind it. -/
def memberText (member : Bytes × Value) (rest : Bytes) : Bytes :=
  '"'.toUInt8 :: (Log.escape member.1 ++ '"'.toUInt8 :: ':'.toUInt8 :: (member.2.written ++ rest))

/-- Members with a comma between each two, and the closing brace. -/
def membersText : List (Bytes × Value) → Bytes
  | [] => ['\x7d'.toUInt8]
  | [member] => memberText member ['\x7d'.toUInt8]
  | member :: next :: more => memberText member (','.toUInt8 :: membersText (next :: more))

def objectText (members : List (Bytes × Value)) : Bytes := '\x7b'.toUInt8 :: membersText members

/-! ## Flat objects read back -/

theorem skipSpace_cons_of_not {c : UInt8} (h : isSpace c = false) (rest : Bytes) :
    skipSpace (c :: rest) = c :: rest := List.dropWhile_cons_of_neg (by rw [h]; decide)

/-- A sign is found where it stands, if no space follows. -/
theorem afterSign?_cons {sign : UInt8} (h : isSpace sign = false) {rest : Bytes}
    (hrest : skipSpace rest = rest) : afterSign? sign (sign :: rest) = some rest := by
  rw [afterSign?, skipSpace_cons_of_not h]
  simp only [if_true, hrest]

theorem afterSign?_cons_of_ne {sign c : UInt8} (hc : isSpace c = false) (h : c ≠ sign)
    (rest : Bytes) : afterSign? sign (c :: rest) = none := by
  rw [afterSign?, skipSpace_cons_of_not hc]
  simp only [if_neg h]

theorem isSpace_of_isDigit {c : UInt8} (h : Byte.isDigit c = true) : isSpace c = false := by
  cases hc : isSpace c with
  | false => rfl
  | true =>
      simp only [isSpace, Bool.or_eq_true, decide_eq_true_eq] at hc
      rcases hc with ((rfl | rfl) | rfl) | rfl <;> exact absurd h (by decide)

/-- A written value is no space, and a reader tells by its first byte
what it is. -/
theorem Value.opening (v : Value) (rest : Bytes) :
    ∃ c tail, v.written ++ rest = c :: tail ∧ isSpace c = false ∧
      (c = '"' ↔ ∃ b, v = .text b) := by
  cases v with
  | text b => exact ⟨_, _, rfl, by decide, iff_of_true rfl ⟨b, rfl⟩⟩
  | number n =>
      have hnone : ¬ ∃ b, Value.number n = .text b := by
        rintro ⟨b, hb⟩
        cases hb
      cases n with
      | negSucc n => exact ⟨_, _, rfl, by decide, iff_of_false (by decide) hnone⟩
      | ofNat n =>
          cases hshape : ofNat n with
          | nil => exact absurd (Or.inl hshape) (not_padded_ofNat n)
          | cons d digits =>
              have hdigit : Byte.isDigit d = true :=
                isDigit_of_mem_ofNat n d (hshape ▸ List.mem_cons_self ..)
              refine ⟨d, digits ++ rest, ?_, isSpace_of_isDigit hdigit, iff_of_false ?_ hnone⟩
              · show ofNat n ++ rest = d :: (digits ++ rest)
                rw [hshape, List.cons_append]
              · rintro rfl
                exact absurd hdigit (by decide)

theorem readValue_written (v : Value) {c : UInt8} (hc : Byte.isDigit c = false) (rest : Bytes) :
    readValue (v.written ++ c :: rest) = some (v, c :: rest) := by
  obtain ⟨d, tail, hshape, -, hquote⟩ := v.opening (c :: rest)
  cases v with
  | text b =>
      show readValue ('"'.toUInt8 :: (Log.escape b ++ ['"'.toUInt8] ++ c :: rest)) = _
      rw [readValue, if_pos rfl, List.append_assoc, List.singleton_append, readString_escape]
      rfl
  | number n =>
      have hd : d ≠ '"' := by
        intro h
        obtain ⟨b, hb⟩ := hquote.mp h
        cases hb
      have hread := readNumber_ofInt n hc rest
      show readValue (ofInt n ++ c :: rest) = _
      rw [show ofInt n ++ c :: rest = d :: tail from hshape] at hread ⊢
      rw [readValue, if_neg hd, hread]
      rfl

theorem skipSpace_written (v : Value) (rest : Bytes) :
    skipSpace (v.written ++ rest) = v.written ++ rest := by
  obtain ⟨c, tail, hshape, hspace, -⟩ := v.opening rest
  rw [hshape, skipSpace_cons_of_not hspace]

theorem readMember_memberText (member : Bytes × Value) {c : UInt8}
    (hc : Byte.isDigit c = false) (rest : Bytes) :
    readMember (memberText member (c :: rest)) = some (member, c :: rest) := by
  obtain ⟨key, v⟩ := member
  have hcolon : afterSign? ':' (':'.toUInt8 :: (v.written ++ c :: rest))
      = some (v.written ++ c :: rest) :=
    afterSign?_cons (by decide) (skipSpace_written v _)
  rw [memberText, readMember, if_neg (not_not_intro rfl)]
  simp only [readString_escape, hcolon, Option.bind_some, readValue_written v hc rest]

/-- Members are not behind space. -/
theorem skipSpace_membersText (members : List (Bytes × Value)) :
    skipSpace (membersText members) = membersText members := by
  match members with
  | [] => rfl
  | [_] => rfl
  | _ :: _ :: _ => rfl

/-- Every member takes one round of the loop, and so one unit of fuel. -/
theorem readMembers_membersText {members : List (Bytes × Value)} (hne : members ≠ [])
    {fuel : Nat} (hfuel : members.length ≤ fuel) :
    readMembers fuel (membersText members) = some (members, []) := by
  induction members generalizing fuel with
  | nil => exact absurd rfl hne
  | cons member more ih =>
      obtain ⟨fuel, rfl⟩ : ∃ n, fuel = n + 1 := ⟨fuel - 1, by simp at hfuel; omega⟩
      cases more with
      | nil =>
          have hread := readMember_memberText member (c := '\x7d') (by decide) []
          have hcomma : afterSign? ',' ['\x7d'.toUInt8] = none :=
            afterSign?_cons_of_ne (by decide) (by decide) []
          have hbrace : afterSign? '\x7d' ['\x7d'.toUInt8] = some [] :=
            afterSign?_cons (by decide) rfl
          rw [membersText, readMembers]
          simp only [hread, hcomma, hbrace, Option.map_some]
      | cons next more =>
          have hread := readMember_memberText member (c := ',') (by decide)
            (membersText (next :: more))
          have hcomma : afterSign? ',' (','.toUInt8 :: membersText (next :: more))
              = some (membersText (next :: more)) :=
            afterSign?_cons (by decide) (skipSpace_membersText _)
          have hmore := ih (List.cons_ne_nil _ _) (Nat.le_of_succ_le_succ hfuel)
          rw [membersText, readMembers]
          simp only [hread, hcomma, hmore, Option.map_some]

theorem length_le_length_membersText (members : List (Bytes × Value)) :
    members.length ≤ (membersText members).length := by
  induction members with
  | nil => exact Nat.zero_le _
  | cons member more ih =>
      cases more with
      | nil => simp [membersText, memberText]
      | cons next more =>
          simp only [membersText, memberText, List.length_cons, List.length_append] at ih ⊢
          omega

/-- A flat object gives exactly the members that were written. -/
theorem readObject?_objectText (members : List (Bytes × Value)) :
    readObject? (objectText members) = some members := by
  have hopen : afterSign? '\x7b' (objectText members) = some (membersText members) :=
    afterSign?_cons (by decide) (skipSpace_membersText members)
  cases members with
  | nil => rfl
  | cons member more =>
      have hfirst : ∃ tail, membersText (member :: more) = '"'.toUInt8 :: tail := by
        cases more with
        | nil => exact ⟨_, rfl⟩
        | cons next more => exact ⟨_, rfl⟩
      have hclose : afterSign? '\x7d' (membersText (member :: more)) = none := by
        obtain ⟨tail, htail⟩ := hfirst
        rw [htail]
        exact afterSign?_cons_of_ne (by decide) (by decide) tail
      have hmembers := readMembers_membersText (List.cons_ne_nil member more)
        (Nat.le_succ_of_le (length_le_length_membersText _))
      rw [readObject?, hopen]
      simp only [hclose, hmembers]

/-! ## No control bytes -/

theorem not_control_of_all {b : Bytes} (h : b.all (32 ≤ ·) = true) : ∀ c ∈ b, 32 ≤ c :=
  fun c hc => of_decide_eq_true (List.all_eq_true.mp h c hc)

theorem not_control_hexPair {b : UInt8} (h : b < 32) : ∀ c ∈ hexPair b, 32 ≤ c := by
  have hall : ∀ n < 32, (hexPair (UInt8.ofNat n)).all (32 ≤ ·) = true := by decide
  have hb := hall b.toNat (UInt8.lt_iff_toNat_lt.mp h)
  rw [UInt8.ofNat_toNat] at hb
  exact not_control_of_all hb

theorem not_control_escapeByte (b : UInt8) : ∀ c ∈ Log.escapeByte b, 32 ≤ c := by
  unfold Log.escapeByte
  split
  · exact not_control_of_all (by decide)
  split
  · exact not_control_of_all (by decide)
  split
  · exact not_control_of_all (by decide)
  split
  · exact not_control_of_all (by decide)
  split
  · exact not_control_of_all (by decide)
  split
  · rename_i h
    exact List.forall_mem_append.mpr ⟨not_control_of_all (by decide), not_control_hexPair h⟩
  · rename_i h
    exact fun c hc => List.mem_singleton.mp hc ▸ UInt8.not_lt.mp h

theorem not_control_escape (b : Bytes) : ∀ c ∈ Log.escape b, 32 ≤ c := by
  intro c hc
  obtain ⟨d, -, hd⟩ := List.mem_flatMap.mp hc
  exact not_control_escapeByte d c hd

theorem not_control_ofInt (n : Int) : ∀ c ∈ ofInt n, 32 ≤ c := by
  have hdigit : ∀ n, ∀ c ∈ ofNat n, 32 ≤ c := by
    intro n c hc
    have h := (isDigit_iff.mp (isDigit_of_mem_ofNat n c hc)).1
    rw [UInt8.le_iff_toNat_le]
    exact Nat.le_trans (by decide) h
  cases n with
  | ofNat n => exact hdigit n
  | negSucc n => exact List.forall_mem_cons.mpr ⟨by decide, hdigit (n + 1)⟩

theorem not_control_memberText (member : Bytes × Value) {rest : Bytes}
    (h : ∀ c ∈ rest, 32 ≤ c) : ∀ c ∈ memberText member rest, 32 ≤ c := by
  have hvalue : ∀ c ∈ member.2.written, 32 ≤ c := by
    cases member.2 with
    | text b =>
        simp only [Value.written, List.forall_mem_cons, List.forall_mem_append]
        exact ⟨by decide, not_control_escape b, by decide, List.forall_mem_nil _⟩
    | number n => exact not_control_ofInt n
  simp only [memberText, List.forall_mem_cons, List.forall_mem_append]
  exact ⟨by decide, not_control_escape _, by decide, by decide, hvalue, h⟩

theorem not_control_membersText (members : List (Bytes × Value)) :
    ∀ c ∈ membersText members, 32 ≤ c := by
  induction members with
  | nil => exact not_control_of_all (by decide)
  | cons member more ih =>
      cases more with
      | nil => exact not_control_memberText member (not_control_of_all (by decide))
      | cons next more =>
          exact not_control_memberText member (List.forall_mem_cons.mpr ⟨by decide, ih⟩)

/-- Nothing in a flat object ends its line. -/
theorem not_control_of_mem_objectText (members : List (Bytes × Value)) :
    ∀ c ∈ objectText members, 32 ≤ c :=
  List.forall_mem_cons.mpr ⟨by decide, not_control_membersText members⟩

end Json

namespace Log

open Json

/-! ## Records -/

/-- The members of a record's object. -/
def Record.members (r : Record) : List (Bytes × Value) :=
  [("ts", .number r.millis), ("level", .text (Level.name r.level)), ("module", .text r.topic),
    ("file", .text r.fileName), ("line", .number r.line), ("msg", .text r.message)]

/-- The name of a level stands for itself in a string. -/
theorem escape_levelName (level : Level) : escape (Level.name level) = Level.name level := by
  have hnames : ∀ name ∈ Bytes.ofString "???" :: Level.names, escape name = name := by decide
  apply hnames
  cases level with
  | negSucc n => exact List.mem_cons_self ..
  | ofNat n =>
      show Level.names[n]?.getD "???" ∈ _
      cases h : Level.names[n]? with
      | none => exact List.mem_cons_self ..
      | some name => exact List.mem_cons_of_mem _ (List.mem_of_getElem? h)

theorem Record.json_eq (r : Record) : r.json = objectText r.members := by
  simp only [Record.json, objectText, Record.members, membersText, memberText, Value.written,
    escape_levelName, List.append_assoc, List.cons_append, List.nil_append]
  rfl

/-- A record is one line, and a reader gets back from it all that went
in: of the file what is behind its last slash of either kind, and of a
file that is not known the empty name. -/
theorem Record.json_lossless (r : Record) :
    (∀ c ∈ r.json, 32 ≤ c) ∧
      readObject? r.json = some (
        [("ts", .number r.millis), ("level", .text (Level.name r.level)),
          ("module", .text r.topic), ("file", .text r.fileName), ("line", .number r.line),
          ("msg", .text r.message)] : List (Bytes × Value)) ∧
      (r.file = none → r.fileName = []) ∧
      ∀ path, r.file = some path → ∃ dirs, path = dirs ++ r.fileName ∧
        (∀ c ∈ dirs.getLast?, c = '/' ∨ c = '\\') ∧ ∀ c ∈ r.fileName, c ≠ '/' ∧ c ≠ '\\' := by
  refine ⟨?_, ?_, ?_, ?_⟩
  · rw [json_eq]
    exact not_control_of_mem_objectText r.members
  · rw [json_eq]
    exact readObject?_objectText r.members
  · intro hfile
    rw [fileName, hfile]
    rfl
  · intro path hfile
    obtain ⟨dirs, hpath, hdirs, hname⟩ :=
      Bytes.exists_eq_append_afterLast (fun c => c = '/' ∨ c = '\\') path
    have hbase : r.fileName = path.afterLast fun c => c = '/' ∨ c = '\\' := by
      rw [fileName, hfile]
      rfl
    rw [hbase]
    refine ⟨dirs, hpath, fun c hc => of_decide_eq_true (hdirs c hc), fun c hc => ?_⟩
    exact not_or.mp (of_decide_eq_false (hname c hc))

/-- Line ends, a NUL, quotes and backslashes where a string ends, bytes
that are no UTF-8, and a level that has no name. -/
def hostileRecord : Record :=
  ⟨-1, "a\n\x00\"", [255, 92], some "src\\x/y.cpp", -7, 0⟩

theorem Record.json_lossless_hostileRecord :
    let read (r : Record) := readObject? r.json
    10 ∉ hostileRecord.json ∧
      read hostileRecord = some (
        [("ts", .number 0), ("level", .text "???"), ("module", .text "a\n\x00\""),
          ("file", .text "y.cpp"), ("line", .number (-7)), ("msg", .text [255, 92])] :
            List (Bytes × Value)) ∧
      (∃ dirs, "src\\x/y.cpp" = dirs ++ hostileRecord.fileName) ∧
      read { hostileRecord with level := Level.warn, file := none } = some (
        [("ts", .number 0), ("level", .text "WARN"), ("module", .text "a\n\x00\""),
          ("file", .text ""), ("line", .number (-7)), ("msg", .text [255, 92])] :
            List (Bytes × Value)) := by
  intro read
  obtain ⟨hline, hread, -, hfile⟩ := hostileRecord.json_lossless
  obtain ⟨dirs, hdirs, -⟩ := hfile "src\\x/y.cpp" rfl
  obtain ⟨-, hread', -, -⟩ :=
    { hostileRecord with level := Level.warn, file := none : Record }.json_lossless
  exact ⟨fun hmem => absurd (hline 10 hmem) (by decide), hread, ⟨dirs, hdirs⟩, hread'⟩

end Log

end Prebuilt
