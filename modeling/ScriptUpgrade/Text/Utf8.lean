/-
# UTF-8

Texts as bytes and bytes as texts. A sequence of bytes that is no text is refused where its first
character cannot be read on: either the bytes from there on are cut off inside a character, or one
to three bytes of them start a character that the next byte cannot continue. The bytes of a text are
read back as that text (`decode_encode`), and no other bytes are read as it (`encode_of_decode`).
-/

import ScriptUpgrade.Text.Basic

namespace ScriptUpgrade
namespace Utf8

/-- Why bytes are no text: the bytes end inside a character, or `width` bytes are no part of one.
`index` is where that character starts. -/
inductive Fault where
  | incomplete (index : Nat)
  | invalid (width index : Nat)
deriving DecidableEq, Repr

/-- The bytes of a text. -/
def encode (text : Text) : List UInt8 :=
  text.flatMap String.utf8EncodeChar

/-- What the first bytes are: the end, a character and the bytes after it, an incomplete character,
or `width` bytes that start no character. -/
inductive Front where
  | done
  | char (c : Char) (rest : List UInt8)
  | incomplete
  | invalid (width : Nat)

/-- A byte that continues a character. -/
def isContinuation (byte : UInt8) : Bool :=
  0x80 ≤ byte.toNat && byte.toNat ≤ 0xBF

/-- Whether `second` may follow the first byte of a character of three bytes. Characters that a
shorter form has, and surrogates, are left out. -/
def secondOfThree (first second : UInt8) : Bool :=
  if first.toNat = 0xE0 then 0xA0 ≤ second.toNat && second.toNat ≤ 0xBF
  else if first.toNat = 0xED then 0x80 ≤ second.toNat && second.toNat ≤ 0x9F
  else isContinuation second

/-- Whether `second` may follow the first byte of a character of four bytes. Characters that a
shorter form has, and numbers beyond the last character, are left out. -/
def secondOfFour (first second : UInt8) : Bool :=
  if first.toNat = 0xF0 then 0x90 ≤ second.toNat && second.toNat ≤ 0xBF
  else if first.toNat = 0xF4 then 0x80 ≤ second.toNat && second.toNat ≤ 0x8F
  else isContinuation second

/-- The six low bits of a byte after the number so far. -/
def extend (value : Nat) (byte : UInt8) : Nat :=
  value * 64 + byte.toNat % 64

/-- Reads the bytes that continue a character, one for each of `tests`, which say what the byte may
be. `value` is the number read so far and `width` the count of the bytes it took. -/
def continuing (value width : Nat) : (tests : List (UInt8 → Bool)) → List UInt8 → Front
  | [], rest => .char (Char.ofNat value) rest
  | _ :: _, [] => .incomplete
  | test :: tests, byte :: rest =>
    if test byte then continuing (extend value byte) (width + 1) tests rest else .invalid width

/-- Reads the first character. -/
def front : List UInt8 → Front
  | [] => .done
  | first :: rest =>
    let n := first.toNat
    if n < 0x80 then continuing n 1 [] rest
    else if 0xC2 ≤ n && n ≤ 0xDF then continuing (n % 32) 1 [isContinuation] rest
    else if 0xE0 ≤ n && n ≤ 0xEF then
      continuing (n % 16) 1 [secondOfThree first, isContinuation] rest
    else if 0xF0 ≤ n && n ≤ 0xF4 then
      continuing (n % 8) 1 [secondOfFour first, isContinuation, isContinuation] rest
    else .invalid 1

theorem length_of_continuing {value width : Nat} {tests : List (UInt8 → Bool)}
    {bytes rest : List UInt8} {c : Char} (h : continuing value width tests bytes = .char c rest) :
    rest.length ≤ bytes.length := by
  induction tests generalizing value width bytes with
  | nil =>
    simp only [continuing, Front.char.injEq] at h
    exact Nat.le_of_eq (congrArg List.length h.2.symm)
  | cons test tests ih =>
    cases bytes with
    | nil => simp [continuing] at h
    | cons byte bytes =>
      simp only [continuing] at h
      split at h
      · exact Nat.le_succ_of_le (ih h)
      · simp at h

/-- Reading a character uses up at least one byte. -/
theorem length_of_front {bytes rest : List UInt8} {c : Char} (h : front bytes = .char c rest) :
    rest.length < bytes.length := by
  cases bytes with
  | nil => simp [front] at h
  | cons first bytes =>
    rw [List.length_cons, Nat.lt_succ_iff]
    simp only [front] at h
    split at h
    · exact length_of_continuing h
    · split at h
      · exact length_of_continuing h
      · split at h
        · exact length_of_continuing h
        · split at h
          · exact length_of_continuing h
          · simp at h

/-- The characters of bytes from the byte with number `index` on, after the characters in
`read`, the last first. -/
def decodeFrom (index : Nat) (read : Text) (bytes : List UInt8) : Except Fault Text :=
  match h : front bytes with
  | .done => .ok read.reverse
  | .char c rest => decodeFrom (index + c.utf8Size) (c :: read) rest
  | .incomplete => .error (.incomplete index)
  | .invalid width => .error (.invalid width index)
termination_by bytes.length
decreasing_by exact length_of_front h

/-- The text that bytes encode. -/
def decode (bytes : List UInt8) : Except Fault Text :=
  decodeFrom 0 [] bytes

/-- A byte that continues a character gives six more bits. -/
theorem continuing_cons (value width n : Nat) {test : UInt8 → Bool} (tests : List (UInt8 → Bool))
    (rest : List UInt8) (h : test (UInt8.ofNat (n % 64 + 128)) = true) :
    continuing value width (test :: tests) (UInt8.ofNat (n % 64 + 128) :: rest) =
      continuing (value * 64 + n % 64) (width + 1) tests rest := by
  have hextend : extend value (UInt8.ofNat (n % 64 + 128)) = value * 64 + n % 64 := by
    rw [extend, UInt8.toNat_ofNat_of_lt' (by rw [UInt8.size]; omega)]
    omega
  rw [continuing, if_pos h, hextend]

theorem isContinuation_ofNat (n : Nat) : isContinuation (UInt8.ofNat (n % 64 + 128)) = true := by
  rw [isContinuation, UInt8.toNat_ofNat_of_lt' (by rw [UInt8.size]; omega), Bool.and_eq_true,
    decide_eq_true_iff, decide_eq_true_iff]
  omega

/-- The second byte of a character of three bytes. -/
theorem secondOfThree_ofNat {v : Nat} (hlow : 2048 ≤ v) (hhigh : v < 0xD800 ∨ 0xDFFF < v ∧ v ≤ 0xFFFF) :
    secondOfThree (UInt8.ofNat (v / 4096 % 16 + 224)) (UInt8.ofNat (v / 64 % 64 + 128)) = true := by
  unfold secondOfThree
  rw [isContinuation_ofNat, UInt8.toNat_ofNat_of_lt' (by rw [UInt8.size]; omega),
    UInt8.toNat_ofNat_of_lt' (by rw [UInt8.size]; omega)]
  split
  · rw [Bool.and_eq_true, decide_eq_true_iff, decide_eq_true_iff]
    omega
  · split
    · rw [Bool.and_eq_true, decide_eq_true_iff, decide_eq_true_iff]
      omega
    · rfl

/-- The second byte of a character of four bytes. -/
theorem secondOfFour_ofNat {v : Nat} (hlow : 0xFFFF < v) (hhigh : v < 0x110000) :
    secondOfFour (UInt8.ofNat (v / 262144 % 8 + 240)) (UInt8.ofNat (v / 4096 % 64 + 128)) = true := by
  unfold secondOfFour
  rw [isContinuation_ofNat, UInt8.toNat_ofNat_of_lt' (by rw [UInt8.size]; omega),
    UInt8.toNat_ofNat_of_lt' (by rw [UInt8.size]; omega)]
  split
  · rw [Bool.and_eq_true, decide_eq_true_iff, decide_eq_true_iff]
    omega
  · split
    · rw [Bool.and_eq_true, decide_eq_true_iff, decide_eq_true_iff]
      omega
    · rfl

/-- **A character is read back from its bytes.** -/
theorem front_encode (c : Char) (rest : List UInt8) :
    front (String.utf8EncodeChar c ++ rest) = .char c rest := by
  have hvalid : c.val.toNat < 0xD800 ∨ 0xDFFF < c.val.toNat ∧ c.val.toNat < 0x110000 := c.valid
  have hc : Char.ofNat c.val.toNat = c := Char.ofNat_toNat c
  unfold String.utf8EncodeChar
  generalize c.val.toNat = v at hvalid hc
  have hbyte : ∀ n, n < 256 → (UInt8.ofNat n).toNat = n := fun n h => UInt8.toNat_ofNat_of_lt' h
  have hrange : ∀ low n high : Nat, (decide (low ≤ n) && decide (n ≤ high)) = true ↔
      low ≤ n ∧ n ≤ high := by simp
  dsimp only
  split
  · simp only [List.cons_append, List.nil_append, front]
    rw [hbyte v (by omega), if_pos (by omega), continuing, hc]
  · split
    · simp only [List.cons_append, List.nil_append, front]
      rw [hbyte (v / 64 % 32 + 192) (by omega), if_neg (by omega), if_pos ((hrange _ _ _).2 (by omega)),
        continuing_cons _ _ _ _ _ (isContinuation_ofNat _), continuing]
      rw [← hc]
      congr 2
      omega
    · split
      · simp only [List.cons_append, List.nil_append, front]
        rw [hbyte (v / 4096 % 16 + 224) (by omega), if_neg (by omega),
          if_neg (mt (hrange _ _ _).1 (by omega)), if_pos ((hrange _ _ _).2 (by omega)),
          continuing_cons _ _ _ _ _ (secondOfThree_ofNat (by omega) (by omega)),
          continuing_cons _ _ _ _ _ (isContinuation_ofNat _), continuing]
        rw [← hc]
        congr 2
        omega
      · simp only [List.cons_append, List.nil_append, front]
        rw [hbyte (v / 262144 % 8 + 240) (by omega), if_neg (by omega),
          if_neg (mt (hrange _ _ _).1 (by omega)), if_neg (mt (hrange _ _ _).1 (by omega)),
          if_pos ((hrange _ _ _).2 (by omega)),
          continuing_cons _ _ _ _ _ (secondOfFour_ofNat (by omega) (by omega)),
          continuing_cons _ _ _ _ _ (isContinuation_ofNat _),
          continuing_cons _ _ _ _ _ (isContinuation_ofNat _), continuing]
        rw [← hc]
        congr 2
        omega

theorem decodeFrom_encode (index : Nat) (read text : Text) :
    decodeFrom index read (encode text) = .ok (read.reverse ++ text) := by
  induction text generalizing index read with
  | nil =>
    rw [encode, List.flatMap_nil, decodeFrom, List.append_nil]
    rfl
  | cons c text ih =>
    have hfront : front (encode (c :: text)) = .char c (encode text) := front_encode c _
    unfold decodeFrom
    split
    · simp_all
    · rename_i h
      rw [hfront] at h
      cases h
      rw [ih]
      simp
    · simp_all
    · simp_all

/-- **A text is read back from its bytes.** -/
theorem decode_encode (text : Text) : decode (encode text) = .ok text :=
  decodeFrom_encode 0 [] text

/-- A character that needs one more byte is read on if the byte passes its test. -/
theorem exists_of_continuing_cons {value width : Nat} {test : UInt8 → Bool}
    {tests : List (UInt8 → Bool)} {bytes rest : List UInt8} {c : Char}
    (h : continuing value width (test :: tests) bytes = .char c rest) :
    ∃ byte more, bytes = byte :: more ∧ test byte = true ∧
      continuing (extend value byte) (width + 1) tests more = .char c rest := by
  cases bytes with
  | nil => simp [continuing] at h
  | cons byte more =>
    simp only [continuing] at h
    split at h
    · exact ⟨byte, more, rfl, ‹_›, h⟩
    · simp at h

theorem eq_of_continuing_nil {value width : Nat} {bytes rest : List UInt8} {c : Char}
    (h : continuing value width [] bytes = .char c rest) : c = Char.ofNat value ∧ bytes = rest := by
  simp only [continuing, Front.char.injEq] at h
  exact ⟨h.1.symm, h.2⟩

/-- The bytes of the character with a number. -/
theorem utf8EncodeChar_ofNat {v : Nat} (h : v.isValidChar) :
    String.utf8EncodeChar (Char.ofNat v) =
      if v ≤ 127 then [UInt8.ofNat v]
      else if v ≤ 2047 then [UInt8.ofNat (v / 64 % 32 + 192), UInt8.ofNat (v % 64 + 128)]
      else if v ≤ 65535 then
        [UInt8.ofNat (v / 4096 % 16 + 224), UInt8.ofNat (v / 64 % 64 + 128), UInt8.ofNat (v % 64 + 128)]
      else
        [UInt8.ofNat (v / 262144 % 8 + 240), UInt8.ofNat (v / 4096 % 64 + 128),
          UInt8.ofNat (v / 64 % 64 + 128), UInt8.ofNat (v % 64 + 128)] := by
  have hv : (Char.ofNat v).val.toNat = v := by
    rw [Char.ofNat, dif_pos h]
    rfl
  simp only [String.utf8EncodeChar, hv]

/-- A byte is determined by its number. -/
theorem ofNat_eq_byte (byte : UInt8) {n : Nat} (h : n = byte.toNat) : UInt8.ofNat n = byte := by
  rw [h, UInt8.ofNat_toNat]

theorem range_of_isContinuation {byte : UInt8} (h : isContinuation byte = true) :
    128 ≤ byte.toNat ∧ byte.toNat ≤ 191 := by
  simpa [isContinuation] using h

/-- The second byte of a character of three bytes continues it, and leaves out what has a shorter form
and the surrogates. -/
theorem range_of_secondOfThree {first second : UInt8} (h : secondOfThree first second = true) :
    (128 ≤ second.toNat ∧ second.toNat ≤ 191) ∧ (first.toNat = 224 → 160 ≤ second.toNat) ∧
      (first.toNat = 237 → second.toNat ≤ 159) := by
  unfold secondOfThree isContinuation at h
  split at h
  · simp only [Bool.and_eq_true, decide_eq_true_eq] at h
    omega
  · split at h
    · simp only [Bool.and_eq_true, decide_eq_true_eq] at h
      omega
    · simp only [Bool.and_eq_true, decide_eq_true_eq] at h
      omega

/-- The second byte of a character of four bytes continues it, and leaves out what has a shorter form and
what is beyond the last character. -/
theorem range_of_secondOfFour {first second : UInt8} (h : secondOfFour first second = true) :
    (128 ≤ second.toNat ∧ second.toNat ≤ 191) ∧ (first.toNat = 240 → 144 ≤ second.toNat) ∧
      (first.toNat = 244 → second.toNat ≤ 143) := by
  unfold secondOfFour isContinuation at h
  split at h
  · simp only [Bool.and_eq_true, decide_eq_true_eq] at h
    omega
  · split at h
    · simp only [Bool.and_eq_true, decide_eq_true_eq] at h
      omega
    · simp only [Bool.and_eq_true, decide_eq_true_eq] at h
      omega

/-- **The bytes of a character are those it was read from.** -/
theorem encode_of_front {bytes rest : List UInt8} {c : Char} (h : front bytes = .char c rest) :
    String.utf8EncodeChar c ++ rest = bytes := by
  cases bytes with
  | nil => simp [front] at h
  | cons first bytes =>
    have hrange : ∀ low n high : Nat, (decide (low ≤ n) && decide (n ≤ high)) = true ↔
        low ≤ n ∧ n ≤ high := by simp
    simp only [front, hrange] at h
    split at h
    · obtain ⟨rfl, rfl⟩ := eq_of_continuing_nil h
      rw [utf8EncodeChar_ofNat (.inl (by omega)), if_pos (by omega), ofNat_eq_byte first rfl]
      rfl
    · split at h
      · obtain ⟨second, more, rfl, hsecond, h⟩ := exists_of_continuing_cons h
        obtain ⟨rfl, rfl⟩ := eq_of_continuing_nil h
        have := range_of_isContinuation hsecond
        unfold extend
        rw [utf8EncodeChar_ofNat (.inl (by omega)), if_neg (by omega), if_pos (by omega),
          ofNat_eq_byte first (by omega), ofNat_eq_byte second (by omega)]
        rfl
      · split at h
        · obtain ⟨second, more, rfl, hsecond, h⟩ := exists_of_continuing_cons h
          obtain ⟨third, more, rfl, hthird, h⟩ := exists_of_continuing_cons h
          obtain ⟨rfl, rfl⟩ := eq_of_continuing_nil h
          have := range_of_secondOfThree hsecond
          have := range_of_isContinuation hthird
          unfold extend
          rw [utf8EncodeChar_ofNat (by unfold Nat.isValidChar; omega), if_neg (by omega),
            if_neg (by omega), if_pos (by omega), ofNat_eq_byte first (by omega),
            ofNat_eq_byte second (by omega), ofNat_eq_byte third (by omega)]
          rfl
        · split at h
          · obtain ⟨second, more, rfl, hsecond, h⟩ := exists_of_continuing_cons h
            obtain ⟨third, more, rfl, hthird, h⟩ := exists_of_continuing_cons h
            obtain ⟨fourth, more, rfl, hfourth, h⟩ := exists_of_continuing_cons h
            obtain ⟨rfl, rfl⟩ := eq_of_continuing_nil h
            have := range_of_secondOfFour hsecond
            have := range_of_isContinuation hthird
            have := range_of_isContinuation hfourth
            unfold extend
            rw [utf8EncodeChar_ofNat (by unfold Nat.isValidChar; omega), if_neg (by omega),
              if_neg (by omega), if_neg (by omega), ofNat_eq_byte first (by omega),
              ofNat_eq_byte second (by omega), ofNat_eq_byte third (by omega),
              ofNat_eq_byte fourth (by omega)]
            rfl
          · simp at h

theorem continuing_ne_done (value width : Nat) (tests : List (UInt8 → Bool)) (bytes : List UInt8) :
    continuing value width tests bytes ≠ .done := by
  induction tests generalizing value width bytes with
  | nil => simp [continuing]
  | cons test tests ih =>
    cases bytes with
    | nil => simp [continuing]
    | cons byte bytes =>
      rw [continuing]
      split
      · exact ih _ _ _
      · simp

theorem eq_nil_of_front {bytes : List UInt8} (h : front bytes = .done) : bytes = [] := by
  cases bytes with
  | nil => rfl
  | cons first bytes =>
    simp only [front] at h
    split at h
    · exact absurd h (continuing_ne_done _ _ _ _)
    · split at h
      · exact absurd h (continuing_ne_done _ _ _ _)
      · split at h
        · exact absurd h (continuing_ne_done _ _ _ _)
        · split at h
          · exact absurd h (continuing_ne_done _ _ _ _)
          · cases h

theorem encode_of_decodeFrom {index : Nat} {read text : Text} {bytes : List UInt8}
    (h : decodeFrom index read bytes = .ok text) : encode text = encode read.reverse ++ bytes := by
  fun_induction decodeFrom index read bytes with
  | case1 index read bytes hfront =>
    cases h
    rw [eq_nil_of_front hfront, List.append_nil]
  | case2 index read bytes c rest hfront ih =>
    rw [ih h, ← encode_of_front hfront]
    simp [encode]
  | case3 => cases h
  | case4 => cases h

/-- **Bytes that are read as a text are the bytes of that text.** -/
theorem encode_of_decode {bytes : List UInt8} {text : Text} (h : decode bytes = .ok text) :
    encode text = bytes :=
  encode_of_decodeFrom h

/-- The wording of a fault. -/
def Fault.message : Fault → Text
  | .incomplete index =>
    "incomplete utf-8 byte sequence from index ".toList ++ (toString index).toList
  | .invalid width index =>
    "invalid utf-8 sequence of ".toList ++ (toString width).toList ++ " bytes from index ".toList
      ++ (toString index).toList

end Utf8
end ScriptUpgrade
