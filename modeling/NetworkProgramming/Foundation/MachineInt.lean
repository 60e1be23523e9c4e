import Mathlib.Data.Nat.Digits.Lemmas
import Mathlib.Data.List.TakeWhile
import Mathlib.Data.BitVec

/-!
# Bytes, machine integers and their decimal text

A `char` is eight bits and an `int` is thirty-two, stored with the low byte
first.  Arithmetic on words wraps.  `decimal` is the text that the `%d`
conversion of `sprintf` produces.
-/

namespace MachineInt

abbrev Byte := BitVec 8

abbrev Word := BitVec 32

def ascii (character : Char) : Byte := BitVec.ofNat 8 character.toNat

/-- The bytes of a string literal, without its NUL. -/
def literal (text : String) : List Byte := text.toList.map ascii

def Word.toBytes (word : Word) : List Byte :=
  [word.extractLsb' 0 8, word.extractLsb' 8 8, word.extractLsb' 16 8,
    word.extractLsb' 24 8]

/-- The `int` that four bytes in memory hold. -/
def Word.ofBytes : List Byte → Word
  | [first, second, third, fourth] => fourth ++ third ++ second ++ first
  | _ => 0

@[simp] theorem Word.length_toBytes (word : Word) :
    (Word.toBytes word).length = 4 := rfl

@[simp] theorem Word.ofBytes_toBytes (word : Word) :
    Word.ofBytes (Word.toBytes word) = word := by
  simp only [Word.toBytes, Word.ofBytes]
  ext index bound
  simp
  grind

theorem Word.toBytes_ofBytes {bytes : List Byte} (length : bytes.length = 4) :
    Word.toBytes (Word.ofBytes bytes) = bytes := by
  obtain ⟨first, second, third, fourth, rfl⟩ :
      ∃ first second third fourth, bytes = [first, second, third, fourth] := by
    match bytes, length with
    | [first, second, third, fourth], _ => exact ⟨first, second, third, fourth, rfl⟩
  simp only [Word.ofBytes, Word.toBytes, List.cons.injEq, and_true]
  refine ⟨?_, ?_, ?_, ?_⟩ <;>
    · ext index bound
      simp
      grind

theorem Word.toBytes_injective : Function.Injective Word.toBytes := by
  intro left right equality
  simpa using congrArg Word.ofBytes equality

theorem toInt_ofNat_char {count : Nat} (small : count ≤ 127) :
    (BitVec.ofNat 8 count).toInt = count := by
  have value : (BitVec.ofNat 8 count).toNat = count := by
    simp
    omega
  rw [BitVec.toInt_eq_toNat_cond, value]
  simp
  omega

/-- An `int` passed as a `size_t`. -/
def sizeT (value : Int) : Nat := (BitVec.ofInt 64 value).toNat

theorem sizeT_natCast {length : Nat} (small : length < 2 ^ 64) :
    sizeT length = length := by
  rw [sizeT, BitVec.ofInt_natCast, BitVec.toNat_ofNat, Nat.mod_eq_of_lt small]

def isDigit (byte : Byte) : Bool := 48 ≤ byte.toNat && byte.toNat ≤ 57

/-- Decimal digits of a natural number, most significant first. -/
def decimalDigits (number : Nat) : List Byte :=
  if number = 0 then [ascii '0']
  else (Nat.digits 10 number).reverse.map fun digit => BitVec.ofNat 8 (48 + digit)

def decimal (number : Int) : List Byte :=
  if number < 0 then ascii '-' :: decimalDigits number.natAbs
  else decimalDigits number.natAbs

theorem length_decimalDigits_le {number width : Nat}
    (positive : 0 < width) (small : number < 10 ^ width) :
    (decimalDigits number).length ≤ width := by
  unfold decimalDigits
  split
  · simp
    omega
  · simpa using (Nat.digits_length_le_iff (by norm_num) number).mpr small

theorem length_decimal_le {number : Int} {width : Nat} (positive : 0 < width)
    (small : number.natAbs < 10 ^ width) : (decimal number).length ≤ width + 1 := by
  have digits := length_decimalDigits_le positive small
  unfold decimal
  split
  · simpa using digits
  · omega

theorem length_decimal_word_le (word : Word) :
    (decimal word.toInt).length ≤ 11 := by
  have lower := BitVec.le_toInt word
  have upper := @BitVec.toInt_lt 32 word
  exact length_decimal_le (by norm_num) (by omega : word.toInt.natAbs < 10 ^ 10)

theorem length_decimal_char_le (char : Byte) : (decimal char.toInt).length ≤ 4 := by
  have lower := BitVec.le_toInt char
  have upper := @BitVec.toInt_lt 8 char
  exact length_decimal_le (by norm_num) (by omega : char.toInt.natAbs < 10 ^ 3)

theorem isDigit_decimalDigit {digit : Nat} (small : digit < 10) :
    isDigit (BitVec.ofNat 8 (48 + digit)) = true ∧
      (BitVec.ofNat 8 (48 + digit)).toNat - 48 = digit := by
  have value : (BitVec.ofNat 8 (48 + digit)).toNat = 48 + digit := by
    rw [BitVec.toNat_ofNat]
    omega
  simp only [isDigit, value, Bool.and_eq_true, decide_eq_true_eq]
  omega

theorem isDigit_of_mem_decimalDigits {number : Nat} {byte : Byte}
    (member : byte ∈ decimalDigits number) : isDigit byte = true := by
  unfold decimalDigits at member
  split at member
  · obtain rfl := List.mem_singleton.mp member
    decide
  · obtain ⟨digit, isDigit, rfl⟩ := List.mem_map.mp member
    exact (isDigit_decimalDigit
      (Nat.digits_lt_base (by norm_num) (List.mem_reverse.mp isDigit))).1

theorem decimalDigit_ne_zero {number : Nat} {byte : Byte}
    (member : byte ∈ decimalDigits number) : byte ≠ 0#8 := by
  have digit := isDigit_of_mem_decimalDigits member
  rintro rfl
  exact absurd digit (by decide)

theorem zero_notMem_decimal (number : Int) : 0#8 ∉ decimal number := by
  intro member
  unfold decimal at member
  split at member
  · rcases List.mem_cons.mp member with sign | digit
    · exact absurd sign (by decide)
    · exact decimalDigit_ne_zero digit rfl
  · exact decimalDigit_ne_zero member rfl

/-! ## Reading decimal text -/

def isSpace (byte : Byte) : Bool :=
  byte = ascii ' ' || byte = ascii '\t' || byte = ascii '\n' ||
    byte = 11#8 || byte = 12#8 || byte = 13#8

/-- The number at the front of a text, zero when there is none. -/
def leadingNumber (text : List Byte) : Nat :=
  (text.takeWhile isDigit).foldl (fun number digit =>
    10 * number + (digit.toNat - 48)) 0

/-- The number a text spells: blanks, a sign and digits. -/
def numberOf (text : List Byte) : Int :=
  match text.dropWhile isSpace with
  | [] => 0
  | sign :: rest =>
      if sign = ascii '-' then -(leadingNumber rest : Int)
      else if sign = ascii '+' then leadingNumber rest
      else leadingNumber (sign :: rest)

/-- `atoi`, with numbers out of range taken modulo `2 ^ 32`. -/
def atoi (text : List Byte) : Word := BitVec.ofInt 32 (numberOf text)

/-- What the standard says of `atoi`: a number in the range of `int` is
returned, and nothing is said of any other. -/
structure IsAtoi (atoi : List Byte → Word) : Prop where
  inRange : ∀ text, -2147483648 ≤ numberOf text → numberOf text < 2147483648 →
    (atoi text).toInt = numberOf text

theorem isAtoi_atoi : IsAtoi atoi where
  inRange text lower upper := BitVec.toInt_ofInt_eq_self (by norm_num) lower upper

private theorem foldl_digits_lt {digits : List Byte}
    (allDigits : ∀ digit ∈ digits, isDigit digit = true) {start bound : Nat}
    (small : start < bound) :
    digits.foldl (fun number digit => 10 * number + (digit.toNat - 48)) start <
      bound * 10 ^ digits.length := by
  induction digits generalizing start bound with
  | nil => simpa using small
  | cons digit digits induction =>
      have isDigit := allDigits digit (by simp)
      simp only [MachineInt.isDigit, Bool.and_eq_true, decide_eq_true_eq] at isDigit
      have next : 10 * start + (digit.toNat - 48) < bound * 10 := by omega
      have tail := induction
        (fun later member => allDigits later (by simp [member])) next
      rwa [List.length_cons, Nat.pow_succ', ← Nat.mul_assoc]

theorem leadingNumber_lt (text : List Byte) :
    leadingNumber text < 10 ^ text.length := by
  have digits : ∀ digit ∈ text.takeWhile isDigit, isDigit digit = true :=
    fun digit member => List.mem_takeWhile_imp member
  have shorter : (text.takeWhile isDigit).length ≤ text.length :=
    (List.takeWhile_sublist _).length_le
  have bound := foldl_digits_lt digits Nat.zero_lt_one
  rw [Nat.one_mul] at bound
  exact lt_of_lt_of_le bound (Nat.pow_le_pow_right (by norm_num) shorter)

theorem length_decimal_natCast_le {number width : Nat} (positive : 0 < width)
    (small : number < 10 ^ width) :
    (decimal (number : Int)).length ≤ width := by
  unfold decimal
  rw [if_neg (by omega), Int.natAbs_natCast]
  exact length_decimalDigits_le positive small

theorem length_decimal_neg_le {number width : Nat} (small : number < 10 ^ width) :
    (decimal (-(number : Int))).length ≤ width + 1 := by
  by_cases zero : number = 0
  · subst number
    exact (@length_decimal_natCast_le 0 1 (by norm_num) (by norm_num)).trans (by omega)
  · have positive : 0 < width := by
      by_contra none
      obtain rfl : width = 0 := by omega
      simp at small
      exact zero small
    unfold decimal
    rw [if_pos (by omega), List.length_cons, Int.natAbs_neg, Int.natAbs_natCast]
    have digits := length_decimalDigits_le positive small
    omega

/-- A token of fewer than ten characters spells a number that is in range and
prints no longer than the token. -/
theorem numberOf_short {text : List Byte} (nonempty : text ≠ [])
    (short : text.length < 10) :
    (decimal (numberOf text)).length ≤ text.length ∧
      -2147483648 ≤ numberOf text ∧ numberOf text < 2147483648 := by
  have textPositive := List.length_pos_iff.mpr nonempty
  have shorter : (text.dropWhile isSpace).length ≤ text.length :=
    (List.dropWhile_sublist _).length_le
  have range {number width : Nat} (small : number < 10 ^ width)
      (bound : width < 10) : number < 1000000000 :=
    lt_of_lt_of_le small
      (Nat.pow_le_pow_right (by norm_num) (by omega : width ≤ 9))
  unfold numberOf
  split <;> rename_i shape
  · have zero : decimal 0 = [ascii '0'] := by decide
    rw [zero]
    exact ⟨textPositive, by norm_num, by norm_num⟩
  · rename_i sign rest
    rw [shape, List.length_cons] at shorter
    have small := leadingNumber_lt rest
    have restRange := range small (by omega)
    split_ifs
    · exact ⟨(length_decimal_neg_le small).trans shorter, by omega, by omega⟩
    · have wider : leadingNumber rest < 10 ^ (rest.length + 1) :=
        lt_of_lt_of_le small (Nat.pow_le_pow_right (by norm_num) (by omega))
      exact ⟨(length_decimal_natCast_le (by omega) wider).trans shorter, by omega,
        by omega⟩
    · have whole := leadingNumber_lt (sign :: rest)
      have wholeRange := range whole (by simp; omega)
      exact ⟨(length_decimal_natCast_le (by simp) whole).trans shorter, by omega,
        by omega⟩

theorem IsAtoi.length_decimal_le {atoi : List Byte → Word} (reads : IsAtoi atoi)
    {text : List Byte} (nonempty : text ≠ []) :
    (decimal (atoi text).toInt).length ≤ text.length + 1 := by
  by_cases short : text.length < 10
  · obtain ⟨bound, lower, upper⟩ := numberOf_short nonempty short
    rw [reads.inRange text lower upper]
    omega
  · have word := length_decimal_word_le (atoi text)
    omega

end MachineInt
