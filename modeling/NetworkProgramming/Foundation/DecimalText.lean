import NetworkProgramming.Foundation.MachineInt

/-!
# Reading decimal text back

`readDecimal` takes a number from the front of a text.  It inverts `decimal`
when the text goes on with something that is not a digit, so that numbers need
no separator but that.
-/

namespace MachineInt

/-- The digits at the front and the rest. -/
def readDigits (text : List Byte) : Option (Nat × List Byte) :=
  if text.takeWhile isDigit = [] then none
  else some (leadingNumber text, text.dropWhile isDigit)

/-- A sign and the digits behind it. -/
def readDecimal : List Byte → Option (Int × List Byte)
  | [] => none
  | sign :: rest =>
      if sign = ascii '-' then
        (readDigits rest).map fun read => (-(read.1 : Int), read.2)
      else (readDigits (sign :: rest)).map fun read => ((read.1 : Int), read.2)

/-- The text ends or goes on with something that is not a digit. -/
def StopsDigits (text : List Byte) : Prop := ∀ byte ∈ text.head?, isDigit byte = false

instance (text : List Byte) : Decidable (StopsDigits text) :=
  inferInstanceAs (Decidable (∀ byte ∈ text.head?, isDigit byte = false))

/-! ## The digits that are printed -/

theorem sign_or_isDigit_of_mem_decimal {number : Int} {byte : Byte}
    (member : byte ∈ decimal number) : byte = ascii '-' ∨ isDigit byte = true := by
  unfold decimal at member
  split at member
  · rcases List.mem_cons.mp member with sign | digit
    · exact .inl sign
    · exact .inr (isDigit_of_mem_decimalDigits digit)
  · exact .inr (isDigit_of_mem_decimalDigits member)

theorem decimalDigits_ne_nil (number : Nat) : decimalDigits number ≠ [] := by
  unfold decimalDigits
  split
  · simp
  · rename_i nonzero
    simpa [Nat.digits_eq_nil_iff_eq_zero] using nonzero

theorem decimal_ne_nil (number : Int) : decimal number ≠ [] := by
  unfold decimal
  split
  · simp
  · exact decimalDigits_ne_nil _

theorem takeWhile_decimalDigits {number : Nat} {rest : List Byte}
    (stops : StopsDigits rest) :
    (decimalDigits number ++ rest).takeWhile isDigit = decimalDigits number := by
  rw [List.takeWhile_append_of_pos fun byte member =>
    isDigit_of_mem_decimalDigits member]
  cases rest with
  | nil => simp
  | cons byte rest =>
      have stop := stops byte rfl
      rw [List.takeWhile_cons_of_neg (by simp [stop]), List.append_nil]

theorem dropWhile_decimalDigits {number : Nat} {rest : List Byte}
    (stops : StopsDigits rest) :
    (decimalDigits number ++ rest).dropWhile isDigit = rest := by
  rw [List.dropWhile_append_of_pos fun byte member =>
    isDigit_of_mem_decimalDigits member]
  cases rest with
  | nil => rfl
  | cons byte rest =>
      have stop := stops byte rfl
      rw [List.dropWhile_cons_of_neg (by simp [stop])]

theorem foldl_decimalDigits (number : Nat) :
    (decimalDigits number).foldl
      (fun value digit => 10 * value + (digit.toNat - 48)) 0 = number := by
  by_cases zero : number = 0
  · subst number
    decide
  · have spelled : ∀ digits : List Nat, (∀ digit ∈ digits, digit < 10) →
        ((digits.reverse.map fun digit => BitVec.ofNat 8 (48 + digit)).foldl
          (fun value digit => 10 * value + (digit.toNat - 48)) 0) =
            Nat.ofDigits 10 digits := by
      intro digits small
      induction digits with
      | nil => rfl
      | cons digit digits induction =>
          have head := (isDigit_decimalDigit (small digit (by simp))).2
          have tail := induction fun later member => small later (by simp [member])
          rw [List.reverse_cons, List.map_append, List.foldl_append, tail,
            List.map_singleton, List.foldl_cons, List.foldl_nil, head,
            Nat.ofDigits_cons]
          omega
    rw [decimalDigits, if_neg zero, spelled _ fun digit member =>
      Nat.digits_lt_base (by norm_num) member, Nat.ofDigits_digits]

/-! ## Reading inverts printing -/

theorem readDigits_decimalDigits {number : Nat} {rest : List Byte}
    (stops : StopsDigits rest) :
    readDigits (decimalDigits number ++ rest) = some (number, rest) := by
  rw [readDigits, takeWhile_decimalDigits stops, if_neg (decimalDigits_ne_nil number),
    dropWhile_decimalDigits stops, leadingNumber, takeWhile_decimalDigits stops,
    foldl_decimalDigits]

theorem readDecimal_decimal (number : Int) {rest : List Byte}
    (stops : StopsDigits rest) :
    readDecimal (decimal number ++ rest) = some (number, rest) := by
  unfold decimal
  split <;> rename_i negative
  · rw [List.cons_append, readDecimal, if_pos rfl, readDigits_decimalDigits stops,
      Option.map_some]
    congr 2
    omega
  · obtain ⟨first, digits, shape⟩ :=
      List.exists_cons_of_ne_nil (decimalDigits_ne_nil number.natAbs)
    have digit : isDigit first = true :=
      @isDigit_of_mem_decimalDigits number.natAbs first (by rw [shape]; simp)
    have notSign : first ≠ ascii '-' := by
      rintro rfl
      exact absurd digit (by decide)
    have read := @readDigits_decimalDigits number.natAbs rest stops
    rw [shape, List.cons_append] at read ⊢
    rw [readDecimal, if_neg notSign, read, Option.map_some]
    congr 2
    omega

end MachineInt
