import NetworkProgramming.Calculator
import NetworkProgramming.Foundation.Strtok

/-!
# The expression of a line of tokens

`hw8_client` and `test_serv` take a line apart with `strtok`: a count, that many
operands, then one operator fewer.  Its formula is hardly longer than the line:
an operand prints at most one byte more than its token has, and a token is
followed by a space that is not printed.
-/

namespace NetworkProgramming.Hw8

open MachineInt Strtok

def lineExpression (atoi : List Byte → Word) (operands operators : List (List Byte)) :
    Expression where
  first := atoi (operands.headD [])
  steps := (operators.zip operands.tail).map fun step =>
    (step.1.headD 0#8, atoi step.2)

section lineExpression

variable {atoi : List Byte → Word} {operands operators : List (List Byte)}

theorem operands_lineExpression (positive : 1 ≤ operands.length)
    (fewer : operators.length = operands.length - 1) :
    (lineExpression atoi operands operators).operands = operands.map atoi := by
  obtain ⟨first, rest, rfl⟩ := List.exists_cons_of_length_pos positive
  have same : operators.length = rest.length := by simpa using fewer
  have seconds : (operators.zip rest).map Prod.snd = rest :=
    List.map_snd_zip (by omega)
  simp only [Expression.operands, lineExpression, List.headD_cons, List.tail_cons,
    List.map_map, List.map_cons, List.cons.injEq, true_and]
  nth_rewrite 2 [← seconds]
  rw [List.map_map]
  rfl

theorem operators_lineExpression (fewer : operators.length = operands.length - 1) :
    (lineExpression atoi operands operators).operators =
      operators.map (·.headD 0#8) := by
  have firsts : (operators.zip operands.tail).map Prod.fst = operators :=
    List.map_fst_zip (by rw [List.length_tail]; omega)
  simp only [Expression.operators, lineExpression, List.map_map]
  nth_rewrite 2 [← firsts]
  rw [List.map_map]
  rfl

theorem count_lineExpression (positive : 1 ≤ operands.length)
    (fewer : operators.length = operands.length - 1) :
    (lineExpression atoi operands operators).count = operands.length := by
  rw [← Expression.length_operands, operands_lineExpression positive fewer,
    List.length_map]

end lineExpression

/-- The expression of a line that declares `opCount` operands: that many of the
tokens behind the count, then one operator fewer.  Further tokens are not
looked at. -/
def foundExpression (atoi : List Byte → Word) (opCount : Nat)
    (found : List (List Byte)) : Expression :=
  lineExpression atoi (found.take opCount) ((found.drop opCount).take (opCount - 1))

/-- The line has the operands and operators that it declares. -/
def Supplied (opCount : Int) (found : List (List Byte)) : Prop :=
  1 ≤ opCount ∧ opCount ≤ 127 ∧ 2 * opCount - 1 ≤ found.length

/-! ## Its text -/

/-- `%d` of an operand prints at most one character more than its token has. -/
def PrintsShort (atoi : List Byte → Word) : Prop :=
  ∀ token, token ≠ [] → (decimal (atoi token).toInt).length ≤ token.length + 1

theorem printsShort_of_isAtoi {atoi : List Byte → Word} (reads : IsAtoi atoi) :
    PrintsShort atoi := fun _ nonempty => reads.length_decimal_le nonempty

section text

variable {atoi : List Byte → Word} {operands operators found : List (List Byte)}
  {counted : List Byte} {opCount : Nat}

theorem plain_lineExpression (nonempty : ∀ token ∈ operators, token ≠ [])
    (plain : ∀ token ∈ operators, 0#8 ∉ token) :
    ∀ operator ∈ (lineExpression atoi operands operators).operators,
      operator ≠ 0#8 := by
  intro operator member
  simp only [Expression.operators, lineExpression, List.map_map, List.mem_map,
    Function.comp_apply] at member
  obtain ⟨⟨token, operand⟩, pair, rfl⟩ := member
  have isToken := (List.of_mem_zip pair).1
  obtain ⟨first, rest, rfl⟩ := List.exists_cons_of_ne_nil (nonempty token isToken)
  have inside := plain _ isToken
  rintro rfl
  exact inside (by simp)

theorem length_text_lineExpression_le (prints : PrintsShort atoi)
    (positive : 1 ≤ operands.length) (fewer : operators.length = operands.length - 1)
    (nonempty : ∀ token ∈ operands ++ operators, token ≠ [])
    (plain : ∀ token ∈ operators, 0#8 ∉ token) :
    (lineExpression atoi operands operators).text.length + operators.length ≤
      ((operands ++ operators).map fun token => token.length + 1).sum := by
  have operandTotal : (operands.map fun token =>
      (decimal (atoi token).toInt).length).sum ≤
        (operands.map fun token => token.length + 1).sum :=
    List.sum_le_sum fun token member => prints token (nonempty token (by simp [member]))
  have operatorTotal : operators.length * 2 ≤
      (operators.map fun token => token.length + 1).sum := by
    have two := List.card_nsmul_le_sum
      (operators.map fun token => token.length + 1) 2 (by
        intro length member
        obtain ⟨token, isToken, rfl⟩ := List.mem_map.mp member
        have := List.length_pos_iff.mpr (nonempty token (by simp [isToken]))
        omega)
    simpa using two
  have length := Expression.length_text (@plain_lineExpression atoi operands operators
    (fun token member => nonempty token (by simp [member])) plain)
  rw [operands_lineExpression positive fewer, operators_lineExpression fewer,
    List.map_map, List.length_map] at length
  simp only [Function.comp_def] at length
  rw [List.map_append, List.sum_append]
  omega

theorem length_foundOperands (enough : 2 * opCount - 1 ≤ found.length) :
    (found.take opCount).length = opCount ∧
      ((found.drop opCount).take (opCount - 1)).length = opCount - 1 := by
  simp only [List.length_take, List.length_drop]
  omega

theorem count_foundExpression (positive : 1 ≤ opCount)
    (enough : 2 * opCount - 1 ≤ found.length) :
    (foundExpression atoi opCount found).count = opCount := by
  obtain ⟨operandCount, operatorCount⟩ := length_foundOperands enough
  rw [foundExpression, count_lineExpression (by omega) (by omega), operandCount]

theorem plain_foundExpression (nonempty : ∀ token ∈ found, token ≠ [])
    (plain : ∀ token ∈ found, 0#8 ∉ token) :
    ∀ operator ∈ (foundExpression atoi opCount found).operators, operator ≠ 0#8 := by
  have part {token : List Byte}
      (member : token ∈ (found.drop opCount).take (opCount - 1)) : token ∈ found :=
    List.mem_of_mem_drop (List.mem_of_mem_take member)
  exact plain_lineExpression (fun token member => nonempty token (part member))
    (fun token member => plain token (part member))

/-- With `n` operands the text is shorter than the line by more than `n`. -/
theorem length_text_foundExpression_lt {size : Nat} (prints : PrintsShort atoi)
    (nonempty : ∀ token ∈ counted :: found, token ≠ [])
    (plain : ∀ token ∈ found, 0#8 ∉ token)
    (total : ((counted :: found).map fun token => token.length + 1).sum ≤ size)
    (positive : 1 ≤ opCount) (enough : 2 * opCount - 1 ≤ found.length) :
    (foundExpression atoi opCount found).text.length + opCount < size := by
  obtain ⟨operandCount, operatorCount⟩ := length_foundOperands enough
  have parts : found = found.take opCount ++ (found.drop opCount).take (opCount - 1) ++
      (found.drop opCount).drop (opCount - 1) := by
    rw [List.append_assoc, List.take_append_drop, List.take_append_drop]
  have bound := length_text_lineExpression_le prints (by omega)
    (by omega : ((found.drop opCount).take (opCount - 1)).length =
      (found.take opCount).length - 1)
    (fun token member => nonempty token (List.mem_cons_of_mem _ (by
      rw [parts]
      exact List.mem_append_left _ member)))
    (fun token member => plain token
      (List.mem_of_mem_drop (List.mem_of_mem_take member)))
  have countToken := List.length_pos_iff.mpr (nonempty counted (by simp))
  rw [parts, List.map_cons, List.sum_cons, List.map_append, List.sum_append] at total
  rw [foundExpression]
  omega

end text

end NetworkProgramming.Hw8
