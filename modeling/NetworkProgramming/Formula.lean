import NetworkProgramming.Calculator
import NetworkProgramming.Foundation.DecimalText
import NetworkProgramming.Foundation.Stdio

/-!
# Reading a formula back

The text of a computation has no separators, and a minus sign stands both for
an operator and in front of a number.  It can still be read in one way only: an
operand ends where its digits end, and what follows is then an operator or the
equals sign.
-/

namespace NetworkProgramming

open MachineInt Stdio

/-- The characters for which the `switch` has a case. -/
def Applied (operator : Byte) : Prop :=
  operator = ascii '+' ∨ operator = ascii '-' ∨ operator = ascii '*'

instance : DecidablePred Applied := fun operator =>
  inferInstanceAs (Decidable (operator = ascii '+' ∨ operator = ascii '-' ∨
    operator = ascii '*'))

/-- What `+`, `-` and `*` make of the accumulator; nothing else is an
operation. -/
def operate (operator : Byte) (opResult operand : Word) : Option Word :=
  if operator = ascii '+' then some (opResult + operand)
  else if operator = ascii '-' then some (opResult - operand)
  else if operator = ascii '*' then some (opResult * operand)
  else none

/-- The value of a formula from left to right, if it has one. -/
def Expression.value? (expression : Expression) : Option Word :=
  expression.steps.foldlM (fun opResult step => operate step.1 opResult step.2)
    expression.first

theorem operate_eq (operator : Byte) (opResult operand : Word) :
    operate operator opResult operand =
      if Applied operator then some (applyOperator operator opResult operand) else none := by
  unfold operate applyOperator Applied
  split_ifs <;> simp_all

/-- The servers compute that value exactly when there is one. -/
theorem value?_eq_some {expression : Expression} {result : Word} :
    expression.value? = some result ↔
      (∀ operator ∈ expression.operators, Applied operator) ∧
        result = expression.value := by
  obtain ⟨first, steps⟩ := expression
  simp only [Expression.value?, Expression.operators, Expression.value]
  induction steps generalizing first with
  | nil => simp [evaluateSteps, eq_comm]
  | cons step steps induction =>
      rw [List.foldlM_cons, operate_eq]
      by_cases applied : Applied step.1
      · rw [if_pos applied, Option.bind_eq_bind, Option.bind_some, induction]
        simp [applied, evaluateSteps]
      · simp [applied]

/-! ## The parser -/

/-- Operators with their operands, as many as there are up to a limit. -/
def readSteps : Nat → List Byte → Option (List (Byte × Word) × List Byte)
  | limit + 1, operator :: text =>
      if Applied operator then do
        let operand ← readDecimal text
        let later ← readSteps limit operand.2
        return ((operator, BitVec.ofInt 32 operand.1) :: later.1, later.2)
      else some ([], operator :: text)
  | _, text => some ([], text)

/-- `"=%d\n"`, and nothing behind it. -/
def readResult : List Byte → Option Word
  | [] => none
  | equals :: text =>
      if equals = ascii '=' then do
        let result ← readDecimal text
        if result.2 = [ascii '\n'] then some (BitVec.ofInt 32 result.1) else none
      else none

/-- The expression and the result of a line `a+b*c=r`. -/
def decodeLine (text : List Byte) : Option (Expression × Word) := do
  let first ← readDecimal text
  let steps ← readSteps first.2.length first.2
  let result ← readResult steps.2
  return (⟨BitVec.ofInt 32 first.1, steps.1⟩, result)

/-- A line with what a server prints in front of it: the formula has no blank,
so it is what stands behind the last one. -/
def decodeText (text : List Byte) : Option (Expression × Word) :=
  decodeLine (behindLast (ascii ' ') text)

/-! ## It inverts the text -/

theorem stopsDigits_of_applied {operator : Byte} (applied : Applied operator)
    (text : List Byte) : StopsDigits (operator :: text) := by
  intro byte head
  cases head
  rcases applied with rfl | rfl | rfl <;> decide

theorem stopsDigits_resultText (value : Word) (text : List Byte) :
    StopsDigits (resultText value ++ text) := by
  intro byte head
  cases head
  decide

section steps

variable {steps : List (Byte × Word)}

theorem stopsDigits_steps (applied : ∀ step ∈ steps, Applied step.1) (value : Word) :
    StopsDigits (steps.flatMap stepText ++ resultText value) := by
  cases steps with
  | nil => simpa using stopsDigits_resultText value []
  | cons step steps => exact stopsDigits_of_applied (applied step (by simp)) _

theorem readSteps_flatMap (applied : ∀ step ∈ steps, Applied step.1) (value : Word)
    {limit : Nat} (enough : steps.length ≤ limit) :
    readSteps limit (steps.flatMap stepText ++ resultText value) =
      some (steps, resultText value) := by
  induction steps generalizing limit with
  | nil =>
      have equals : ¬ Applied (ascii '=') := by decide
      cases limit with
      | zero => rfl
      | succ limit =>
          rw [List.flatMap_nil, List.nil_append, resultText, List.cons_append, readSteps,
            if_neg equals]
  | cons step steps induction =>
      obtain ⟨operator, operand⟩ := step
      obtain ⟨limit, rfl⟩ : ∃ less, limit = less + 1 := by
        rw [List.length_cons] at enough
        exact ⟨limit - 1, by omega⟩
      have later : ∀ step ∈ steps, Applied step.1 := fun step member =>
        applied step (List.mem_cons_of_mem _ member)
      have read := readDecimal_decimal operand.toInt (stopsDigits_steps later value)
      have rest := @induction later limit (by simpa using enough)
      have text : ((operator, operand) :: steps).flatMap stepText ++ resultText value =
          operator :: (decimal operand.toInt ++
            (steps.flatMap stepText ++ resultText value)) := by
        simp [stepText]
      have isApplied : Applied operator := applied (operator, operand) (by simp)
      rw [text, readSteps, if_pos isApplied]
      simp only [read, rest, Option.bind_eq_bind, Option.bind_some, BitVec.ofInt_toInt,
        Option.pure_def]

theorem readResult_resultText (value : Word) :
    readResult (resultText value) = some value := by
  have newline : StopsDigits [ascii '\n'] := by decide
  have read := readDecimal_decimal value.toInt newline
  rw [resultText, List.cons_append, readResult, if_pos rfl]
  simp only [read, Option.bind_eq_bind, Option.bind_some, if_true, BitVec.ofInt_toInt]

end steps

section expression

variable {expression : Expression}

theorem applied_steps (applied : ∀ operator ∈ expression.operators, Applied operator) :
    ∀ step ∈ expression.steps, Applied step.1 := fun _ member =>
  applied _ (List.mem_map_of_mem member)

theorem plain_of_applied (applied : ∀ operator ∈ expression.operators, Applied operator) :
    ∀ operator ∈ expression.operators, operator ≠ 0#8 := by
  intro operator member zero
  exact absurd (applied operator member) (by rw [zero]; decide)

theorem line_of_applied (applied : ∀ operator ∈ expression.operators, Applied operator) :
    expression.line = decimal expression.first.toInt ++
      (expression.steps.flatMap stepText ++ resultText expression.value) := by
  rw [Expression.line, Expression.text, stepsText_of_plain fun step member =>
    plain_of_applied applied step.1 (List.mem_map_of_mem member), List.append_assoc]

/-- Every line of applied operators is read back as its expression and the
value of that. -/
theorem decodeLine_line (applied : ∀ operator ∈ expression.operators, Applied operator) :
    decodeLine expression.line = some (expression, expression.value) := by
  have steps := applied_steps applied
  have first := readDecimal_decimal expression.first.toInt
    (stopsDigits_steps steps expression.value)
  have enough : expression.steps.length ≤ (expression.steps.flatMap stepText ++
      resultText expression.value).length := by
    have each := List.length_le_sum_of_one_le
      (expression.steps.map fun step => (stepText step).length) (by
        intro length member
        obtain ⟨step, _, rfl⟩ := List.mem_map.mp member
        simp [stepText])
    rw [List.length_append, List.length_flatMap]
    rw [List.length_map] at each
    omega
  rw [line_of_applied applied, decodeLine]
  simp only [first, readSteps_flatMap steps expression.value enough,
    readResult_resultText, Option.bind_eq_bind, Option.bind_some, BitVec.ofInt_toInt,
    Option.pure_def]

theorem blank_notMem_line
    (applied : ∀ operator ∈ expression.operators, Applied operator) :
    ascii ' ' ∉ expression.line := by
  have number (value : Int) : ascii ' ' ∉ decimal value := by
    intro member
    rcases sign_or_isDigit_of_mem_decimal member with sign | digit
    · exact absurd sign (by decide)
    · exact absurd digit (by decide)
  have steps : ascii ' ' ∉ expression.steps.flatMap stepText := by
    intro member
    obtain ⟨step, isStep, inText⟩ := List.mem_flatMap.mp member
    rcases List.mem_cons.mp inText with operator | operand
    · exact absurd (applied_steps applied step isStep) (by rw [← operator]; decide)
    · exact number _ operand
  have equals : ascii ' ' ≠ ascii '=' := by decide
  have newline : ascii ' ' ≠ ascii '\n' := by decide
  rw [line_of_applied applied]
  simp [resultText, number, steps, equals, newline]

theorem decodeText_behind (applied : ∀ operator ∈ expression.operators, Applied operator)
    (lead : List Byte) :
    decodeText (lead ++ ascii ' ' :: expression.line) =
      some (expression, expression.value) := by
  have plain := blank_notMem_line applied
  rw [decodeText, ← List.singleton_append, ← List.append_assoc, behindLast_append,
    if_neg plain, behindLast_concat_mark, List.nil_append, decodeLine_line applied]

end expression

end NetworkProgramming
