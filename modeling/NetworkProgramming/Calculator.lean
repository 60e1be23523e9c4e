import Mathlib.Algebra.Order.BigOperators.Group.List
import Mathlib.Algebra.Order.Group.Nat
import NetworkProgramming.Foundation.CArray

/-!
# The calculator protocol

A request carries a count byte, that many four-byte operands and one operator
byte fewer.  The servers decode it in two ways: from a buffer, at the offsets
`1 + 4 * j` and `1 + 4 * n + j`, or from a stream, one read after another.
All of them run the same loop over the operators, which applies the `switch`
and, in the servers that keep the formula, prints the operator and its operand
behind the text so far.  The loop is stated once here and each server
instantiates it.
-/

namespace NetworkProgramming

open MachineInt

/-- `switch (operator)`: any other character leaves the result as it is. -/
def applyOperator (operator : Byte) (opResult operand : Word) : Word :=
  if operator = ascii '+' then opResult + operand
  else if operator = ascii '-' then opResult - operand
  else if operator = ascii '*' then opResult * operand
  else opResult

/-- What a request says: at least one operand, and an operator before each
further one. -/
structure Expression where
  first : Word
  steps : List (Byte × Word)
deriving DecidableEq

/-- `"%c%d"`. -/
def stepText (step : Byte × Word) : List Byte :=
  step.1 :: decimal step.2.toInt

/-- The string that the appended steps leave; an operator that is itself a NUL
ends the text of its step. -/
def stepsText (steps : List (Byte × Word)) : List Byte :=
  steps.flatMap fun step => cString (stepText step)

/-- `"=%d\n"`. -/
def resultText (opResult : Word) : List Byte :=
  ascii '=' :: decimal opResult.toInt ++ [ascii '\n']

def evaluateSteps (opResult : Word) (steps : List (Byte × Word)) : Word :=
  steps.foldl (fun result step => applyOperator step.1 result step.2) opResult

theorem evaluateSteps_append (value : Word) (front back : List (Byte × Word)) :
    evaluateSteps value (front ++ back) =
      evaluateSteps (evaluateSteps value front) back := by
  simp [evaluateSteps]

namespace Expression

def count (expression : Expression) : Nat := expression.steps.length + 1

def operands (expression : Expression) : List Word :=
  expression.first :: expression.steps.map Prod.snd

def operators (expression : Expression) : List Byte :=
  expression.steps.map Prod.fst

/-- Left to right, modulo `2 ^ 32`. -/
def value (expression : Expression) : Word :=
  evaluateSteps expression.first expression.steps

def text (expression : Expression) : List Byte :=
  decimal expression.first.toInt ++ stepsText expression.steps

/-- The line `a+b*c=r`. -/
def line (expression : Expression) : List Byte :=
  expression.text ++ resultText expression.value

def encode (expression : Expression) : List Byte :=
  BitVec.ofNat 8 expression.count ::
    (expression.operands.flatMap Word.toBytes ++ expression.operators)

end Expression

/-- Every append of a step ends inside an array of `size` bytes when the text
before it has the given length. -/
def StepsFit (size : Nat) : Nat → List (Byte × Word) → Prop
  | _, [] => True
  | length, step :: steps =>
      length + (stepText step).length + 1 ≤ size ∧
        StepsFit size (length + (cString (stepText step)).length) steps

instance StepsFit.decidable (size : Nat) :
    (length : Nat) → (steps : List (Byte × Word)) →
      Decidable (StepsFit size length steps)
  | _, [] => isTrue trivial
  | length, step :: steps =>
      have := StepsFit.decidable size
        (length + (cString (stepText step)).length) steps
      inferInstanceAs (Decidable (_ ∧ _))

/-- The formula can be printed behind `lead` characters into an array of
`size` bytes. -/
def Expression.Fits (size lead : Nat) (expression : Expression) : Prop :=
  lead + (decimal expression.first.toInt).length + 1 ≤ size ∧
    StepsFit size (lead + (decimal expression.first.toInt).length)
      expression.steps

instance (size lead : Nat) (expression : Expression) :
    Decidable (expression.Fits size lead) :=
  inferInstanceAs (Decidable (_ ∧ _))

theorem StepsFit.of_le {size shorter longer : Nat} {steps : List (Byte × Word)}
    (fits : StepsFit size longer steps) (less : shorter ≤ longer) :
    StepsFit size shorter steps := by
  induction steps generalizing shorter longer with
  | nil => trivial
  | cons step steps induction =>
      obtain ⟨head, tail⟩ := fits
      exact ⟨by omega, induction tail (by omega)⟩

theorem Expression.Fits.of_le {size shorter longer : Nat} {expression : Expression}
    (fits : expression.Fits size longer) (less : shorter ≤ longer) :
    expression.Fits size shorter := by
  obtain ⟨head, tail⟩ := fits
  exact ⟨by omega, tail.of_le (by omega)⟩

theorem length_stepText_le (step : Byte × Word) : (stepText step).length ≤ 12 := by
  have := length_decimal_word_le step.2
  simp only [stepText, List.length_cons]
  omega

theorem stepsFit_of_length {size length : Nat} {steps : List (Byte × Word)}
    (room : length + (stepsText steps).length + 13 ≤ size) :
    StepsFit size length steps := by
  induction steps generalizing length with
  | nil => trivial
  | cons step steps induction =>
      have head := length_stepText_le step
      simp only [stepsText, List.flatMap_cons, List.length_append] at room
      refine ⟨by omega, induction ?_⟩
      unfold stepsText
      omega

theorem stepsText_of_plain {steps : List (Byte × Word)}
    (plain : ∀ step ∈ steps, step.1 ≠ 0#8) :
    stepsText steps = steps.flatMap stepText := by
  refine List.flatMap_congr fun step member => cString_of_notMem ?_
  simp [stepText, zero_notMem_decimal, (plain step member).symm]

theorem stepsFit_of_plain {size length : Nat} {steps : List (Byte × Word)}
    (plain : ∀ step ∈ steps, step.1 ≠ 0#8) (before : length + 1 ≤ size)
    (room : length + (stepsText steps).length + 1 ≤ size) :
    StepsFit size length steps := by
  induction steps generalizing length with
  | nil => trivial
  | cons step steps induction =>
      have later : ∀ step ∈ steps, step.1 ≠ 0#8 := fun step member =>
        plain step (List.mem_cons_of_mem _ member)
      rw [stepsText_of_plain plain, List.flatMap_cons, List.length_append,
        ← stepsText_of_plain later] at room
      have whole : cString (stepText step) = stepText step := by
        apply cString_of_notMem
        simp [stepText, zero_notMem_decimal, (plain step (by simp)).symm]
      refine ⟨by omega, ?_⟩
      rw [whole]
      exact induction later (by omega) (by omega)

theorem zero_notMem_stepsText (steps : List (Byte × Word)) :
    0#8 ∉ stepsText steps := by
  simp [stepsText, zero_notMem_cString]

theorem zero_notMem_resultText (value : Word) : 0#8 ∉ resultText value := by
  have equals : (0#8 : Byte) ≠ ascii '=' := by decide
  have newline : (0#8 : Byte) ≠ ascii '\n' := by decide
  simp [resultText, zero_notMem_decimal, equals, newline]

theorem Expression.zero_notMem_line (expression : Expression) :
    0#8 ∉ expression.line := by
  simp [Expression.line, Expression.text, zero_notMem_decimal,
    zero_notMem_stepsText, zero_notMem_resultText]

theorem Expression.length_line (expression : Expression) :
    expression.line.length =
      (decimal expression.first.toInt).length +
        (stepsText expression.steps).length +
          (resultText expression.value).length := by
  simp [Expression.line, Expression.text, Nat.add_assoc]

theorem Expression.length_text {expression : Expression}
    (plain : ∀ operator ∈ expression.operators, operator ≠ 0#8) :
    expression.text.length =
      (expression.operands.map fun operand => (decimal operand.toInt).length).sum +
        expression.operators.length := by
  have steps : ∀ step ∈ expression.steps, step.1 ≠ 0#8 := fun step member =>
    plain step.1 (List.mem_map_of_mem member)
  have later (steps : List (Byte × Word)) : (steps.flatMap stepText).length =
      (steps.map fun step => (decimal step.2.toInt).length).sum + steps.length := by
    induction steps with
    | nil => rfl
    | cons step steps induction =>
        simp only [List.flatMap_cons, List.length_append, induction, stepText,
          List.length_cons, List.map_cons, List.sum_cons]
        omega
  simp only [Expression.text, Expression.operands, Expression.operators,
    stepsText_of_plain steps, List.length_append, later, List.map_cons,
    List.sum_cons, List.map_map, List.length_map]
  exact (Nat.add_assoc _ _ _).symm

theorem Expression.text_take_prefix (expression : Expression) (turns : Nat) :
    (⟨expression.first, expression.steps.take turns⟩ : Expression).text <+:
      expression.text := by
  have steps : stepsText (expression.steps.take turns) <+: stepsText expression.steps := by
    conv_rhs => rw [← List.take_append_drop turns expression.steps]
    rw [stepsText, stepsText, List.flatMap_append]
    exact List.prefix_append _ _
  exact (List.prefix_append_right_inj _).mpr steps

theorem Expression.length_text_lt {expression : Expression}
    (plain : ∀ operator ∈ expression.operators, operator ≠ 0#8) :
    expression.text.length < 12 * expression.count := by
  have operands := List.sum_le_card_nsmul
    (expression.operands.map fun operand => (decimal operand.toInt).length) 11 (by
      intro length member
      obtain ⟨operand, _, rfl⟩ := List.mem_map.mp member
      exact length_decimal_word_le operand)
  have operandCount : expression.operands.length = expression.steps.length + 1 := by
    simp [Expression.operands]
  have operatorCount : expression.operators.length = expression.steps.length := by
    simp [Expression.operators]
  rw [List.length_map, operandCount, nsmul_eq_mul, Nat.cast_id] at operands
  rw [Expression.length_text plain, Expression.count, operatorCount]
  omega

theorem Expression.fits_of_plain {size lead : Nat} {expression : Expression}
    (plain : ∀ operator ∈ expression.operators, operator ≠ 0#8)
    (room : lead + expression.text.length + 1 ≤ size) : expression.Fits size lead := by
  have steps : ∀ step ∈ expression.steps, step.1 ≠ 0#8 := fun step member =>
    plain step.1 (List.mem_map_of_mem member)
  simp only [Expression.text, List.length_append] at room
  exact ⟨by omega, stepsFit_of_plain steps (by omega) (by omega)⟩

/-! ## Decoding from a buffer -/

/-- `memcpy(&word, &bytes[position], 4)`. -/
def wordAt (bytes : List Byte) (position : Nat) : Word :=
  Word.ofBytes ((bytes.drop position).take 4)

/-- The expression at the offsets of the protocol. -/
def decodeExpression (bytes : List Byte) (count : Nat) : Expression where
  first := wordAt bytes 1
  steps := (List.range (count - 1)).map fun index =>
    (bytes.getD (1 + count * 4 + index) 0#8, wordAt bytes (1 + (index + 1) * 4))

theorem count_decodeExpression {count : Nat} (positive : 0 < count)
    (bytes : List Byte) : (decodeExpression bytes count).count = count := by
  simp only [Expression.count, decodeExpression, List.length_map, List.length_range]
  omega

theorem operands_decodeExpression {count : Nat} (positive : 0 < count)
    (bytes : List Byte) :
    (decodeExpression bytes count).operands =
      (List.range count).map fun index => wordAt bytes (1 + index * 4) := by
  obtain ⟨count, rfl⟩ : ∃ earlier, count = earlier + 1 := ⟨count - 1, by omega⟩
  rw [List.range_succ_eq_map]
  simp [decodeExpression, Expression.operands]

/-- `for (j = 0; j < opCount; j++) memcpy(&operand[j], &source[1 + j*4], 4)`. -/
def decodeOperands {size capacity : Nat} (source : CArray Byte size)
    (count : Nat) (operand : CArray Word capacity) :
    Option (CArray Word capacity) :=
  forLoop (fun index operand => do
    let bytes ← source.read? (1 + index * 4) 4
    operand.set? index (Word.ofBytes bytes)) count operand

theorem decodeOperands_cells {size capacity count : Nat}
    {source : CArray Byte size} {operand result : CArray Word capacity}
    (decoded : decodeOperands source count operand = some result) :
    result.cells =
      (List.range count).map (fun index => wordAt source.cells (1 + index * 4)) ++
        operand.cells.drop count := by
  induction count generalizing result with
  | zero =>
      cases decoded
      simp
  | succ count induction =>
      obtain ⟨middle, earlier, last⟩ := forLoop_succ_eq_some.mp decoded
      have cells := induction earlier
      simp only [Option.bind_eq_bind, Option.bind_eq_some_iff] at last
      obtain ⟨bytes, copied, stored⟩ := last
      obtain ⟨bound, final⟩ := CArray.set?_eq_some.mp stored
      obtain ⟨_, rfl⟩ := CArray.read?_eq_some.mp copied
      have inside : count < operand.cells.length := by
        rw [operand.length_cells]
        exact bound
      have slot (word : Word) : (operand.cells.drop count).set 0 word =
          word :: operand.cells.drop (count + 1) := by
        rw [List.drop_eq_getElem_cons inside, List.set_cons_zero]
      rw [final, cells, List.range_succ, List.map_append,
        List.set_append_right _ _ (by simp)]
      simp [slot, wordAt]

theorem decodeOperands_isSome {size capacity count : Nat}
    {source : CArray Byte size} {operand : CArray Word capacity}
    (sourceFits : 1 + count * 4 ≤ size) (operandFits : count ≤ capacity) :
    ∃ result, decodeOperands source count operand = some result := by
  have total : ∃ result, decodeOperands source count operand = some result ∧
      True := by
    refine forLoop_total (fun _ _ => True) trivial ?_
    intro index bound before _
    have inside : 1 + index * 4 + 4 ≤ size := by omega
    have slot : index < capacity := by omega
    simp [CArray.read?, CArray.set?, inside, slot]
  obtain ⟨result, decoded, _⟩ := total
  exact ⟨result, decoded⟩

theorem get?_decodeOperands {size capacity count index : Nat}
    {source : CArray Byte size} {operand result : CArray Word capacity}
    (decoded : decodeOperands source count operand = some result)
    (bound : index < count) :
    result.get? index = some (wordAt source.cells (1 + index * 4)) := by
  unfold CArray.get?
  rw [decodeOperands_cells decoded, List.getElem?_append_left (by simpa using bound)]
  simp [bound]

/-! ### What a client encodes is what a buffer decodes to -/

private theorem flatMap_toBytes_at {words : List Word} {index : Nat}
    (bound : index < words.length) (tail : List Byte) :
    ((words.flatMap Word.toBytes ++ tail).drop (index * 4)).take 4 =
      Word.toBytes words[index] := by
  induction words generalizing index with
  | nil => simp at bound
  | cons word words induction =>
      cases index with
      | zero => simp [Word.toBytes]
      | succ index =>
          have inside : index < words.length := by simpa using bound
          have later := induction inside
          simpa [Word.toBytes, Nat.add_mul] using later

theorem length_flatMap_toBytes (words : List Word) :
    (words.flatMap Word.toBytes).length = words.length * 4 := by
  simp [List.length_flatMap]

theorem Expression.length_operands (expression : Expression) :
    expression.operands.length = expression.count := by
  simp [Expression.operands, Expression.count]

theorem Expression.length_operators (expression : Expression) :
    expression.operators.length = expression.count - 1 := by
  simp [Expression.operators, Expression.count]

theorem Expression.length_encode (expression : Expression) :
    expression.encode.length = 5 * expression.count := by
  have positive : 0 < expression.count := by simp [Expression.count]
  simp only [Expression.encode, List.length_cons, List.length_append,
    length_flatMap_toBytes, expression.length_operands,
    expression.length_operators]
  omega

theorem Expression.wordAt_encode (expression : Expression) (tail : List Byte)
    {index : Nat} (bound : index < expression.count) :
    wordAt (expression.encode ++ tail) (1 + index * 4) =
      expression.operands.get ⟨index, expression.length_operands ▸ bound⟩ := by
  have inside : index < expression.operands.length := by
    simpa [expression.length_operands] using bound
  have word := flatMap_toBytes_at inside (expression.operators ++ tail)
  unfold wordAt Expression.encode
  rw [Nat.add_comm 1, List.cons_append, List.drop_succ_cons, List.append_assoc,
    word, Word.ofBytes_toBytes]
  rfl

theorem Expression.operator_encode (expression : Expression) (tail : List Byte)
    {index : Nat} (bound : index < expression.steps.length) :
    (expression.encode ++ tail)[1 + expression.count * 4 + index]? =
      some expression.steps[index].1 := by
  have offset : 1 + expression.count * 4 + index =
      (expression.operands.flatMap Word.toBytes).length + index + 1 := by
    rw [length_flatMap_toBytes, expression.length_operands]
    omega
  have inside : index < expression.operators.length := by
    simpa [Expression.operators] using bound
  rw [offset, Expression.encode, List.cons_append, List.getElem?_cons_succ,
    List.append_assoc, List.getElem?_append_right (by omega),
    Nat.add_sub_cancel_left, List.getElem?_append_left inside]
  simp [Expression.operators, bound]

/-- Decoding at the offsets inverts the encoding, whatever follows it. -/
theorem decodeExpression_encode (expression : Expression) (tail : List Byte) :
    decodeExpression (expression.encode ++ tail) expression.count =
      expression := by
  obtain ⟨first, steps⟩ := expression
  set expression : Expression := ⟨first, steps⟩ with shape
  have firstWord : wordAt (expression.encode ++ tail) 1 = first := by
    simpa [Expression.operands, shape] using
      @Expression.wordAt_encode expression tail 0 (by simp [Expression.count])
  have stepsEqual : (List.range (expression.count - 1)).map (fun index =>
      ((expression.encode ++ tail).getD (1 + expression.count * 4 + index) 0#8,
        wordAt (expression.encode ++ tail) (1 + (index + 1) * 4))) = steps := by
    apply List.ext_getElem
    · simp [Expression.count, shape]
    · intro index _ bound
      have operator := expression.operator_encode tail bound
      have next : index + 1 < expression.count := by
        simpa [Expression.count, shape] using bound
      have operand := expression.wordAt_encode tail next
      simp only [List.getElem_map, List.getElem_range, List.getD_eq_getElem?_getD,
        operator, operand, Option.getD_some]
      simp [Expression.operands, shape]
  unfold decodeExpression
  rw [firstWord, stepsEqual]

theorem wordAt_append {bytes : List Byte} {position : Nat}
    (inside : position + 4 ≤ bytes.length) (tail : List Byte) :
    wordAt (bytes ++ tail) position = wordAt bytes position := by
  unfold wordAt
  rw [List.drop_append_of_le_length (by omega),
    List.take_append_of_le_length (by simp; omega)]

theorem decodeExpression_append {count : Nat} (positive : 0 < count)
    {bytes : List Byte} (enough : 5 * count ≤ bytes.length) (tail : List Byte) :
    decodeExpression (bytes ++ tail) count = decodeExpression bytes count := by
  unfold decodeExpression
  rw [wordAt_append (by omega)]
  congr 1
  apply List.map_congr_left
  intro index member
  have bound : index < count - 1 := List.mem_range.mp member
  rw [wordAt_append (by omega), List.getD_eq_getElem?_getD, List.getD_eq_getElem?_getD,
    List.getElem?_append_left (by omega)]

theorem toBytes_wordAt {bytes : List Byte} {position : Nat}
    (inside : position + 4 ≤ bytes.length) :
    Word.toBytes (wordAt bytes position) = (bytes.drop position).take 4 := by
  apply Word.toBytes_ofBytes
  simp only [List.length_take, List.length_drop]
  omega

theorem wordAt_set {bytes : List Byte} {position index : Nat}
    (before : position + 4 ≤ index) (byte : Byte) :
    wordAt (bytes.set index byte) position = wordAt bytes position := by
  have past : ((bytes.drop position).take 4).length ≤ index - position := by
    simp only [List.length_take, List.length_drop]
    omega
  unfold wordAt
  rw [List.drop_set, if_neg (by omega), List.take_set,
    List.set_eq_of_length_le past]

theorem wordAt_set_inj {bytes : List Byte} {position : Nat} {left right : Byte}
    (inside : position + 4 ≤ bytes.length)
    (same : wordAt (bytes.set (position + 3) left) position =
      wordAt (bytes.set (position + 3) right) position) : left = right := by
  have third (byte : Byte) :
      (Word.toBytes (wordAt (bytes.set (position + 3) byte) position))[3]? =
        some byte := by
    rw [toBytes_wordAt (by simpa using inside), List.getElem?_take_of_lt (by decide),
      List.getElem?_drop, List.getElem?_set_self (by omega)]
  have top := third left
  rw [same, third right] at top
  exact (Option.some.inj top).symm

/-- The last byte of a request with two operands or more is its last operator;
nothing else depends on it. -/
theorem decodeExpression_set_last {bytes : List Byte} {count : Nat}
    (inside : 5 * count + 9 < bytes.length) :
    ∃ first front right, ∀ operator : Byte,
      decodeExpression (bytes.set (5 * count + 9) operator) (count + 2) =
        ⟨first, front ++ [(operator, right)]⟩ := by
  refine ⟨wordAt bytes 1, (List.range count).map fun index =>
      (bytes.getD (1 + (count + 2) * 4 + index) 0#8,
        wordAt bytes (1 + (index + 1) * 4)),
    wordAt bytes (1 + (count + 1) * 4), ?_⟩
  intro operator
  have last : 1 + (count + 2) * 4 + count = 5 * count + 9 := by omega
  have sizes : count + 2 - 1 = count + 1 := rfl
  unfold decodeExpression
  rw [wordAt_set (by omega), sizes, List.range_succ, List.map_append,
    List.map_singleton, last, wordAt_set (by omega), List.getD_eq_getElem?_getD,
    List.getElem?_set_self inside, Option.getD_some]
  congr 2
  apply List.map_congr_left
  intro index member
  have bound : index < count := List.mem_range.mp member
  rw [wordAt_set (by omega), List.getD_eq_getElem?_getD,
    List.getD_eq_getElem?_getD, List.getElem?_set_ne (by omega)]

/-! ## The loop over the operators -/

/-- State of the loop: where operators come from, the accumulator and the
text.  `steps` records the operators and operands used so far. -/
structure Evaluation (τ β : Type) where
  source : τ
  steps : List (Byte × Word)
  opResult : Word
  text : β

def Evaluation.mapSource {σ τ β : Type} (embed : σ → τ) (state : Evaluation σ β) :
    Evaluation τ β :=
  ⟨embed state.source, state.steps, state.opResult, state.text⟩

/-- One iteration: fetch the operator, apply it, print it with its operand. -/
def evaluationStep {τ β : Type} {capacity : Nat}
    (nextOperator : Nat → τ → Option (Byte × τ))
    (emit : β → List Byte → Option β) (operand : CArray Word capacity)
    (index : Nat) (state : Evaluation τ β) : Option (Evaluation τ β) := do
  let fetched ← nextOperator index state.source
  let right ← operand.get? (index + 1)
  let text ← emit state.text (stepText (fetched.1, right))
  return {
    source := fetched.2
    steps := state.steps ++ [(fetched.1, right)]
    opResult := applyOperator fetched.1 state.opResult right
    text := text }

/-- `for (j = 0; j < opCount - 1; j++)`. -/
def evaluationLoop {τ β : Type} {capacity : Nat}
    (nextOperator : Nat → τ → Option (Byte × τ))
    (emit : β → List Byte → Option β) (operand : CArray Word capacity)
    (count : Nat) (state : Evaluation τ β) : Option (Evaluation τ β) :=
  forLoop (evaluationStep nextOperator emit operand) count state

/-- Sources that correspond lead to the same steps, result and text. -/
theorem evaluationLoop_map {σ τ β : Type} {capacity : Nat}
    {nextOperator : Nat → σ → Option (Byte × σ)} {other : Nat → τ → Option (Byte × τ)}
    (embed : σ → τ)
    (commutes : ∀ index source,
      other index (embed source) = (nextOperator index source).map (Prod.map id embed))
    (emit : β → List Byte → Option β) (operand : CArray Word capacity) (count : Nat)
    (state : Evaluation σ β) :
    evaluationLoop other emit operand count (state.mapSource embed) =
      (evaluationLoop nextOperator emit operand count state).map
        (.mapSource embed) := by
  refine forLoop_map (Evaluation.mapSource embed) fun index state => ?_
  simp only [evaluationStep, Evaluation.mapSource, commutes, Option.bind_eq_bind,
    Option.pure_def, Option.bind_map, Option.map_bind, Function.comp_def, Option.map_some,
    Prod.map, id_eq]

/-- The operators that `nextOperator` yields from `sources 0` on and the
operands behind the first are the given steps. -/
def Supplies {τ : Type} {capacity : Nat}
    (nextOperator : Nat → τ → Option (Byte × τ))
    (operand : CArray Word capacity) (sources : Nat → τ)
    (steps : List (Byte × Word)) : Prop :=
  ∀ index, ∀ bound : index < steps.length,
    nextOperator index (sources index) =
        some (steps[index].1, sources (index + 1)) ∧
      operand.get? (index + 1) = some steps[index].2

section evaluationLoop

variable {τ β : Type} {capacity : Nat}
  {nextOperator : Nat → τ → Option (Byte × τ)}
  {emit : β → List Byte → Option β} {operand : CArray Word capacity}
  {sources : Nat → τ} {steps : List (Byte × Word)}

private theorem evaluationLoop_take
    (supplied : Supplies nextOperator operand sources steps)
    (opResult : Word) (text : β) {count : Nat} (bound : count ≤ steps.length) :
    evaluationLoop nextOperator emit operand count
        ⟨sources 0, [], opResult, text⟩ =
      ((steps.take count).foldlM (fun text step => emit text (stepText step))
        text).map fun printed =>
          ⟨sources count, steps.take count,
            evaluateSteps opResult (steps.take count), printed⟩ := by
  induction count with
  | zero => simp [evaluationLoop, evaluateSteps]
  | succ count induction =>
      have inside : count < steps.length := bound
      have before := induction (by omega)
      obtain ⟨fetched, right⟩ := supplied count inside
      unfold evaluationLoop at before ⊢
      rw [forLoop, before, List.take_succ_eq_append_getElem inside,
        List.foldlM_append]
      cases (steps.take count).foldlM
          (fun text step => emit text (stepText step)) text with
      | none => rfl
      | some printed =>
          simp only [Option.map_some, Option.bind_some, evaluationStep,
            Option.bind_eq_bind, fetched, right, List.foldlM_cons,
            List.foldlM_nil, Prod.mk.eta]
          cases emit printed (stepText steps[count]) with
          | none => rfl
          | some extended =>
              rw [evaluateSteps_append]
              rfl

/-- The loop folds the supplied steps: it succeeds when every print does, and
then holds the left-to-right value. -/
theorem evaluationLoop_eq
    (supplied : Supplies nextOperator operand sources steps)
    (opResult : Word) (text : β) :
    evaluationLoop nextOperator emit operand steps.length
        ⟨sources 0, [], opResult, text⟩ =
      (steps.foldlM (fun text step => emit text (stepText step)) text).map
        fun printed =>
          ⟨sources steps.length, steps, evaluateSteps opResult steps, printed⟩ := by
  simpa using evaluationLoop_take supplied opResult text (Nat.le_refl _)

end evaluationLoop

/-- Printing the steps into an array succeeds exactly when they fit, and
extends its string by their text. -/
theorem foldlM_append_steps {size : Nat} {steps : List (Byte × Word)}
    {buf : CArray Byte size} {old : List Byte} (holds : buf.cString? = some old) :
    (StepsFit size old.length steps →
      ∃ result, steps.foldlM (fun buf step => buf.append? (stepText step)) buf =
          some result ∧
        result.cString? = some (old ++ stepsText steps)) ∧
    (¬ StepsFit size old.length steps →
      steps.foldlM (fun buf step => buf.append? (stepText step)) buf = none) := by
  induction steps generalizing buf old with
  | nil => simp [StepsFit, stepsText, holds]
  | cons step steps induction =>
      cases appended : buf.append? (stepText step) with
      | none =>
          have overflow : ¬ old.length + (stepText step).length + 1 ≤ size := by
            intro fits
            obtain ⟨result, defined⟩ := CArray.append?_isSome holds fits
            rw [appended] at defined
            cases defined
          simp [StepsFit, overflow, appended]
      | some extended =>
          have fits := CArray.length_of_append? holds appended
          have extendedHolds := CArray.cString?_append holds appended
          obtain ⟨success, failure⟩ := induction extendedHolds
          simp only [List.length_append] at success failure
          simp only [List.foldlM_cons, appended, Option.bind_eq_bind,
            Option.bind_some, StepsFit, fits, true_and, stepsText,
            List.flatMap_cons]
          simpa [stepsText] using And.intro success failure

theorem Expression.print_spec {size : Nat} (expression : Expression)
    (buf : CArray Byte size) :
    (expression.Fits size 0 →
      ∃ result, ((buf.print? (decimal expression.first.toInt)).bind fun buf =>
          expression.steps.foldlM (fun buf step => buf.append? (stepText step)) buf) =
          some result ∧
        result.cString? = some expression.text) ∧
    (¬ expression.Fits size 0 →
      ((buf.print? (decimal expression.first.toInt)).bind fun buf =>
        expression.steps.foldlM (fun buf step => buf.append? (stepText step)) buf) =
          none) := by
  cases printed : buf.print? (decimal expression.first.toInt) with
  | none =>
      have overflow : ¬ (decimal expression.first.toInt).length + 1 ≤ size := by
        intro fits
        have defined : ∃ result, buf.print? (decimal expression.first.toInt) =
            some result := CArray.print?_isSome fits
        simp [printed] at defined
      simp [Expression.Fits, overflow]
  | some started =>
      have holds := CArray.cString?_print printed
      rw [cString_of_notMem (zero_notMem_decimal _)] at holds
      have room := CArray.length_of_print? printed
      obtain ⟨success, failure⟩ :=
        @foldlM_append_steps _ expression.steps _ _ holds
      rw [Option.bind_some]
      constructor
      · intro fits
        exact success (by simpa using fits.2)
      · intro overflow
        refine failure fun fits => overflow ⟨by simpa using room, by simpa using fits⟩

/-! ## Computing from a buffer -/

/-- `operator[j] = source[1 + opCount*4 + j]`. -/
def bufferOperator {size : Nat} (source : CArray Byte size) (count : Nat) :
    Nat → Unit → Option (Byte × Unit) := fun index _ =>
  (source.get? (1 + count * 4 + index)).map fun operator => (operator, ())

theorem supplies_bufferOperator {size capacity count : Nat}
    {source : CArray Byte size} {operand decoded : CArray Word capacity}
    (fits : 5 * count ≤ size)
    (result : decodeOperands source count operand = some decoded) :
    Supplies (bufferOperator source count) decoded (fun _ => ())
      (decodeExpression source.cells count).steps := by
  intro index bound
  have inside : index < count - 1 := by
    simpa [decodeExpression] using bound
  have position : 1 + count * 4 + index < source.cells.length := by
    rw [source.length_cells]
    omega
  constructor
  · simp [bufferOperator, CArray.get?, decodeExpression,
      List.getElem?_eq_getElem position]
  · rw [get?_decodeOperands result (by omega)]
    simp [decodeExpression]

/-- What is left when a request in a buffer has been computed and printed. -/
structure Computation (capacity size : Nat) where
  operand : CArray Word capacity
  steps : List (Byte × Word)
  opResult : Word
  buf : CArray Byte size

/-- Decode the operands, start the text with the first one and run the loop.
The count is the signed `char` of the request: when it is not positive both
loops are empty and the first operand is the one already in the array. -/
def computeBuffer {source capacity size : Nat} (request : CArray Byte source)
    (opCount : Int) (operand : CArray Word capacity) (buf : CArray Byte size) :
    Option (Computation capacity size) := do
  let operand ← decodeOperands request opCount.toNat operand
  let first ← operand.get? 0
  let buf ← buf.print? (decimal first.toInt)
  let final ← evaluationLoop (bufferOperator request opCount.toNat)
    CArray.append? operand (opCount - 1).toNat ⟨(), [], first, buf⟩
  return {
    operand := operand
    steps := final.steps
    opResult := final.opResult
    buf := final.text }

/-- The result of a successful computation of `expression`. -/
structure Computes {capacity size : Nat} (expression : Expression)
    (result : Computation capacity size) : Prop where
  first : result.operand.get? 0 = some expression.first
  steps : result.steps = expression.steps
  opResult : result.opResult = expression.value
  text : result.buf.cString? = some expression.text

section computeBuffer

variable {source capacity size : Nat} {request : CArray Byte source}
  {opCount : Int} {operand : CArray Word capacity} {buf : CArray Byte size}

private theorem computeBuffer_decoded {decoded : CArray Word capacity}
    {expression : Expression}
    (operands : decodeOperands request opCount.toNat operand = some decoded)
    (head : decoded.get? 0 = some expression.first)
    (supplied : Supplies (bufferOperator request opCount.toNat) decoded
      (fun _ => ()) expression.steps)
    (length : expression.steps.length = (opCount - 1).toNat) :
    (expression.Fits size 0 →
      ∃ result, computeBuffer request opCount operand buf = some result ∧
        result.operand = decoded ∧ Computes expression result) ∧
    (¬ expression.Fits size 0 →
      computeBuffer request opCount operand buf = none) := by
  have loop (printed : CArray Byte size) :=
    @evaluationLoop_eq _ _ _ _ CArray.append? _ _ _ supplied expression.first printed
  rw [length] at loop
  have whole : computeBuffer request opCount operand buf =
      ((buf.print? (decimal expression.first.toInt)).bind fun buf =>
        expression.steps.foldlM (fun buf step => buf.append? (stepText step)) buf).map
          fun printed => ⟨decoded, expression.steps, expression.value, printed⟩ := by
    simp only [computeBuffer, operands, head, Option.bind_eq_bind, Option.bind_some, loop]
    cases buf.print? (decimal expression.first.toInt) with
    | none => rfl
    | some started =>
        simp only [Option.bind_some]
        cases expression.steps.foldlM (fun buf step => buf.append? (stepText step))
          started <;> rfl
  obtain ⟨success, failure⟩ := expression.print_spec buf
  constructor
  · intro fits
    obtain ⟨printed, ran, text⟩ := success fits
    rw [whole, ran, Option.map_some]
    exact ⟨_, rfl, rfl, head, rfl, rfl, text⟩
  · intro overflow
    rw [whole, failure overflow, Option.map_none]

/-- The computation of a positive count succeeds exactly when the formula fits
the text array, and is then the one of the decoded expression. -/
theorem computeBuffer_positive (positive : 0 < opCount)
    (requestFits : 5 * opCount.toNat ≤ source)
    (operandFits : opCount.toNat ≤ capacity) :
    ((decodeExpression request.cells opCount.toNat).Fits size 0 →
      ∃ result, computeBuffer request opCount operand buf = some result ∧
        result.operand.cells =
          (decodeExpression request.cells opCount.toNat).operands ++
            operand.cells.drop opCount.toNat ∧
        Computes (decodeExpression request.cells opCount.toNat) result) ∧
    (¬ (decodeExpression request.cells opCount.toNat).Fits size 0 →
      computeBuffer request opCount operand buf = none) := by
  have countPositive : 0 < opCount.toNat := by omega
  obtain ⟨decoded, operands⟩ :
      ∃ decoded, decodeOperands request opCount.toNat operand = some decoded :=
    decodeOperands_isSome (by omega) operandFits
  have head : decoded.get? 0 =
      some (decodeExpression request.cells opCount.toNat).first := by
    simpa [decodeExpression] using get?_decodeOperands operands countPositive
  have cells : decoded.cells =
      (decodeExpression request.cells opCount.toNat).operands ++
        operand.cells.drop opCount.toNat := by
    rw [decodeOperands_cells operands, operands_decodeExpression countPositive]
  obtain ⟨success, failure⟩ := @computeBuffer_decoded _ _ _ _ _ _ buf _ _ operands head
    (supplies_bufferOperator requestFits operands) (by simp [decodeExpression])
  refine ⟨fun fits => ?_, failure⟩
  obtain ⟨result, computed, rfl, computes⟩ := success fits
  exact ⟨result, computed, cells, computes⟩

/-- With a count that is not positive the result is the operand an earlier
request left in the array. -/
theorem computeBuffer_nonpositive (nonpositive : opCount ≤ 0)
    {stale : Word} (left : operand.get? 0 = some stale) :
    (Expression.Fits size 0 ⟨stale, []⟩ →
      ∃ result, computeBuffer request opCount operand buf = some result ∧
        result.operand = operand ∧ Computes ⟨stale, []⟩ result) ∧
    (¬ Expression.Fits size 0 ⟨stale, []⟩ →
      computeBuffer request opCount operand buf = none) := by
  have empty : opCount.toNat = 0 := by omega
  have operands : decodeOperands request opCount.toNat operand = some operand := by
    rw [empty]
    rfl
  exact computeBuffer_decoded operands left (by
    intro index bound
    simp at bound) (by
    simp only [List.length_nil]
    omega)

end computeBuffer

/-! ## A request with its count byte -/

/-- What a server computes from a request in a buffer: the expression at the
offsets, or the first operand that an earlier request left when the count is
not positive. -/
def requestedExpression {source capacity : Nat} (request : CArray Byte source)
    (operand : CArray Word capacity) : Expression :=
  let opCount := (request.cells.getD 0 0#8).toInt
  if 0 < opCount then decodeExpression request.cells opCount.toNat
  else ⟨operand.cells.getD 0 0, []⟩

/-- `opCount = request[0]` and the computation behind it. -/
def computeRequest {source capacity size : Nat} (request : CArray Byte source)
    (operand : CArray Word capacity) (buf : CArray Byte size) :
    Option (Computation capacity size) := do
  let opCount ← request.get? 0
  computeBuffer request opCount.toInt operand buf

section computeRequest

variable {source capacity size : Nat} {request : CArray Byte source}
  {operand : CArray Word capacity} {buf : CArray Byte size}

/-- A `char` counts at most 127 operands, so only the text can overflow. -/
theorem computeRequest_spec (requestSize : 635 ≤ source)
    (operandSize : 127 ≤ capacity) :
    ((requestedExpression request operand).Fits size 0 →
      ∃ result, computeRequest request operand buf = some result ∧
        Computes (requestedExpression request operand) result) ∧
    (¬ (requestedExpression request operand).Fits size 0 →
      computeRequest request operand buf = none) := by
  have inside : 0 < request.cells.length := by
    rw [request.length_cells]
    omega
  have operandInside : 0 < operand.cells.length := by
    rw [operand.length_cells]
    omega
  have head : request.get? 0 = some (request.cells.getD 0 0#8) := by
    simp [CArray.get?, List.getElem?_eq_getElem inside]
  have stale : operand.get? 0 = some (operand.cells.getD 0 0) := by
    simp [CArray.get?, List.getElem?_eq_getElem operandInside]
  simp only [computeRequest, requestedExpression, head, Option.bind_eq_bind,
    Option.bind_some]
  generalize request.cells.getD 0 0#8 = opCount
  have small := @BitVec.toInt_lt 8 opCount
  by_cases positive : 0 < opCount.toInt
  · rw [if_pos positive]
    obtain ⟨success, failure⟩ := @computeBuffer_positive _ _ _ request
      opCount.toInt operand buf positive (by omega) (by omega)
    refine ⟨fun fits => ?_, failure⟩
    obtain ⟨result, ran, _, computes⟩ := success fits
    exact ⟨result, ran, computes⟩
  · rw [if_neg positive]
    obtain ⟨success, failure⟩ := @computeBuffer_nonpositive _ _ _ request
      opCount.toInt operand buf (by omega) _ stale
    refine ⟨fun fits => ?_, failure⟩
    obtain ⟨result, ran, _, computes⟩ := success fits
    exact ⟨result, ran, computes⟩

theorem requestedExpression_encode {expression : Expression} {tail : List Byte}
    (small : expression.count ≤ 127)
    (holds : request.cells = expression.encode ++ tail) :
    requestedExpression request operand = expression := by
  have value := toInt_ofNat_char small
  have positive : 0 < expression.count := by simp [Expression.count]
  have opCount : request.cells.getD 0 0#8 =
      BitVec.ofNat 8 expression.count := by
    rw [holds]
    rfl
  simp only [requestedExpression, opCount, value]
  rw [if_pos (by omega), Int.toNat_natCast, holds, decodeExpression_encode]

theorem computeRequest_encode {expression : Expression} {tail : List Byte}
    (requestSize : 635 ≤ source) (operandSize : 127 ≤ capacity)
    (small : expression.count ≤ 127)
    (holds : request.cells = expression.encode ++ tail)
    (fits : expression.Fits size 0) :
    ∃ result, computeRequest request operand buf = some result ∧
      Computes expression result ∧
      result.operand.cells.take expression.count = expression.operands := by
  have value := toInt_ofNat_char small
  have positive : 0 < expression.count := by simp [Expression.count]
  have opCount : request.get? 0 = some (BitVec.ofNat 8 expression.count) := by
    rw [CArray.get?, holds]
    rfl
  have decoded : decodeExpression request.cells
      (BitVec.ofNat 8 expression.count).toInt.toNat = expression := by
    rw [value, Int.toNat_natCast, holds, decodeExpression_encode]
  obtain ⟨success, _⟩ := @computeBuffer_positive source capacity size request
    (BitVec.ofNat 8 expression.count).toInt operand buf (by omega) (by omega)
    (by omega)
  rw [decoded] at success
  obtain ⟨result, ran, cells, computes⟩ := success fits
  refine ⟨result, ?_, computes, ?_⟩
  · simp only [computeRequest, opCount, Option.bind_eq_bind, Option.bind_some, ran]
  · rw [cells, List.take_left' expression.length_operands]

end computeRequest

end NetworkProgramming
