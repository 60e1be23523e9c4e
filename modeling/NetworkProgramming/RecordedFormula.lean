import NetworkProgramming.Formula
import NetworkProgramming.Hw5.Worker
import NetworkProgramming.Hw6.Server
import NetworkProgramming.Hw8.Server

/-!
# What can be read from a recorded formula

`hw5_server` logs a formula behind its process id, `hw6_server` stores one and
`hw8_server` broadcasts one behind a name.  From each of these texts the
operands, the operators and the result of the request can be read, and the
result is the value of what was read.
-/

namespace NetworkProgramming

open MachineInt

/-- The texts of the three servers, for any request that encodes the
expression, and what `decodeText` reads from them. -/
structure Decodes (expression : Expression) : Prop where
  /-- Also for more operands than a request can have. -/
  line : decodeText expression.line = some (expression, expression.value)
  /-- `buf` behind `calculator` and the `sprintf` of `mode_check`. -/
  hw6 : ∀ (globals : Hw6.Globals) (tail : List Byte), expression.count ≤ 127 →
    globals.result.cells = expression.encode ++ tail →
    expression.line.length < Hw6.BUF_SIZE →
    ∃ computed buf text, Hw6.calculator globals = some computed ∧
      computed.opResult = expression.value ∧
      computed.buf.append? (resultText computed.opResult) = some buf ∧
      buf.cString? = some text ∧
      decodeText text = some (expression, expression.value)
  /-- The record that a save leaves. -/
  hw6Record : ∀ (globals next : Hw6.Globals) (tail : List Byte)
    (response : Hw6.Response), expression.count ≤ 127 →
    globals.result.cells = expression.encode ++ tail →
    Hw6.branch globals.mode.cells = .save →
    Hw6.mode_check globals = some (next, response) →
    ∃ record text, response.record = some record ∧
      record.req.cString? = some text ∧
      decodeText text = some (expression, expression.value)
  hw5 : ∀ (pid : Int) (locals : Hw5.Locals) (rest : List Byte),
    expression.count ≤ 127 → (Hw5.logLine pid expression).length < Hw5.MAX →
    ∃ operand text, Hw5.worker Channel.readAll pid locals (expression.encode ++ rest) =
        some (.replied operand expression.steps expression.value (some text), rest) ∧
      decodeText text = some (expression, expression.value)
  hw8 : ∀ (locals : Hw8.Locals) (received name tail : List Byte),
    expression.count ≤ 127 →
    (locals.scatter received).name.cString? = some name →
    (locals.scatter received).req.cells = expression.encode ++ tail →
    expression.text.length < Hw8.BUF_SIZE →
    ∃ after text, Hw8.respond locals received = some (after, text) ∧
      decodeText text = some (expression, expression.value)

section decodes

variable {expression : Expression}

theorem decodeText_line (applied : ∀ operator ∈ expression.operators, Applied operator) :
    decodeText expression.line = some (expression, expression.value) := by
  rw [decodeText, Stdio.behindLast_of_notMem (blank_notMem_line applied),
    decodeLine_line applied]

theorem hw6_expression {globals : Hw6.Globals} {tail : List Byte}
    (small : expression.count ≤ 127)
    (holds : globals.result.cells = expression.encode ++ tail) :
    globals.expression = expression :=
  requestedExpression_encode small holds

theorem length_text_lt_line (expression : Expression) :
    expression.text.length < expression.line.length := by
  simp [Expression.line, resultText]

theorem hw6_decodes (applied : ∀ operator ∈ expression.operators, Applied operator)
    {globals : Hw6.Globals} (asked : globals.expression = expression)
    (short : expression.line.length < Hw6.BUF_SIZE) :
    ∃ computed buf text, Hw6.calculator globals = some computed ∧
      computed.opResult = expression.value ∧
      computed.buf.append? (resultText computed.opResult) = some buf ∧
      buf.cString? = some text ∧
      decodeText text = some (expression, expression.value) := by
  have fewer := length_text_lt_line expression
  obtain ⟨computed, calculated, value, text⟩ := (Hw6.calculator_spec globals).1 (by
    rw [asked]
    exact Expression.fits_of_plain (plain_of_applied applied) (by omega))
  rw [asked] at value text
  obtain ⟨buf, appended⟩ : ∃ buf,
      computed.buf.append? (resultText computed.opResult) = some buf := by
    apply CArray.append?_isSome text
    rw [value, ← List.length_append]
    exact short
  obtain ⟨_, holds⟩ := Hw6.cString?_line calculated appended
  rw [asked] at holds
  exact ⟨computed, buf, _, calculated, value, appended, holds, decodeText_line applied⟩

theorem hw5_decodes (applied : ∀ operator ∈ expression.operators, Applied operator)
    (small : expression.count ≤ 127) {pid : Int} (locals : Hw5.Locals)
    (rest : List Byte) (short : (Hw5.logLine pid expression).length < Hw5.MAX) :
    ∃ operand text, Hw5.worker Channel.readAll pid locals (expression.encode ++ rest) =
        some (.replied operand expression.steps expression.value (some text), rest) ∧
      decodeText text = some (expression, expression.value) := by
  have fewer := length_text_lt_line expression
  have lead : Hw5.logLine pid expression =
      decimal pid ++ [ascii ':'] ++ ascii ' ' :: expression.line := by
    simp [Hw5.logLine, Hw5.pidText]
  obtain ⟨operand, ran, _⟩ := (Hw5.worker_readAll small pid locals rest).1
    (Expression.fits_of_plain (plain_of_applied applied) (by
      rw [Hw5.logLine, List.length_append] at short
      omega))
  rw [if_pos short] at ran
  exact ⟨operand, _, ran, by rw [lead, decodeText_behind applied]⟩

theorem hw8_decodes (applied : ∀ operator ∈ expression.operators, Applied operator)
    {locals : Hw8.Locals} {received name : List Byte}
    (isName : (locals.scatter received).name.cString? = some name)
    (asked : requestedExpression (locals.scatter received).req locals.operand = expression)
    (short : expression.text.length < Hw8.BUF_SIZE) :
    ∃ after text, Hw8.respond locals received = some (after, text) ∧
      decodeText text = some (expression, expression.value) := by
  have lead : Hw8.broadcastText name expression =
      ascii '[' :: name ++ [ascii ']'] ++ ascii ' ' :: expression.line := by
    simp [Hw8.broadcastText]
  obtain ⟨after, responded⟩ := Hw8.respond_spec isName (by
    rw [asked]
    exact Expression.fits_of_plain (plain_of_applied applied) (by omega))
  rw [asked] at responded
  exact ⟨after, _, responded, by rw [lead, decodeText_behind applied]⟩

end decodes

/-- For every expression with operators that the servers apply, what they
record can be read back. -/
theorem formula_decodes {expression : Expression}
    (applied : ∀ operator ∈ expression.operators, Applied operator) :
    Decodes expression where
  line := decodeText_line applied
  hw6 globals tail small holds short :=
    hw6_decodes applied (hw6_expression small holds) short
  hw6Record globals next tail response small holds saves ran := by
    have asked := hw6_expression small holds
    obtain ⟨name, record, _, recorded, rfl⟩ := Hw6.mode_check_save saves ran
    rw [asked] at recorded
    have text := CArray.cString?_print recorded.req
    rw [cString_of_notMem expression.zero_notMem_line] at text
    exact ⟨record, expression.line, rfl, text, decodeText_line applied⟩
  hw5 pid locals rest small short := hw5_decodes applied small locals rest short
  hw8 locals received name tail small isName holds short :=
    hw8_decodes applied isName (requestedExpression_encode small holds) short

/-- `1--2*-4=-12`. -/
theorem signs_decode : Decodes ⟨1, [(ascii '-', -2), (ascii '*', -4)]⟩ :=
  formula_decodes (by decide)

end NetworkProgramming
