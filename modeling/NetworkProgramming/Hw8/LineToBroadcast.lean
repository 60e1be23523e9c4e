import NetworkProgramming.Hw8.Client
import NetworkProgramming.Hw8.LineExpression

/-!
# From a typed line to the broadcast

A line that `send_msg` reads whole and that has the tokens of an expression is
packed as the other clients pack it, decoded by the server's handler and sent
to all clients as `[name] a+b*c=r`.  The buffer `buf[1024]` is large enough
because a line of at most 1023 bytes that spells `n` operands prints at most
`1023 - n` bytes: an operand prints at most one byte more than its token has,
and each token but the last is followed by a space that is not printed.
-/

namespace NetworkProgramming.Hw8

open MachineInt Strtok Client

/-- What `fgets` stores of a line that it reads whole: `opCount`, that many
operands and one operator fewer, separated by spaces. -/
structure IsLine (stored : List Byte) (opCount : Nat)
    (operands operators : List (List Byte)) : Prop where
  short : stored.length < BUF_SIZE
  whole : ∃ text, (stored = text ++ [ascii '\n'] ∨ stored = text) ∧
    ascii '\n' ∉ text ∧ 0#8 ∉ text ∧
    ∃ counted, tokens (ascii ' ') text = counted :: (operands ++ operators) ∧
      numberOf counted = opCount
  operandCount : operands.length = opCount
  operatorCount : operators.length = opCount - 1
  positive : 1 ≤ opCount
  small : opCount ≤ 127

section lineExpression

variable {atoi : List Byte → Word} {operands operators : List (List Byte)}

/-- `hw8_client` packs the tokens of a line as the other clients pack typed
numbers. -/
theorem pack_eq_encodeInput (positive : 1 ≤ operands.length)
    (fewer : operators.length = operands.length - 1)
    (small : operands.length ≤ 127) (nonempty : ∀ token ∈ operators, token ≠ [])
    (req : CArray Byte BUF_SIZE) :
    (pack atoi (BitVec.ofNat 8 operands.length) (operands ++ operators) req).map
        Encoded.accepted =
      encodeInput (typed (lineExpression atoi operands operators)) req := by
  have value := toInt_ofNat_char small
  have narrowed : BitVec.ofInt 8 (operands.length : Int) =
      BitVec.ofNat 8 operands.length := by simp
  have count : (typed (lineExpression atoi operands operators)).opCount =
      operands.length := by
    simp [typed, count_lineExpression positive fewer]
  have decrement : ((operands.length : Int) - 1).toNat = operands.length - 1 := by
    omega
  have accepted : ¬ (operands.length : Int) ≤ 0 := by omega
  have operandStep : ∀ i < operands.length, ∀ req : CArray Byte BUF_SIZE,
      storeOperand atoi i ((operands ++ operators).getD i []) req =
        req.write? (i * 4 + 1) (Word.toBytes
          ((typed (lineExpression atoi operands operators)).operand i)) := by
    intro i bound req
    have token : (operands ++ operators).getD i [] = operands.get ⟨i, bound⟩ := by
      simp [List.getD_eq_getElem?_getD, List.getElem?_append_left bound, bound]
    have operand : (typed (lineExpression atoi operands operators)).operand i =
        atoi (operands.get ⟨i, bound⟩) := by
      simp [typed, operands_lineExpression positive fewer,
        List.getD_eq_getElem?_getD, bound]
    rw [storeOperand, token, operand, Nat.add_comm 1]
  have operatorStep : ∀ i < operands.length - 1, ∀ req : CArray Byte BUF_SIZE,
      storeOperator operands.length i (operators.getD i []) req =
        req.set? (operands.length * 4 + 1 + i)
          ((typed (lineExpression atoi operands operators)).operator i) := by
    intro i bound req
    have inside : i < operators.length := by omega
    obtain ⟨operator, rest, shape⟩ :=
      List.exists_cons_of_ne_nil (nonempty _ (List.getElem_mem inside))
    have token : operators.getD i [] = operator :: rest := by
      simp [List.getD_eq_getElem?_getD, inside, shape]
    have typedOperator :
        (typed (lineExpression atoi operands operators)).operator i = operator := by
      simp [typed, operators_lineExpression fewer, List.getD_eq_getElem?_getD,
        inside, shape]
    rw [storeOperator, token, typedOperator]
    simp [Nat.add_comm 1]
  have behind : (operands ++ operators).drop operands.length = operators := by simp
  have bothOperands : min operands.length (operands ++ operators).length =
      operands.length := by simp
  have bothOperators : min (operands.length - 1) operators.length =
      operands.length - 1 := by omega
  simp only [pack, encodeInput, count, narrowed, value, accepted, if_false,
    Int.toNat_natCast, decrement, behind, bothOperands, bothOperators,
    Option.bind_eq_bind, Option.pure_def]
  cases req.set? 0 (BitVec.ofNat 8 operands.length) with
  | none => rfl
  | some req =>
      simp only [Option.bind_some]
      rw [forLoop_congr operandStep]
      cases forLoop _ operands.length req with
      | none => rfl
      | some withOperands =>
          simp only [Option.bind_some]
          rw [forLoop_congr operatorStep]
          cases forLoop _ _ withOperands <;> rfl

end lineExpression

/-! ## A line that has the tokens it declares -/

theorem pack_append {atoi : List Byte → Word} {opCount : Byte}
    {operands operators extra : List (List Byte)}
    (operandCount : operands.length = opCount.toInt.toNat)
    (operatorCount : operators.length = (opCount.toInt - 1).toNat)
    (req : CArray Byte BUF_SIZE) :
    pack atoi opCount (operands ++ operators ++ extra) req =
      pack atoi opCount (operands ++ operators) req := by
  have behind (tail : List (List Byte)) :
      (operands ++ tail).drop opCount.toInt.toNat = tail :=
    List.drop_left' operandCount
  have allOperands (tail : List (List Byte)) :
      min opCount.toInt.toNat (operands ++ tail).length = opCount.toInt.toNat := by
    rw [List.length_append]
    omega
  have allOperators (tail : List (List Byte)) :
      min (opCount.toInt - 1).toNat (operators ++ tail).length =
        (opCount.toInt - 1).toNat := by
    rw [List.length_append]
    omega
  have token {front : List (List Byte)} (tail : List (List Byte)) {i : Nat}
      (bound : i < front.length) : (front ++ tail).getD i [] = front.getD i [] := by
    rw [List.getD_eq_getElem?_getD, List.getD_eq_getElem?_getD,
      List.getElem?_append_left bound]
  have noExtra := allOperators []
  rw [List.append_nil] at noExtra
  simp only [pack, List.append_assoc, behind, allOperands, allOperators, noExtra]
  congr 1
  funext counted
  congr 1
  · refine forLoop_congr fun i bound req => ?_
    rw [token _ (by omega), token _ (by omega)]
  · funext withOperands
    refine forLoop_congr fun i bound req => ?_
    rw [token _ (by omega)]

theorem sendLine_supplied {atoi : List Byte → Word} {stored counted : List Byte}
    {found : List (List Byte)} (short : stored.length < BUF_SIZE)
    (split : lineTokens stored = counted :: found)
    (supplied : Supplied (atoi counted).toInt found)
    (name : CArray Byte NAME_SIZE) (locals : SendLocals) :
    ∃ final tail, sendLine atoi name stored locals =
        some (final, .request (name.cells ++ final.req.cells)) ∧
      final.req.cells =
        (foundExpression atoi (atoi counted).toInt.toNat found).encode ++ tail ∧
      (foundExpression atoi (atoi counted).toInt.toNat found).count =
        (atoi counted).toInt.toNat := by
  obtain ⟨positive, small, enough⟩ := supplied
  obtain ⟨opCount, value⟩ : ∃ opCount : Nat, (atoi counted).toInt = opCount :=
    ⟨(atoi counted).toInt.toNat, by omega⟩
  rw [value, Int.toNat_natCast]
  have narrowed : (atoi counted).setWidth 8 = BitVec.ofNat 8 opCount := by
    have word : atoi counted = BitVec.ofNat 32 opCount := by
      rw [← BitVec.ofInt_toInt (x := atoi counted), value]
      simp
    rw [word]
    simp
  have accepts := @toInt_ofNat_char opCount (by omega)
  obtain ⟨operandCount, behind⟩ := @length_foundOperands found opCount (by omega)
  have operatorCount : ((found.drop opCount).take (opCount - 1)).length =
      (found.take opCount).length - 1 := by
    rw [operandCount, behind]
  have parts : found = found.take opCount ++ (found.drop opCount).take (opCount - 1) ++
      (found.drop opCount).drop (opCount - 1) := by
    rw [List.append_assoc, List.take_append_drop, List.take_append_drop]
  have count := @count_lineExpression atoi _ _ (by omega) operatorCount
  rw [operandCount] at count
  obtain ⟨input, stopped, sent⟩ := @sendLine_request atoi name stored locals
    short _ _ split (by rw [narrowed, accepts]; omega)
  obtain ⟨req, encoded, tail, cells⟩ :=
    @encodeInput_typed _ (foundExpression atoi opCount found)
      (by rw [foundExpression, count]; omega) (by decide) locals.req
  rw [foundExpression, ← pack_eq_encodeInput (by omega) operatorCount (by omega)
    (fun token member => nonempty_of_lineTokens split token
      (List.mem_of_mem_drop (List.mem_of_mem_take member)))] at encoded
  obtain ⟨packed, isPacked, same⟩ := Option.map_eq_some_iff.mp encoded
  cases same
  refine ⟨⟨req, input, stopped⟩, tail, ?_, cells, count⟩
  rw [sent, narrowed, parts, pack_append (by rw [accepts]; omega)
    (by rw [accepts, operatorCount]; omega)]
  rw [operandCount] at isPacked
  rw [isPacked, Option.map_some]

/-! ## The formula of a line fits `buf[1024]` -/

section IsLine

variable {atoi : List Byte → Word} {stored : List Byte} {opCount : Nat}
  {operands operators : List (List Byte)}

theorem IsLine.lineTokens (line : IsLine stored opCount operands operators) :
    ∃ counted, Hw8.lineTokens stored = counted :: (operands ++ operators) ∧
      numberOf counted = opCount ∧
      ((counted :: (operands ++ operators)).map fun token => token.length + 1).sum ≤
        BUF_SIZE ∧
      ∀ token ∈ operators, 0#8 ∉ token := by
  obtain ⟨text, isStored, oneLine, plain, counted, split, count⟩ := line.whole
  have front : (cString stored).takeWhile (· ≠ ascii '\n') = text := by
    have newline : (0#8 : Byte) ≠ ascii '\n' := by decide
    have before : ∀ byte ∈ text, decide (byte ≠ ascii '\n') = true := by
      intro byte member
      simpa using fun equality : byte = ascii '\n' => oneLine (equality ▸ member)
    rcases isStored with rfl | rfl
    · rw [cString_of_notMem (by simp [plain, newline]),
        List.takeWhile_append_of_pos before]
      simp
    · rw [cString_of_notMem plain, List.takeWhile_eq_self_iff.mpr before]
  have bounded : text.length + 1 ≤ BUF_SIZE := by
    have short := line.short
    rcases isStored with rfl | rfl
    · rw [List.length_append] at short
      omega
    · omega
  refine ⟨counted, by rw [Hw8.lineTokens, front, split], count, ?_, ?_⟩
  · rw [← split]
    exact (sum_length_tokens_le text).trans bounded
  · intro token member zero
    refine plain (@mem_of_mem_tokens (ascii ' ') _ _ _ ?_ zero)
    rw [split]
    simp [member]

theorem IsLine.tokens_nonempty (line : IsLine stored opCount operands operators) :
    ∀ token ∈ operands ++ operators, token ≠ [] := by
  obtain ⟨counted, split, _⟩ := line.lineTokens
  exact fun token member => nonempty_of_lineTokens split token member

theorem IsLine.operators_plain (line : IsLine stored opCount operands operators) :
    ∀ operator ∈ (lineExpression atoi operands operators).operators,
      operator ≠ 0#8 := by
  obtain ⟨_, _, _, _, plain⟩ := line.lineTokens
  exact plain_lineExpression
    (fun token member => line.tokens_nonempty token (by simp [member])) plain

/-- With `n` operands the formula has at most `1023 - n` bytes. -/
theorem IsLine.length_text (line : IsLine stored opCount operands operators)
    (reads : IsAtoi atoi) :
    (lineExpression atoi operands operators).text.length + opCount < BUF_SIZE := by
  obtain ⟨counted, split, _, total, plain⟩ := line.lineTokens
  have countToken := List.length_pos_iff.mpr (ne_nil_of_mem_tokens
    (split ▸ by simp : counted ∈ Hw8.lineTokens stored))
  have operandCount := line.operandCount
  have operatorCount := line.operatorCount
  have positive := line.positive
  have bound := length_text_lineExpression_le (printsShort_of_isAtoi reads) (by omega)
    (by omega) line.tokens_nonempty plain
  rw [List.map_cons, List.sum_cons] at total
  omega

end IsLine

/-! ## The end of the way -/

theorem scatter_sent (locals : Locals) (name : CArray Byte NAME_SIZE)
    (req : CArray Byte BUF_SIZE) :
    locals.scatter (name.cells ++ req.cells) =
      { locals with name := name, req := req } := by
  have front : (name.cells ++ req.cells).take NAME_SIZE = name.cells := by
    rw [List.take_append_of_le_length (by rw [name.length_cells]),
      List.take_of_length_le (by rw [name.length_cells])]
  have back : (name.cells ++ req.cells).drop NAME_SIZE = req.cells :=
    List.drop_left' name.length_cells
  have nameFilled : locals.name.fill name.cells = name :=
    CArray.ext (CArray.cells_fill_full _ name.length_cells)
  have reqFilled : locals.req.fill req.cells = req :=
    CArray.ext (CArray.cells_fill_full _ req.length_cells)
  simp only [Locals.scatter, front, back, nameFilled, reqFilled]

theorem IsLine.sendLine {atoi : List Byte → Word} {stored : List Byte}
    {opCount : Nat} {operands operators : List (List Byte)}
    (line : IsLine stored opCount operands operators) (reads : IsAtoi atoi)
    (name : CArray Byte NAME_SIZE) (locals : SendLocals) :
    ∃ final tail, Hw8.sendLine atoi name stored locals =
        some (final, .request (name.cells ++ final.req.cells)) ∧
      final.req.cells = (lineExpression atoi operands operators).encode ++ tail := by
  obtain ⟨counted, split, count, _, _⟩ := line.lineTokens
  have operandCount := line.operandCount
  have operatorCount := line.operatorCount
  have positive := line.positive
  have small := line.small
  have value : (atoi counted).toInt = opCount := by
    rw [← count]
    exact reads.inRange counted (by omega) (by omega)
  have whole : foundExpression atoi opCount (operands ++ operators) =
      lineExpression atoi operands operators := by
    rw [foundExpression, List.take_left' operandCount, List.drop_left' operandCount,
      List.take_of_length_le (by omega)]
  obtain ⟨final, tail, sent, cells, _⟩ := @sendLine_supplied atoi _ _ _ line.short split
    ⟨by omega, by omega, by rw [List.length_append]; omega⟩ name locals
  rw [value, Int.toNat_natCast, whole] at cells
  exact ⟨final, tail, sent, cells⟩

/-- Every line of an expression, after any lines, makes the client send one
request, and the server that receives it whole sends all clients the name, the
formula and its value. -/
theorem line_to_broadcast {atoi : List Byte → Word} (reads : IsAtoi atoi)
    {name : CArray Byte NAME_SIZE} {letters : List Byte}
    (isName : name.cString? = some letters) (four : letters.length = 4)
    {earlier : List (List Byte)}
    (read : ∀ stored ∈ earlier, stored.length < BUF_SIZE)
    {stored : List Byte} {opCount : Nat} {operands operators : List (List Byte)}
    (line : IsLine stored opCount operands operators) (start : SendLocals) :
    ∃ running requests, send_msg atoi name earlier start = some (running, requests) ∧
      ∀ reached, running = some reached → ∃ final request,
        send_msg atoi name (earlier ++ [stored]) start =
            some (some final, requests ++ [request]) ∧
          request.length = NAME_SIZE + BUF_SIZE ∧
          (∀ locals : Locals, ∃ after, respond locals request =
            some (after,
              broadcastText letters (lineExpression atoi operands operators))) ∧
          (lineExpression atoi operands operators).text =
            decimal (lineExpression atoi operands operators).first.toInt ++
              (lineExpression atoi operands operators).steps.flatMap stepText ∧
          (lineExpression atoi operands operators).text.length < BUF_SIZE ∧
          (broadcastText letters
            (lineExpression atoi operands operators)).length < BUF_SIZE * 2 := by
  obtain ⟨running, requests, ran⟩ := @send_msg_isSome atoi name earlier read start
  refine ⟨running, requests, ran, ?_⟩
  rintro reached rfl
  obtain ⟨final, tail, sent, cells⟩ := line.sendLine reads name reached
  have plain := @IsLine.operators_plain atoi _ _ _ _ line
  have bound := line.length_text reads
  have whole : (lineExpression atoi operands operators).text =
      decimal (lineExpression atoi operands operators).first.toInt ++
        (lineExpression atoi operands operators).steps.flatMap stepText := by
    rw [Expression.text, stepsText_of_plain fun step member =>
      plain step.1 (List.mem_map_of_mem member)]
  have small : (lineExpression atoi operands operators).count ≤ 127 := by
    have size := line.operandCount
    have positive := line.positive
    have small := line.small
    rw [count_lineExpression (by omega) (by rw [line.operatorCount, size]), size]
    exact small
  refine ⟨final, name.cells ++ final.req.cells, ?_, ?_, fun locals => ?_, whole,
    by omega, ?_⟩
  · rw [send_msg_append ran]
    simp [send_msg, sent]
  · rw [List.length_append, name.length_cells, final.req.length_cells]
  · have scattered := scatter_sent locals name final.req
    have requested : requestedExpression
        (locals.scatter (name.cells ++ final.req.cells)).req locals.operand =
          lineExpression atoi operands operators := by
      rw [scattered]
      exact requestedExpression_encode small cells
    obtain ⟨after, responded⟩ := @respond_spec locals _ letters
      (by rw [scattered]; exact isName)
      (by rw [requested]; exact Expression.fits_of_plain plain (by omega))
    rw [requested] at responded
    exact ⟨after, responded⟩
  · have value := length_decimal_word_le (lineExpression atoi operands operators).value
    have size : BUF_SIZE = 1024 := rfl
    simp only [broadcastText, Expression.line, resultText, List.length_append,
      List.length_cons, List.length_nil, four]
    omega

def kimName : CArray Byte NAME_SIZE := ⟨[107#8, 105#8, 109#8, 49#8, 0#8], rfl⟩

/-- `3 5`, a line with too few tokens. -/
def shortLine : List Byte := [ascii '3', ascii ' ', ascii '5', ascii '\n']

def productLine : List Byte :=
  [ascii '2', ascii ' ', ascii '3', ascii '0', ascii ' ', ascii '-', ascii '4',
    ascii ' ', ascii '*', ascii '\n']

def SendLocals.zero : SendLocals where
  req := CArray.replicate BUF_SIZE 0#8
  input := CArray.replicate BUF_SIZE 0#8
  position := 0

theorem line_to_broadcast_product : ∃ final requests request,
    send_msg atoi kimName [shortLine, productLine] SendLocals.zero =
        some (some final, requests ++ [request]) ∧
      ∀ locals, ∃ after, respond locals request = some (after,
        broadcastText [107#8, 105#8, 109#8, 49#8] ⟨30#32, [(ascii '*', -4#32)]⟩) := by
  have isLine : IsLine productLine 2 [[ascii '3', ascii '0'], [ascii '-', ascii '4']]
      [[ascii '*']] := {
    short := by decide
    whole := ⟨productLine.take 9, .inl (by decide), by decide, by decide,
      [ascii '2'], by decide, by decide⟩
    operandCount := rfl
    operatorCount := rfl
    positive := by decide
    small := by decide }
  obtain ⟨running, requests, ran, continues⟩ := @line_to_broadcast atoi isAtoi_atoi
    kimName [107#8, 105#8, 109#8, 49#8] (by decide) rfl [shortLine] (by decide) _ _ _ _
    isLine SendLocals.zero
  have goesOn : (send_msg atoi kimName [shortLine] SendLocals.zero).any
      (fun result => result.1.isSome) = true := by decide +kernel
  rw [ran, Option.any_some] at goesOn
  obtain ⟨reached, isReached⟩ := Option.isSome_iff_exists.mp goesOn
  obtain ⟨final, request, sent, _, broadcast, _⟩ := continues reached isReached
  exact ⟨final, requests, request, sent, broadcast⟩

end NetworkProgramming.Hw8
