import NetworkProgramming.Foundation.Transition
import NetworkProgramming.Hw3

/-!
# What a reply of `hw3_server` depends on

`recvfrom` overwrites the front of a buffer that still holds the datagrams
before, and the length that it returns is discarded.  What the server makes of a
short datagram comes from both.  A receipt is determined when the bytes of the
datagram alone decide the reply: all bytes of the request are there, or the
count closes the server, or what the missing operators do makes no difference.
-/

namespace NetworkProgramming.Hw3

open MachineInt Transition

/-- What `recvfrom` does: it delivers a datagram, or it fails. -/
inductive Receipt where
  | datagram (bytes : List Byte) (fits : bytes.length ≤ MAX)
  | failed

def receive (server : Server) : Receipt → Server
  | .datagram bytes _ => recvfrom server bytes
  | .failed => server

/-- The reply, or none when the server closes. -/
def Outcome.reply? : Outcome → Option Word
  | .closed _ => none
  | .replied _ opResult => some opResult

def react (server : Server) (receipt : Receipt) : Option (Option Word) :=
  (answer (receive server receipt)).map fun answered => answered.2.reply?

/-- The loop of `main` goes on after a reply. -/
def step (server : Server) (receipt : Receipt) : Option Server := do
  let answered ← answer (receive server receipt)
  let _ ← answered.2.reply?
  return answered.1

/-- Whatever was received before from either memory, the receipt has one
reaction, and without bytes it has no reply. -/
structure Isolated (first second : Server) (receipt : Receipt) : Prop where
  same : ∀ {before after : List Receipt} {left right : Server},
    run step first before = some left → run step second after = some right →
      react left receipt = react right receipt
  silent : receipt = .failed ∨ receipt = .datagram [] (Nat.zero_le _) →
    ∀ {before : List Receipt} {server : Server}, run step first before = some server →
      react server receipt = some none

/-- The operands that a datagram has and whose operators it does not have. -/
def unpaired (bytes : List Byte) (count : Nat) : List (Byte × Word) :=
  (decodeExpression bytes count).steps.drop (bytes.length - (1 + 4 * count))

def paired (bytes : List Byte) (count : Nat) : List (Byte × Word) :=
  (decodeExpression bytes count).steps.take (bytes.length - (1 + 4 * count))

/-- All bytes of a request of `count` operands are there, or all operands are,
what is there comes to 0, and every operand without an operator is 0. -/
def Complete (bytes : List Byte) (count : Nat) : Prop :=
  5 * count ≤ bytes.length ∨
    (1 + 4 * count ≤ bytes.length ∧
      evaluateSteps (wordAt bytes 1) (paired bytes count) = 0 ∧
      ∀ step ∈ unpaired bytes count, step.2 = 0)

def Determined : Receipt → Prop
  | .failed => False
  | .datagram [] _ => False
  | .datagram (head :: bytes) _ =>
      head.toInt ≤ 0 ∨ Complete (head :: bytes) head.toInt.toNat

/-! ## The reaction as a function of the buffer -/

/-- The reply to what is in the buffer. -/
def replyTo (cells : List Byte) : Option Word :=
  let count := (cells.headD 0#8).toInt
  if count ≤ 0 then none else some (decodeExpression cells count.toNat).value

theorem answer_eq (server : Server) :
    ∃ after outcome, answer server = some (after, outcome) ∧
      outcome.reply? = replyTo server.buf.cells ∧ after.buf = server.buf := by
  obtain ⟨count, tail, shape⟩ : ∃ count tail, server.buf.cells = count :: tail :=
    List.exists_cons_of_length_pos (by rw [server.buf.length_cells]; decide)
  have head : server.buf.get? 0 = some count := by
    rw [CArray.get?, shape]
    rfl
  by_cases closes : count.toInt ≤ 0
  · refine ⟨server, .closed count.toInt, ?_, ?_, rfl⟩
    · simp [answer, head, closes]
    · simp [replyTo, shape, closes, Outcome.reply?]
  · obtain ⟨operand, ran, _⟩ := answer_positive head (by omega)
    refine ⟨{ server with operand := operand }, _, ran, ?_, rfl⟩
    simp [replyTo, shape, closes, Outcome.reply?]

theorem react_eq (server : Server) (receipt : Receipt) :
    react server receipt = some (replyTo (receive server receipt).buf.cells) := by
  obtain ⟨after, outcome, ran, reply, _⟩ := answer_eq (receive server receipt)
  simp [react, ran, reply]

theorem cells_receive (server : Server) {bytes : List Byte}
    (fits : bytes.length ≤ MAX) :
    (receive server (.datagram bytes fits)).buf.cells =
      bytes ++ server.buf.cells.drop bytes.length :=
  CArray.cells_fill server.buf fits

theorem exists_history (memory : Server) {head : Byte} {tail : List Byte}
    (positive : 0 < head.toInt) (full : (head :: tail).length = MAX) :
    ∃ receipts server, run step memory receipts = some server ∧
      server.buf.cells = head :: tail := by
  let receipt : Receipt := .datagram (head :: tail) (Nat.le_of_eq full)
  have cells : (receive memory receipt).buf.cells = head :: tail := by
    rw [cells_receive, full, List.drop_of_length_le (by rw [memory.buf.length_cells]),
      List.append_nil]
  obtain ⟨after, outcome, ran, reply, kept⟩ := answer_eq (receive memory receipt)
  have replies : ¬ head.toInt ≤ 0 := by omega
  refine ⟨[receipt], after, ?_, by rw [kept, cells]⟩
  simp [run, step, ran, reply, cells, replyTo, replies]

/-! ## What missing operators can do -/

theorem evaluateSteps_zip_cons (value operand : Word) (operator : Byte)
    (operators : List Byte) (operands : List Word) :
    evaluateSteps value ((operator :: operators).zip (operand :: operands)) =
      evaluateSteps (applyOperator operator value operand)
        (operators.zip operands) := rfl

theorem evaluateSteps_zip_zero (value : Word) (operands : List Word) (size : Nat) :
    evaluateSteps value ((List.replicate size 0#8).zip operands) = value := by
  induction operands generalizing size with
  | nil => simp [evaluateSteps]
  | cons operand operands induction =>
      cases size with
      | zero => simp [evaluateSteps]
      | succ size =>
          rw [List.replicate_succ, evaluateSteps_zip_cons]
          exact induction size

theorem evaluateSteps_zip_of_zero {operands : List Word}
    (zero : ∀ operand ∈ operands, operand = 0) (operators : List Byte) :
    evaluateSteps 0 (operators.zip operands) = 0 := by
  induction operands generalizing operators with
  | nil => simp [evaluateSteps]
  | cons operand operands induction =>
      cases operators with
      | nil => simp [evaluateSteps]
      | cons operator operators =>
          have absorbed : applyOperator operator 0 operand = 0 := by
            rw [zero operand (by simp)]
            simp [applyOperator]
          rw [evaluateSteps_zip_cons, absorbed]
          exact induction (fun later member => zero later (by simp [member])) operators

/-- When the operators before some operands make no difference, the operands
and the value before them are 0: else one `+` or one `*` changes the result. -/
theorem zero_of_same {value : Word} {operands : List Word} {size : Nat}
    (enough : operands.length ≤ size)
    (same : ∀ first second : List Byte, first.length = size → second.length = size →
      evaluateSteps value (first.zip operands) =
        evaluateSteps value (second.zip operands)) :
    (∀ operand ∈ operands, operand = 0) ∧ (operands ≠ [] → value = 0) := by
  induction operands generalizing size with
  | nil => simp
  | cons operand operands induction =>
      cases size with
      | zero => simp at enough
      | succ size =>
          have onlyFirst (operator : Byte) :
              evaluateSteps value ((operator :: List.replicate size 0#8).zip
                (operand :: operands)) = applyOperator operator value operand := by
            rw [evaluateSteps_zip_cons, evaluateSteps_zip_zero]
          have changes (operator : Byte) :
              applyOperator operator value operand = value := by
            have equal := same (operator :: List.replicate size 0#8)
              (0#8 :: List.replicate size 0#8) (by simp) (by simp)
            rw [onlyFirst, onlyFirst] at equal
            exact equal
          have operandZero : operand = 0 := by
            simpa [applyOperator] using changes (ascii '+')
          have valueZero : value = 0 := by
            have product := changes (ascii '*')
            rw [operandZero] at product
            simpa [applyOperator, ascii] using product.symm
          have later := @induction size (by simpa using enough) (by
            intro first second firstSize secondSize
            exact same (0#8 :: first) (0#8 :: second) (by simp [firstSize])
              (by simp [secondSize]))
          refine ⟨?_, fun _ => valueZero⟩
          intro other member
          rcases List.mem_cons.mp member with rfl | member
          · exact operandZero
          · exact later.1 other member

/-- Behind a datagram with all operands the operators that it misses are read
from the old buffer. -/
theorem decodeExpression_missing {bytes tail : List Byte} {count : Nat}
    (operands : 1 + 4 * count ≤ bytes.length) (short : bytes.length ≤ 5 * count)
    (total : 5 * count ≤ bytes.length + tail.length) :
    decodeExpression (bytes ++ tail) count = ⟨wordAt bytes 1,
      paired bytes count ++ tail.zip ((unpaired bytes count).map Prod.snd)⟩ := by
  have steps : (decodeExpression (bytes ++ tail) count).steps =
      paired bytes count ++ tail.zip ((unpaired bytes count).map Prod.snd) := by
    apply List.ext_getElem
    · simp [decodeExpression, paired, unpaired]
      omega
    · intro index bound _
      simp only [decodeExpression, List.length_map, List.length_range] at bound
      by_cases there : index < bytes.length - (1 + 4 * count)
      · have front : index < (paired bytes count).length := by
          simp [paired, decodeExpression]
          omega
        have inside : 1 + count * 4 + index < bytes.length := by omega
        rw [List.getElem_append_left front]
        simp only [decodeExpression, paired, List.getElem_map, List.getElem_range,
          List.getElem_take, List.getD_eq_getElem?_getD,
          List.getElem?_append_left inside]
        rw [wordAt_append (by omega)]
      · have front : (paired bytes count).length =
            bytes.length - (1 + 4 * count) := by
          simp [paired, decodeExpression]
          omega
        have offset : 1 + count * 4 + index - bytes.length =
            index - (bytes.length - (1 + 4 * count)) := by
          omega
        have position : bytes.length - (1 + 4 * count) +
            (index - (bytes.length - (1 + 4 * count))) = index := by
          omega
        rw [List.getElem_append_right (by omega)]
        simp only [decodeExpression, unpaired, List.getElem_map, List.getElem_range,
          List.getElem_drop, List.getElem_zip, List.getD_eq_getElem?_getD,
          List.getElem?_append_right (show bytes.length ≤ 1 + count * 4 + index by omega),
          offset, front, position]
        rw [wordAt_append (by omega), List.getElem?_eq_getElem (by omega),
          Option.getD_some]
  have first : (decodeExpression (bytes ++ tail) count).first = wordAt bytes 1 := by
    simp only [decodeExpression]
    rw [wordAt_append (by omega)]
  rw [← first, ← steps]

/-- When the last operator is `+`, the last operand is added to something that
its own bytes do not change. -/
theorem value_set_top {cells : List Byte} {count : Nat} (positive : 0 < count)
    (plus : 2 ≤ count → cells[5 * count - 1]? = some (ascii '+')) :
    ∃ front, ∀ byte, (decodeExpression (cells.set (4 * count) byte) count).value =
      front + wordAt (cells.set (4 * count) byte) (4 * count - 3) := by
  obtain ⟨before, rfl⟩ : ∃ before, count = before + 1 := ⟨count - 1, by omega⟩
  have last : 4 * (before + 1) - 3 = 1 + before * 4 := by omega
  cases before with
  | zero =>
      refine ⟨0, fun byte => ?_⟩
      simp [decodeExpression, Expression.value, evaluateSteps]
  | succ before =>
      have operator := plus (by omega)
      refine ⟨evaluateSteps (wordAt cells 1) ((List.range before).map fun index =>
        (cells.getD (1 + (before + 2) * 4 + index) 0#8,
          wordAt cells (1 + (index + 1) * 4))), fun byte => ?_⟩
      have sizes : before + 1 + 1 - 1 = before + 1 := rfl
      have lastOperator : (cells.set (4 * (before + 2)) byte).getD
          (1 + (before + 2) * 4 + before) 0#8 = ascii '+' := by
        have position : 5 * (before + 2) - 1 = 1 + (before + 2) * 4 + before := by omega
        rw [position] at operator
        rw [List.getD_eq_getElem?_getD, List.getElem?_set_ne (by omega), operator,
          Option.getD_some]
      have earlier : (List.range before).map (fun index =>
          ((cells.set (4 * (before + 2)) byte).getD (1 + (before + 2) * 4 + index) 0#8,
            wordAt (cells.set (4 * (before + 2)) byte) (1 + (index + 1) * 4))) =
          (List.range before).map (fun index =>
            (cells.getD (1 + (before + 2) * 4 + index) 0#8,
              wordAt cells (1 + (index + 1) * 4))) := by
        apply List.map_congr_left
        intro index member
        have bound : index < before := List.mem_range.mp member
        rw [wordAt_set (by omega), List.getD_eq_getElem?_getD,
          List.getD_eq_getElem?_getD, List.getElem?_set_ne (by omega)]
      unfold decodeExpression Expression.value
      rw [sizes, List.range_succ, List.map_append, evaluateSteps_append, earlier,
        wordAt_set (by omega), last, List.map_singleton, lastOperator]
      simp [evaluateSteps, applyOperator]

/-! ## The datagrams whose bytes decide -/

section complete

variable {bytes : List Byte} {count : Nat}

theorem value_missing (operands : 1 + 4 * count ≤ bytes.length)
    (short : bytes.length ≤ 5 * count) {tail : List Byte}
    (total : 5 * count ≤ bytes.length + tail.length) :
    (decodeExpression (bytes ++ tail) count).value =
      evaluateSteps (evaluateSteps (wordAt bytes 1) (paired bytes count))
        (tail.zip ((unpaired bytes count).map Prod.snd)) := by
  rw [decodeExpression_missing operands short total, Expression.value,
    evaluateSteps_append]

theorem same_of_complete (positive : 0 < count) (complete : Complete bytes count)
    {first second : List Byte} (firstTotal : 5 * count ≤ bytes.length + first.length)
    (secondTotal : 5 * count ≤ bytes.length + second.length) :
    (decodeExpression (bytes ++ first) count).value =
      (decodeExpression (bytes ++ second) count).value := by
  by_cases whole : 5 * count ≤ bytes.length
  · rw [decodeExpression_append positive whole, decodeExpression_append positive whole]
  · obtain ⟨operands, zero, others⟩ := complete.resolve_left whole
    have operandsZero : ∀ operand ∈ (unpaired bytes count).map Prod.snd,
        operand = 0 := by
      simpa using fun operand operator member => others (operator, operand) member
    rw [value_missing operands (by omega) firstTotal,
      value_missing operands (by omega) secondTotal, zero,
      evaluateSteps_zip_of_zero operandsZero, evaluateSteps_zip_of_zero operandsZero]

theorem complete_of_same (positive : 0 < count) (small : 5 * count ≤ MAX)
    (fits : bytes.length ≤ MAX)
    (same : ∀ first second : List Byte, first.length = MAX - bytes.length →
      second.length = MAX - bytes.length →
      (decodeExpression (bytes ++ first) count).value =
        (decodeExpression (bytes ++ second) count).value) :
    Complete bytes count := by
  by_cases whole : 5 * count ≤ bytes.length
  · exact .inl whole
  · by_cases operands : 1 + 4 * count ≤ bytes.length
    · have enough : ((unpaired bytes count).map Prod.snd).length ≤
          MAX - bytes.length := by
        simp [unpaired, decodeExpression]
        omega
      have someMissing : (unpaired bytes count).map Prod.snd ≠ [] := by
        apply List.ne_nil_of_length_pos
        simp [unpaired, decodeExpression]
        omega
      obtain ⟨operandsZero, valueZero⟩ := zero_of_same enough (by
        intro first second firstSize secondSize
        rw [← value_missing operands (by omega) (by omega),
          ← value_missing operands (by omega) (by omega)]
        exact same first second firstSize secondSize)
      refine .inr ⟨operands, valueZero someMissing, ?_⟩
      intro step member
      exact operandsZero step.2 (List.mem_map_of_mem member)
    · -- The last operand is cut: its top byte comes from the old buffer.
      let old := List.replicate (MAX - bytes.length) (ascii '+')
      have size : (bytes ++ old).length = MAX := by
        simp only [old, List.length_append, List.length_replicate]
        omega
      have plus : 2 ≤ count → (bytes ++ old)[5 * count - 1]? = some (ascii '+') := by
        intro two
        rw [List.getElem?_append_right (by omega),
          List.getElem?_replicate_of_lt (by omega)]
      obtain ⟨front, value⟩ := value_set_top positive plus
      have split (byte : Byte) : (bytes ++ old).set (4 * count) byte =
          bytes ++ old.set (4 * count - bytes.length) byte :=
        List.set_append_right _ _ (by omega)
      have equal := same (old.set (4 * count - bytes.length) 0#8)
        (old.set (4 * count - bytes.length) 1#8) (by simp [old]) (by simp [old])
      rw [← split, ← split, value, value] at equal
      have top : 4 * count = 4 * count - 3 + 3 := by omega
      have words := add_left_cancel equal
      rw [top] at words
      simp only [Nat.add_sub_cancel] at words
      have bytes := wordAt_set_inj (by omega) words
      cases bytes

end complete

theorem replyTo_positive {head : Byte} (positive : ¬ head.toInt ≤ 0)
    (cells : List Byte) : replyTo (head :: cells) =
      some (decodeExpression (head :: cells) head.toInt.toNat).value := by
  simp [replyTo, positive]

theorem not_silent (memory : Server) : ∃ before server,
    run step memory before = some server ∧ replyTo server.buf.cells ≠ none := by
  obtain ⟨before, server, reached, cells⟩ :=
    @exists_history memory 1#8 (List.replicate (MAX - 1) 0#8) (by decide) (by
      rw [List.length_cons, List.length_replicate]
      rfl)
  refine ⟨before, server, reached, ?_⟩
  rw [cells, replyTo_positive (by decide)]
  exact Option.some_ne_none _

theorem exists_tail (memory : Server) {head : Byte} {bytes tail : List Byte}
    (total : (head :: bytes).length + tail.length = MAX) :
    ∃ before server, run step memory before = some server ∧
      server.buf.cells.drop (head :: bytes).length = tail := by
  obtain ⟨before, server, reached, cells⟩ := @exists_history memory 1#8
    (List.replicate bytes.length 0#8 ++ tail) (by decide) (by
      rw [← total]
      simp
      omega)
  refine ⟨before, server, reached, ?_⟩
  rw [cells, List.length_cons, List.drop_succ_cons]
  exact List.drop_left' List.length_replicate

theorem same_of_determined {head : Byte} {bytes first second : List Byte}
    (determined : head.toInt ≤ 0 ∨ Complete (head :: bytes) head.toInt.toNat)
    (firstTotal : (head :: bytes).length + first.length = MAX)
    (secondTotal : (head :: bytes).length + second.length = MAX) :
    replyTo (head :: bytes ++ first) = replyTo (head :: bytes ++ second) := by
  have max : MAX = 1024 := rfl
  by_cases closes : head.toInt ≤ 0
  · simp [replyTo, closes]
  · have upper := @BitVec.toInt_lt 8 head
    rw [List.cons_append, List.cons_append, replyTo_positive closes,
      replyTo_positive closes]
    congr 1
    exact same_of_complete (by omega) (determined.resolve_left closes) (by omega)
      (by omega)

/-- The reply to a receipt and the decision to close depend on its bytes alone
exactly when it is determined. -/
theorem datagram_isolated_iff (first second : Server) (receipt : Receipt) :
    Isolated first second receipt ↔ Determined receipt := by
  have max : MAX = 1024 := rfl
  constructor
  · intro isolated
    obtain ⟨before, server, reached, replies⟩ := not_silent first
    rcases receipt with ⟨bytes, fits⟩ | _
    · cases bytes with
      | nil =>
          have silent := isolated.silent (.inr rfl) reached
          rw [react_eq, cells_receive] at silent
          exact absurd (Option.some.inj silent) replies
      | cons head bytes =>
          by_cases closes : head.toInt ≤ 0
          · exact .inl closes
          · refine .inr (complete_of_same (by omega) ?_ fits ?_)
            · have := @BitVec.toInt_lt 8 head
              omega
            · intro left right leftSize rightSize
              obtain ⟨leftBefore, leftServer, leftReached, leftTail⟩ :=
                @exists_tail first head bytes left (by omega)
              obtain ⟨rightBefore, rightServer, rightReached, rightTail⟩ :=
                @exists_tail second head bytes right (by omega)
              have same := isolated.same leftReached rightReached
              rw [react_eq, react_eq, cells_receive, cells_receive, leftTail, rightTail,
                List.cons_append, List.cons_append, replyTo_positive closes,
                replyTo_positive closes] at same
              exact Option.some.inj (Option.some.inj same)
    · have silent := isolated.silent (.inl rfl) reached
      rw [react_eq] at silent
      exact absurd (Option.some.inj silent) replies
  · intro determined
    rcases receipt with ⟨_ | ⟨head, bytes⟩, fits⟩ | _
    · cases determined
    · constructor
      · intro _ _ left right _ _
        have leftSize := left.buf.length_cells
        have rightSize := right.buf.length_cells
        rw [react_eq, react_eq, cells_receive, cells_receive]
        congr 1
        apply same_of_determined determined
        · rw [List.length_drop]
          omega
        · rw [List.length_drop]
          omega
      · intro given
        rcases given with failed | empty
        · cases failed
        · cases empty
    · cases determined

def zeroed : Server := ⟨CArray.replicate MAX 0#8, CArray.replicate MAX 0⟩

def short : Receipt := .datagram [1#8] (by decide)

/-- A datagram that holds nothing but the count 1 is answered with the operand
of the datagram before. -/
theorem short_answered_from_before : ¬ Isolated zeroed zeroed short := by
  intro isolated
  have five : (run step zeroed [.datagram [1#8, 5#8, 0#8, 0#8, 0#8] (by decide)]).map
      (fun server => react server short) = some (some (some 5)) := by
    decide +kernel
  have seven : (run step zeroed [.datagram [1#8, 7#8, 0#8, 0#8, 0#8] (by decide)]).map
      (fun server => react server short) = some (some (some 7)) := by
    decide +kernel
  obtain ⟨left, leftReached, leftReply⟩ := Option.map_eq_some_iff.mp five
  obtain ⟨right, rightReached, rightReply⟩ := Option.map_eq_some_iff.mp seven
  have same := isolated.same leftReached rightReached
  rw [leftReply, rightReply] at same
  cases same

end NetworkProgramming.Hw3
