import NetworkProgramming.Calculator

/-!
# `hw3_server`

One datagram is one request.  The receive buffer and the operand array live in
`main` and keep their contents from one datagram to the next.
-/

namespace NetworkProgramming.Hw3

open MachineInt

def MAX : Nat := 1024

/-- The locals of `main` that outlive an iteration. -/
structure Server where
  buf : CArray Byte MAX
  operand : CArray Word MAX

/-- What the server does with a datagram. -/
inductive Outcome where
  /-- `opCount <= 0`: the server closes. -/
  | closed (opCount : Int)
  /-- The four bytes of `opResult` go back; `steps` are the operators and
  operands that were used. -/
  | replied (steps : List (Byte × Word)) (opResult : Word)

/-- `recvfrom(sfd, &buf, MAX, ...)`: the received length is not kept. -/
def recvfrom (server : Server) (datagram : List Byte) : Server :=
  { server with buf := server.buf.fill datagram }

def answer (server : Server) : Option (Server × Outcome) := do
  let count ← server.buf.get? 0
  let opCount := count.toInt
  if opCount ≤ 0 then
    return (server, .closed opCount)
  let operand ← decodeOperands server.buf opCount.toNat server.operand
  let first ← operand.get? 0
  let final ← evaluationLoop (bufferOperator server.buf opCount.toNat)
    (fun _ _ => some ()) operand (opCount - 1).toNat ⟨(), [], first, ()⟩
  return ({ server with operand := operand }, .replied final.steps final.opResult)

def serve (server : Server) (datagram : List Byte) : Option (Server × Outcome) :=
  answer (recvfrom server datagram)

theorem answer_positive {server : Server} {count : Byte}
    (head : server.buf.get? 0 = some count) (positive : 0 < count.toInt) :
    ∃ operand,
      answer server = some ({ server with operand := operand },
        .replied (decodeExpression server.buf.cells count.toInt.toNat).steps
          (decodeExpression server.buf.cells count.toInt.toNat).value) ∧
      operand.cells =
        (decodeExpression server.buf.cells count.toInt.toNat).operands ++
          server.operand.cells.drop count.toInt.toNat := by
  have max : MAX = 1024 := rfl
  have upper := @BitVec.toInt_lt 8 count
  have small : count.toInt.toNat ≤ 127 := by omega
  obtain ⟨operand, decoded⟩ : ∃ operand, decodeOperands server.buf
      count.toInt.toNat server.operand = some operand :=
    decodeOperands_isSome (by omega) (by omega)
  have firstOperand : operand.get? 0 =
      some (decodeExpression server.buf.cells count.toInt.toNat).first := by
    have bound : 0 < count.toInt.toNat := by omega
    simpa [decodeExpression] using get?_decodeOperands decoded bound
  have printed (steps : List (Byte × Word)) :
      steps.foldlM (fun (_ : Unit) _ => some ()) () = some () := by
    induction steps with
    | nil => rfl
    | cons step steps induction => simpa using induction
  have loop := @evaluationLoop_eq Unit Unit _ _ (fun _ _ => some ()) _ _ _
    (supplies_bufferOperator (by omega) decoded)
    (decodeExpression server.buf.cells count.toInt.toNat).first ()
  rw [printed] at loop
  have length :
      (decodeExpression server.buf.cells count.toInt.toNat).steps.length =
        (count.toInt - 1).toNat := by
    simp [decodeExpression]
  refine ⟨operand, ?_, ?_⟩
  · have notClosed : ¬ count.toInt ≤ 0 := by omega
    rw [length] at loop
    simp only [answer, head, Option.bind_eq_bind, Option.bind_some,
      if_neg notClosed, decoded, firstOperand, loop, Option.map_some]
    rfl
  · rw [decodeOperands_cells decoded]
    congr 1
    obtain ⟨index, shape⟩ : ∃ index, count.toInt.toNat = index + 1 :=
      ⟨count.toInt.toNat - 1, by omega⟩
    rw [shape, List.range_succ_eq_map]
    simp [decodeExpression, Expression.operands]

/-- A datagram that is an encoded request gets the value of its expression,
whatever earlier datagrams left in the buffer. -/
theorem serve_encode (server : Server) {expression : Expression}
    (small : expression.count ≤ 127) :
    ∃ after, serve server expression.encode =
        some (after, .replied expression.steps expression.value) ∧
      after.operand.cells.take expression.count = expression.operands := by
  have max : MAX = 1024 := rfl
  have fits : expression.encode.length ≤ MAX := by
    rw [expression.length_encode]
    omega
  have cells := CArray.cells_fill server.buf fits
  have head : (recvfrom server expression.encode).buf.get? 0 =
      some (BitVec.ofNat 8 expression.count) := by
    simp only [recvfrom, CArray.get?, cells]
    simp [Expression.encode]
  have value := toInt_ofNat_char small
  have positive : 0 < expression.count := by simp [Expression.count]
  obtain ⟨operand, answered, operandCells⟩ :=
    answer_positive head (by omega)
  have decoded : decodeExpression (recvfrom server expression.encode).buf.cells
      expression.count = expression := by
    simp only [recvfrom, cells]
    exact decodeExpression_encode expression _
  rw [value, Int.toNat_natCast, decoded] at answered operandCells
  refine ⟨_, answered, ?_⟩
  rw [operandCells, List.take_left' expression.length_operands]

end NetworkProgramming.Hw3
