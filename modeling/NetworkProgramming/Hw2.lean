import NetworkProgramming.Client
import NetworkProgramming.Hw5.Worker

/-!
# `hw2_client` and `hw2_server`

The server reads the count, the operands and one operator, and at the end of
every iteration of the loop one more operator, so it takes one byte more than
the request has.  The client sends `8 * n - 4` bytes of its buffer: more than
that for two operands and more, and two bytes fewer for one.
-/

namespace NetworkProgramming.Hw2

open MachineInt Client Hw5

/-- 1024, as in `hw5_server`. -/
abbrev MAX : Nat := Hw5.MAX

/-- The locals of `main` that outlive a connection. -/
structure Server where
  opCount : Byte
  operator : Byte
  operand : CArray Word MAX

/-- How the server leaves a connection. -/
inductive Outcome where
  /-- `opCount <= 0`: the server closes. -/
  | closed (opCount : Int)
  /-- The four bytes of `opResult` go to the client. -/
  | replied (opResult : Word)
deriving DecidableEq

/-- The variables of the loop and what the connection still holds. -/
structure Evaluating (τ : Type) where
  operator : Byte
  opResult : Word
  connection : τ

section serve

variable {τ : Type} (read : Nat → τ → Option (List Byte × τ))

/-- `for (i = 0; i < opCount-1; i++)`: the operator that was read before is
applied, and the next one is read. -/
def evaluate (operand : CArray Word MAX) (count : Nat) (start : Evaluating τ) :
    Option (Evaluating τ) :=
  forLoop (fun i state => do
    let right ← operand.get? (i + 1)
    let opResult := applyOperator state.operator state.opResult right
    let received ← read 1 state.connection
    return ⟨received.1.headD state.operator, opResult, received.2⟩) count start

/-- One connection of `main`, from the first read to the close. -/
def serve (server : Server) (connection : τ) : Option (Server × Outcome × τ) := do
  let received ← read 1 connection
  let count := received.1.headD server.opCount
  let opCount := count.toInt
  if opCount ≤ 0 then
    return ({ server with opCount := count }, .closed opCount, received.2)
  let operands ← readOperands read opCount.toNat server.operand received.2
  let received ← read 1 operands.2
  let operator := received.1.headD server.operator
  let first ← operands.1.get? 0
  let final ← evaluate read operands.1 (opCount - 1).toNat
    ⟨operator, first, received.2⟩
  return (⟨count, final.operator, operands.1⟩, .replied final.opResult,
    final.connection)

end serve

/-! ## What the server takes of a stream -/

section delivers

variable {read : Nat → List Byte → Option (List Byte × List Byte)}

theorem evaluate_steps (delivers : Channel.Delivers read) {steps : List (Byte × Word)}
    {operand : CArray Word MAX} {first : Word} {next : Byte} {bytes rest : List Byte}
    (operands : ∀ index, ∀ bound : index < steps.length,
      operand.get? (index + 1) = some steps[index].2)
    (stream : next :: bytes = steps.map Prod.fst ++ rest) (enough : rest ≠ []) :
    ∃ final, evaluate read operand steps.length ⟨next, first, bytes⟩ = some final ∧
      final.opResult = evaluateSteps first steps ∧
      final.operator :: final.connection = rest := by
  have loop : ∃ final, evaluate read operand steps.length ⟨next, first, bytes⟩ =
        some final ∧
      final.opResult = evaluateSteps first (steps.take steps.length) ∧
      final.operator :: final.connection =
        (steps.drop steps.length).map Prod.fst ++ rest := by
    refine forLoop_total (fun index (state : Evaluating (List Byte)) =>
      state.opResult = evaluateSteps first (steps.take index) ∧
        state.operator :: state.connection =
          (steps.drop index).map Prod.fst ++ rest)
      ⟨by simp [evaluateSteps], by simpa using stream⟩ ?_
    intro index bound before held
    obtain ⟨value, left⟩ := held
    rw [List.drop_eq_getElem_cons bound, List.map_cons, List.cons_append] at left
    obtain ⟨isOperator, isConnection⟩ := List.cons.inj left
    have more : (steps.drop (index + 1)).map Prod.fst ++ rest ≠ [] := by
      simp [enough]
    obtain ⟨operator, connection, shape⟩ := List.exists_cons_of_ne_nil more
    have received : read 1 before.connection = some ([operator], connection) := by
      rw [isConnection, shape]
      exact @delivers 1 [operator] connection rfl (by decide)
    have longer : evaluateSteps first (steps.take (index + 1)) =
        applyOperator before.operator before.opResult steps[index].2 := by
      rw [List.take_succ_eq_append_getElem bound, evaluateSteps_append, value,
        isOperator]
      rfl
    refine ⟨⟨operator, applyOperator before.operator before.opResult steps[index].2,
      connection⟩, ?_, longer.symm, shape.symm⟩
    simp only [operands index bound, received, Option.bind_eq_bind, Option.bind_some,
      List.headD_cons]
    rfl
  simpa using loop

theorem serve_encode (delivers : Channel.Delivers read) {expression : Expression}
    (small : expression.count ≤ 127) (server : Server) (extra : Byte)
    (rest : List Byte) :
    ∃ after, serve read server (expression.encode ++ extra :: rest) =
      some (after, .replied expression.value, rest) := by
  have value := toInt_ofNat_char small
  have positive : 0 < expression.count := by simp [Expression.count]
  have accepts : ¬ (expression.count : Int) ≤ 0 := by omega
  have turns : ((expression.count : Int) - 1).toNat = expression.steps.length := by
    simp [Expression.count]
  obtain ⟨operand, operands, _, first, supplied⟩ :=
    readOperands_encode delivers small server.operand 0#8 (extra :: rest)
  have more : expression.operators ++ extra :: rest ≠ [] := by simp
  obtain ⟨next, bytes, stream⟩ := List.exists_cons_of_ne_nil more
  have operator : read 1 (expression.operators ++ extra :: rest) =
      some ([next], bytes) := by
    rw [stream]
    exact @delivers 1 [next] bytes rfl (by decide)
  obtain ⟨final, ran, opResult, left⟩ :=
    @evaluate_steps _ delivers expression.steps operand expression.first next bytes
      (extra :: rest) (fun index bound => (supplied index bound).2) stream.symm
      (by simp)
  obtain ⟨_, isRest⟩ := List.cons.inj left
  refine ⟨⟨BitVec.ofNat 8 expression.count, final.operator, operand⟩, ?_⟩
  simp only [serve, readCount_encode delivers, Option.bind_eq_bind, Option.bind_some,
    List.headD_cons, value, if_neg accepts, Int.toNat_natCast, operands, operator,
    first, turns, ran, opResult, isRest]
  rfl

end delivers

/-! ## Client and server -/

/-- The client's bytes are enough for the reads of the server, also when a read
waits for all that it was asked for, and the reply is the value. -/
def Served (memory : CArray Byte Client.MAX) (server : Server)
    (expression : Expression) : Prop :=
  ∃ request, hw2_client (typed expression) memory = some request ∧
    (∃ after rest, serve Channel.read server request =
      some (after, .replied expression.value, rest)) ∧
    ∃ after rest, serve Channel.readAll server request =
      some (after, .replied expression.value, rest)

section served

variable {memory : CArray Byte Client.MAX} {server : Server} {expression : Expression}

theorem served_of_two (small : expression.count ≤ 127) (two : 2 ≤ expression.count) :
    Served memory server expression := by
  obtain ⟨tail, sent, total⟩ := hw2_client_typed small memory
  have max : Client.MAX = 1024 := rfl
  have length := expression.length_encode
  rw [List.length_append] at total
  have more : tail.take (8 * expression.count - 4 - expression.encode.length) ≠ [] := by
    apply List.ne_nil_of_length_pos
    rw [List.length_take]
    omega
  obtain ⟨extra, rest, shape⟩ := List.exists_cons_of_ne_nil more
  rw [List.take_append, List.take_of_length_le (by omega), shape] at sent
  obtain ⟨first, replied⟩ :=
    serve_encode Channel.delivers_read small server extra rest
  obtain ⟨second, repliedAll⟩ :=
    serve_encode Channel.delivers_readAll small server extra rest
  exact ⟨_, sent, ⟨first, rest, replied⟩, second, rest, repliedAll⟩

/-- With one operand the client sends four bytes, the count and three of the
four bytes of the operand, and the server waits for more. -/
theorem waits_of_one (one : expression.count = 1) :
    ∃ request, hw2_client (typed expression) memory = some request ∧
      serve Channel.read server request = none ∧
      serve Channel.readAll server request = none := by
  obtain ⟨tail, sent, _⟩ := @hw2_client_typed expression (by omega) memory
  obtain ⟨first, steps⟩ := expression
  have noSteps : steps = [] := by simpa [Expression.count] using one
  subst noSteps
  have request : (Expression.encode ⟨first, []⟩ ++ tail).take
      (8 * Expression.count ⟨first, []⟩ - 4) =
        1#8 :: (Word.toBytes first).take 3 := by
    simp [Expression.encode, Expression.count, Expression.operands,
      Expression.operators, Word.toBytes]
  rw [request] at sent
  refine ⟨_, sent, ?_, ?_⟩
  · -- The operand takes the three bytes; nothing is there for the operator.
    have drained : ∀ operands, readOperands Channel.read 1 server.operand
        ((Word.toBytes first).take 3) = some operands → operands.2 = [] := by
      intro operands ran
      simp only [readOperands, forLoop, Word.toBytes, List.take, Channel.read,
        Option.bind_eq_bind, Option.bind_some, Option.bind_eq_some_iff] at ran
      obtain ⟨_, _, _, _, same⟩ := ran
      cases same
      rfl
    have counted : Channel.read 1 (1#8 :: (Word.toBytes first).take 3) =
        some ([1#8], (Word.toBytes first).take 3) :=
      @Channel.delivers_read Byte 1 [1#8] _ rfl (by decide)
    have count : (1#8).toInt = 1 := by decide
    simp only [serve, counted, Option.bind_eq_bind, Option.bind_some, List.headD_cons,
      count, show ¬ (1 : Int) ≤ 0 by decide, if_false, Option.bind_eq_none_iff]
    intro operands ran
    rw [drained operands ran]
    rintro _ ⟨⟩
  · simp [serve, Channel.readAll, readOperands, forLoop, Word.toBytes]

theorem not_served_of_one (one : expression.count = 1) :
    ¬ Served memory server expression := by
  intro served
  obtain ⟨request, sent, ⟨after, rest, replied⟩, _⟩ := served
  obtain ⟨same, sentOne, stuck, _⟩ := @waits_of_one memory server expression one
  rw [sent] at sentOne
  cases sentOne
  rw [replied] at stuck
  cases stuck

/-- For every operand count of at most 127 the server gets what it reads and
replies with the value exactly when there are two operands or more. -/
theorem served_iff_two (memory : CArray Byte Client.MAX) (server : Server)
    (small : expression.count ≤ 127) :
    Served memory server expression ↔ 2 ≤ expression.count := by
  constructor
  · intro served
    by_contra fewer
    have positive : 0 < expression.count := by simp [Expression.count]
    exact not_served_of_one (by omega) served
  · exact served_of_two small

theorem served_iff_two_sum :
    Served (CArray.replicate Client.MAX 0#8)
      ⟨0#8, 0#8, CArray.replicate MAX 0⟩ ⟨3, [(ascii '-', 5)]⟩ :=
  (served_iff_two _ _ (by decide)).mpr (by decide)

end served

/-- The count 1 and the operand 7: the server waits for the operator while the
client waits for the result. -/
theorem one_operand_waits :
    Expression.count ⟨7, []⟩ = 1 ∧
      ¬ Served (CArray.replicate Client.MAX 0#8)
        ⟨0#8, 0#8, CArray.replicate MAX 0⟩ ⟨7, []⟩ :=
  ⟨rfl, not_served_of_one rfl⟩

end NetworkProgramming.Hw2
