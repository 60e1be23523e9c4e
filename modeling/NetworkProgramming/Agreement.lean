import NetworkProgramming.Client
import NetworkProgramming.Hw3
import NetworkProgramming.Hw5.Worker
import NetworkProgramming.Hw6.Server

/-!
# The three calculator servers agree

`hw3_server` decodes a datagram at offsets, `hw5_server` reads a stream in
order and `hw6_server` decodes at offsets what `readv` scattered.  Given the
request of a client they use the same operands and operators and reply with the
same value, unless the formula that `hw5_server` and `hw6_server` print next to
it leaves their `buf[1024]`.
-/

namespace NetworkProgramming

open MachineInt Client

/-- The four bytes at which the three servers arrive from one expression,
whatever was in their memory and in that of the clients. -/
structure Agree (pid : Int) (expression : Expression) : Prop where
  hw3 : ∀ (memory : CArray Byte MAX) (server : Hw3.Server),
    ∃ request after, hw3_client (typed expression) memory = some request ∧
      Hw3.serve server request =
        some (after, .replied expression.steps expression.value) ∧
      after.operand.cells.take expression.count = expression.operands
  /-- The stream of `hw5_client`, of which the bytes of the request are read. -/
  hw5 : ∀ (memory : CArray Byte MAX) (locals : Hw5.Locals) (rest : List Byte),
    ∃ request operand line, hw5_client (typed expression) memory = some request ∧
      request.length = 5 * expression.count ∧
      Hw5.worker Channel.readAll pid locals (request ++ rest) =
        some (.replied operand expression.steps expression.value line, rest) ∧
      operand.cells.take expression.count = expression.operands
  /-- The three vectors of `hw6_client`. -/
  hw6 : ∀ (memory : CArray Byte MAX) (mode id : List Byte) (globals : Hw6.Globals),
    mode.length = Hw6.MOD_SIZE → id.length = Hw6.ID_SIZE →
    ∃ request after computed,
      hw6_client_save mode id (typed expression) memory = some request ∧
      Hw6.calculator (globals.scatter request) = some after ∧
      after.opResult = expression.value ∧
      after.operand.cells.take expression.count = expression.operands ∧
      computeRequest (globals.scatter request).result globals.operand globals.buf =
        some computed ∧
      computed.steps = expression.steps

section agree

variable {pid : Int} {expression : Expression}

theorem hw3_agrees (small : expression.count ≤ 127) (memory : CArray Byte MAX)
    (server : Hw3.Server) :
    ∃ request after, hw3_client (typed expression) memory = some request ∧
      Hw3.serve server request =
        some (after, .replied expression.steps expression.value) ∧
      after.operand.cells.take expression.count = expression.operands := by
  obtain ⟨after, served, operands⟩ := Hw3.serve_encode server small
  exact ⟨expression.encode, after, sentBytes_typed small memory, served, operands⟩

theorem hw6_agrees (small : expression.count ≤ 127)
    (fits : expression.Fits Hw6.BUF_SIZE 0) (memory : CArray Byte MAX)
    {mode id : List Byte} (globals : Hw6.Globals)
    (modeLength : mode.length = Hw6.MOD_SIZE) (idLength : id.length = Hw6.ID_SIZE) :
    ∃ request after computed,
      hw6_client_save mode id (typed expression) memory = some request ∧
      Hw6.calculator (globals.scatter request) = some after ∧
      after.opResult = expression.value ∧
      after.operand.cells.take expression.count = expression.operands ∧
      computeRequest (globals.scatter request).result globals.operand globals.buf =
        some computed ∧
      computed.steps = expression.steps := by
  obtain ⟨body, sent, rest, holds⟩ := hw6_client_save_typed small mode id memory
  have size : body.cells.length = Hw6.BUF_SIZE := body.length_cells
  have received : (mode ++ id ++ body.cells).drop (Hw6.MOD_SIZE + Hw6.ID_SIZE) =
      body.cells :=
    List.drop_left' (by rw [List.length_append, modeLength, idLength])
  have result : (globals.scatter (mode ++ id ++ body.cells)).result.cells =
      expression.encode ++ rest := by
    simp only [Hw6.Globals.scatter, received]
    rw [CArray.cells_fill_full _ size, holds]
  obtain ⟨computed, ran, computes, operands⟩ :=
    @computeRequest_encode _ _ _ _ globals.operand globals.buf _ _ (by decide)
      (by decide) small result fits
  refine ⟨_, { globals.scatter (mode ++ id ++ body.cells) with
    operand := computed.operand
    opResult := computed.opResult
    buf := computed.buf }, computed, sent, ?_, computes.opResult, operands, ran,
    computes.steps⟩
  have untouched : computeRequest (globals.scatter (mode ++ id ++ body.cells)).result
      (globals.scatter (mode ++ id ++ body.cells)).operand
      (globals.scatter (mode ++ id ++ body.cells)).buf = some computed := ran
  simp only [Hw6.calculator, untouched, Option.bind_eq_bind, Option.bind_some,
    Option.pure_def]

theorem not_agree_of_overflow (small : expression.count ≤ 127)
    (overflow : ¬ expression.Fits Hw5.MAX (Hw5.pidText pid).length) :
    ¬ Agree pid expression := by
  intro agree
  obtain ⟨request, operand, line, sent, _, ran, _⟩ :=
    agree.hw5 (CArray.replicate MAX 0#8) Hw5.Locals.zero []
  have same : expression.encode = request := by
    simpa [hw5_client, sentBytes_typed small] using sent
  obtain ⟨_, stuck⟩ := Hw5.worker_encode small pid Hw5.Locals.zero []
  rw [← same, stuck overflow] at ran
  cases ran

/-- For every expression of at most 127 operands the servers agree exactly when
`buf` of `hw5_server` has room for the process id and the formula. -/
theorem agree_iff_fits (pid : Int) (small : expression.count ≤ 127) :
    Agree pid expression ↔ expression.Fits Hw5.MAX (Hw5.pidText pid).length := by
  constructor
  · intro agree
    by_contra overflow
    exact not_agree_of_overflow small overflow agree
  · intro fits
    refine ⟨hw3_agrees small, ?_, ?_⟩
    · intro memory locals rest
      obtain ⟨success, _⟩ := Hw5.worker_encode small pid locals rest
      obtain ⟨operand, line, ran, operands, _⟩ := success fits
      exact ⟨expression.encode, operand, line, sentBytes_typed small memory,
        expression.length_encode, ran, operands⟩
    · intro memory mode id globals modeLength idLength
      exact hw6_agrees small (fits.of_le (Nat.zero_le _)) memory globals modeLength
        idLength

theorem agree_iff_fits_formula :
    Agree 7 ⟨1, [(ascii '+', 2), (ascii '*', 3)]⟩ ↔
      Expression.Fits Hw5.MAX (Hw5.pidText 7).length
        ⟨1, [(ascii '+', 2), (ascii '*', 3)]⟩ :=
  agree_iff_fits 7 (by decide)

end agree

def longest : Expression :=
  ⟨-2147483648#32, List.replicate 126 (ascii '*', -2147483648#32)⟩

/-- The formula of 127 operands `-2147483648` has 1523 characters. -/
theorem longest_overflows : longest.count = 127 ∧ ¬ Agree 7 longest := by
  have count : longest.count = 127 := by simp [longest, Expression.count]
  refine ⟨count, not_agree_of_overflow (by omega) ?_⟩
  decide +kernel

end NetworkProgramming
