import NetworkProgramming.Calculator
import NetworkProgramming.Foundation.Channel

/-!
# The worker process of `hw5_server`

A worker reads its request from the connection field by field: the count, the
operands, and one operator in every iteration of the loop.  How a `read`
cuts the stream is a parameter, so that the same worker runs on a stream that
delivers every requested byte and on one that does not.
-/

namespace NetworkProgramming.Hw5

open MachineInt

def MAX : Nat := 1024

/-- The locals of `main` a worker starts with; they are not initialised. -/
structure Locals where
  opCount : Byte
  operator : Byte
  operand : CArray Word MAX
  buf : CArray Byte MAX

def Locals.zero : Locals :=
  ⟨0#8, 0#8, CArray.replicate MAX 0, CArray.replicate MAX 0#8⟩

/-- How a worker leaves its connection. -/
inductive Outcome where
  /-- `opCount <= 0`: no reply and no log line. -/
  | saved (opCount : Int)
  /-- `opResult` was written to the client; `line` is the log line, and has no
  value when printing its end leaves `buf`. -/
  | replied (operand : CArray Word MAX) (steps : List (Byte × Word))
      (opResult : Word) (line : Option (List Byte))

/-- What a read of at most four bytes leaves in an `int`. -/
def receiveWord (old : Word) (bytes : List Byte) : Word :=
  Word.ofBytes (bytes.take 4 ++ (Word.toBytes old).drop bytes.length)

/-- `"%d: "` in front of the formula. -/
def pidText (pid : Int) : List Byte := decimal pid ++ [ascii ':', ascii ' ']

section worker

variable {τ : Type} (read : Nat → τ → Option (List Byte × τ))

/-- `read(cfd, &operand[i], 4)` for every operand. -/
def readOperands (count : Nat) (operand : CArray Word MAX) (connection : τ) :
    Option (CArray Word MAX × τ) :=
  forLoop (fun i state => do
    let received ← read 4 state.2
    let old ← state.1.get? i
    let operand ← state.1.set? i (receiveWord old received.1)
    return (operand, received.2)) count (operand, connection)

/-- `read(cfd, &operator, 1)`. -/
def readOperator : Nat → Byte × τ → Option (Byte × Byte × τ) := fun _ state => do
  let received ← read 1 state.2
  let operator := received.1.headD state.1
  return (operator, operator, received.2)

/-- The body of the child process, from the first read to the close. -/
def worker (pid : Int) (locals : Locals) (connection : τ) :
    Option (Outcome × τ) := do
  let received ← read 1 connection
  let opCount := (received.1.headD locals.opCount).toInt
  if opCount ≤ 0 then
    return (.saved opCount, received.2)
  let operands ← readOperands read opCount.toNat locals.operand received.2
  let first ← operands.1.get? 0
  let buf ← locals.buf.print? (pidText pid ++ decimal first.toInt)
  let final ← evaluationLoop (readOperator read) CArray.append? operands.1
    (opCount - 1).toNat ⟨(locals.operator, operands.2), [], first, buf⟩
  let line := (final.text.append? (resultText final.opResult)).bind
    CArray.cString?
  return (.replied operands.1 final.steps final.opResult line, final.source.2)

end worker

/-! ## Connections that correspond -/

section embedding

variable {σ τ : Type} {read : Nat → σ → Option (List Byte × σ)}
  {other : Nat → τ → Option (List Byte × τ)} {embed : σ → τ}

theorem readOperands_map (commutes : ∀ size connection,
      other size (embed connection) = (read size connection).map (Prod.map id embed))
    (count : Nat) (operand : CArray Word MAX) (connection : σ) :
    readOperands other count operand (embed connection) =
      (readOperands read count operand connection).map (Prod.map id embed) := by
  refine @forLoop_map _ _ (operand, connection) count _ _ (Prod.map id embed) ?_
  rintro i ⟨operand, connection⟩
  simp only [Prod.map, id_eq, commutes, Option.bind_eq_bind, Option.pure_def, Option.bind_map,
    Option.map_bind, Function.comp_def, Option.map_some]

theorem readOperator_map (commutes : ∀ size connection,
      other size (embed connection) = (read size connection).map (Prod.map id embed))
    (index : Nat) (state : Byte × σ) :
    readOperator other index (Prod.map id embed state) =
      (readOperator read index state).map (Prod.map id (Prod.map id embed)) := by
  simp only [readOperator, Prod.map, id_eq, commutes, Option.bind_eq_bind, Option.pure_def,
    Option.bind_map, Option.map_bind, Function.comp_def, Option.map_some]

/-- A worker does not look behind its reads. -/
theorem worker_map (commutes : ∀ size connection,
      other size (embed connection) = (read size connection).map (Prod.map id embed))
    (pid : Int) (locals : Locals) (connection : σ) :
    worker other pid locals (embed connection) =
      (worker read pid locals connection).map (Prod.map id embed) := by
  have loop (operand : CArray Word MAX) (count : Nat) (operator : Byte) (connection : σ)
      (first : Word) (buf : CArray Byte MAX) :
      evaluationLoop (readOperator other) CArray.append? operand count
          ⟨(operator, embed connection), [], first, buf⟩ =
        (evaluationLoop (readOperator read) CArray.append? operand count
          ⟨(operator, connection), [], first, buf⟩).map
            (.mapSource (Prod.map id embed)) :=
    evaluationLoop_map _ (readOperator_map commutes) _ operand count
      ⟨(operator, connection), [], first, buf⟩
  simp only [worker, commutes, readOperands_map commutes, loop, Option.bind_eq_bind,
    Option.pure_def, Option.bind_map, Option.map_bind, Function.comp_def, Prod.map, id_eq]
  congr 1
  funext received
  split
  · simp only [Option.map_some, Prod.map, id_eq]
  · simp only [Option.map_bind, Function.comp_def, Option.map_some, Evaluation.mapSource,
      Prod.map, id_eq]

end embedding

def logLine (pid : Int) (expression : Expression) : List Byte :=
  pidText pid ++ expression.line

theorem zero_notMem_pidText (pid : Int) : 0#8 ∉ pidText pid := by
  have separator : 0#8 ∉ [ascii ':', ascii ' '] := by decide
  simp only [pidText, List.mem_append, not_or]
  exact ⟨zero_notMem_decimal pid, separator⟩

theorem append_line {size : Nat} {buf : CArray Byte size} {text : List Byte}
    {opResult : Word} (holds : buf.cString? = some text) :
    (buf.append? (resultText opResult)).bind CArray.cString? =
      if (text ++ resultText opResult).length < size then
        some (text ++ resultText opResult)
      else none := by
  cases appended : buf.append? (resultText opResult) with
  | none =>
      have overflow : ¬ (text ++ resultText opResult).length < size := by
        intro room
        rw [List.length_append] at room
        have defined : ∃ ended, buf.append? (resultText opResult) = some ended :=
          CArray.append?_isSome holds (by omega)
        simp [appended] at defined
      rw [if_neg overflow, Option.bind_none]
  | some ended =>
      have room := CArray.length_of_append? holds appended
      rw [Option.bind_some, CArray.cString?_append holds appended,
        cString_of_notMem (zero_notMem_resultText _), if_pos]
      rw [List.length_append]
      omega

/-! ## A stream that delivers every requested byte -/

section delivers

variable {read : Nat → List Byte → Option (List Byte × List Byte)}

theorem receiveWord_toBytes (old word : Word) :
    receiveWord old (Word.toBytes word) = word := by
  have drained : (Word.toBytes old).drop 4 = [] := rfl
  have whole : (Word.toBytes word).take 4 = Word.toBytes word := rfl
  rw [receiveWord, Word.length_toBytes, drained, whole, List.append_nil,
    Word.ofBytes_toBytes]

theorem readOperands_words (delivers : Channel.Delivers read) {words : List Word}
    {rest : List Byte} {operand : CArray Word MAX} (fits : words.length ≤ MAX) :
    ∃ decoded, readOperands read words.length operand
        (words.flatMap Word.toBytes ++ rest) = some (decoded, rest) ∧
      decoded.cells = words ++ operand.cells.drop words.length := by
  have length := operand.length_cells
  have loop : ∃ final, readOperands read words.length operand
        (words.flatMap Word.toBytes ++ rest) = some final ∧
      final.1.cells = words.take words.length ++ operand.cells.drop words.length ∧
        final.2 = (words.drop words.length).flatMap Word.toBytes ++ rest := by
    refine forLoop_total (fun index (state : CArray Word MAX × List Byte) =>
      state.1.cells = words.take index ++ operand.cells.drop index ∧
        state.2 = (words.drop index).flatMap Word.toBytes ++ rest) (by simp) ?_
    rintro index bound ⟨before, stream⟩ ⟨cells, rfl⟩
    have slot : index < operand.cells.length := by omega
    have front : (words.take index).length = index := by simp; omega
    have received : read 4
        ((words.drop index).flatMap Word.toBytes ++ rest) =
          some (Word.toBytes words[index],
            (words.drop (index + 1)).flatMap Word.toBytes ++ rest) := by
      rw [List.drop_eq_getElem_cons bound, List.flatMap_cons, List.append_assoc]
      exact delivers (Word.length_toBytes _) (by decide)
    have old : before.get? index = some operand.cells[index] := by
      rw [CArray.get?, cells, List.getElem?_append_right (by omega), front,
        Nat.sub_self]
      simp [List.getElem?_eq_getElem slot]
    obtain ⟨after, stored⟩ : ∃ after, before.set? index words[index] =
        some after := by
      have inside : index < MAX := by omega
      simp [CArray.set?, inside]
    refine ⟨_, by
      simp only [received, Option.bind_eq_bind, Option.bind_some, old,
        receiveWord_toBytes, stored]
      rfl, ?_, rfl⟩
    obtain ⟨_, final⟩ := CArray.set?_eq_some.mp stored
    rw [final, cells, List.set_append_right _ _ (by omega), front, Nat.sub_self,
      List.drop_eq_getElem_cons slot, List.set_cons_zero,
      List.take_succ_eq_append_getElem bound, List.append_assoc]
    rfl
  obtain ⟨⟨decoded, stream⟩, finished, cells, rfl⟩ := loop
  refine ⟨decoded, ?_, by simpa using cells⟩
  simpa using finished

theorem supplies_readOperator (delivers : Channel.Delivers read)
    {steps : List (Byte × Word)} {operand : CArray Word MAX} (stale : Byte)
    (rest : List Byte)
    (operands : ∀ index, ∀ bound : index < steps.length,
      operand.get? (index + 1) = some steps[index].2) :
    Supplies (readOperator read) operand
      (fun index => ((stale :: steps.map Prod.fst).getD index stale,
        (steps.map Prod.fst).drop index ++ rest)) steps := by
  intro index bound
  refine ⟨?_, operands index bound⟩
  have inside : index < (steps.map Prod.fst).length := by simpa using bound
  have received : read 1
      ((steps.map Prod.fst).drop index ++ rest) =
        some ([steps[index].1], (steps.map Prod.fst).drop (index + 1) ++ rest) := by
    rw [List.drop_eq_getElem_cons inside]
    have operator : (steps.map Prod.fst)[index] = steps[index].1 := by simp
    rw [operator]
    exact @delivers 1 [steps[index].1] _ rfl (by decide)
  simp only [readOperator, received, Option.bind_eq_bind, Option.bind_some]
  simp [List.getD_eq_getElem?_getD, bound]

theorem readCount_encode (delivers : Channel.Delivers read)
    (expression : Expression) (rest : List Byte) :
    read 1 (expression.encode ++ rest) =
      some ([BitVec.ofNat 8 expression.count],
        expression.operands.flatMap Word.toBytes ++
          (expression.operators ++ rest)) := by
  have split : expression.encode ++ rest =
      [BitVec.ofNat 8 expression.count] ++
        (expression.operands.flatMap Word.toBytes ++
          (expression.operators ++ rest)) := by
    simp [Expression.encode]
  rw [split]
  exact delivers rfl (by decide)

theorem readOperands_encode (delivers : Channel.Delivers read)
    {expression : Expression} (small : expression.count ≤ 127)
    (old : CArray Word MAX) (stale : Byte) (rest : List Byte) :
    ∃ operand, readOperands read expression.count old
        (expression.operands.flatMap Word.toBytes ++
          (expression.operators ++ rest)) =
          some (operand, expression.operators ++ rest) ∧
      operand.cells.take expression.count = expression.operands ∧
      operand.get? 0 = some expression.first ∧
      Supplies (readOperator read) operand
        (fun index => ((stale :: expression.operators).getD index stale,
          expression.operators.drop index ++ rest)) expression.steps := by
  have max : MAX = 1024 := rfl
  have length := expression.length_operands
  obtain ⟨operand, ran, cells⟩ :=
    @readOperands_words _ delivers expression.operands
      (expression.operators ++ rest) old (by omega)
  rw [length] at ran cells
  have operandAt {index : Nat} (bound : index < expression.count) :
      operand.get? index = some (expression.operands.get
        ⟨index, length ▸ bound⟩) := by
    have inside : index < expression.operands.length := by omega
    rw [CArray.get?, cells, List.getElem?_append_left inside,
      List.getElem?_eq_getElem inside]
    rfl
  refine ⟨operand, ran, by rw [cells, List.take_left' length],
    operandAt (by simp [Expression.count]), ?_⟩
  refine supplies_readOperator delivers stale rest fun index bound => ?_
  rw [operandAt (by simpa [Expression.count] using bound)]
  simp [Expression.operands]

end delivers

/-- What becomes of a request whose fields the reads have delivered: the worker
serves it exactly when the formula fits `buf` behind the process id, and its
line when that fits as well. -/
theorem worker_supplied {τ : Type} {read : Nat → τ → Option (List Byte × τ)}
    {pid : Int} {locals : Locals} {connection counted remaining : τ}
    {sources : Nat → Byte × τ} {opCount : Byte} {operand : CArray Word MAX} {expression : Expression}
    (received : read 1 connection = some ([opCount], counted))
    (value : opCount.toInt = expression.count)
    (operands : readOperands read expression.count locals.operand counted =
      some (operand, remaining))
    (first : operand.get? 0 = some expression.first)
    (start : sources 0 = (locals.operator, remaining))
    (supplied : Supplies (readOperator read) operand sources expression.steps) :
    (expression.Fits MAX (pidText pid).length →
      worker read pid locals connection =
        some (.replied operand expression.steps expression.value
          (if (logLine pid expression).length < MAX then some (logLine pid expression)
            else none), (sources expression.steps.length).2)) ∧
    (¬ expression.Fits MAX (pidText pid).length →
      worker read pid locals connection = none) := by
  have positive : 0 < expression.count := by simp [Expression.count]
  have accepts : ¬ (expression.count : Int) ≤ 0 := by omega
  have length : ((expression.count : Int) - 1).toNat =
      expression.steps.length := by
    simp [Expression.count]
  have loop (printed : CArray Byte MAX) :=
    @evaluationLoop_eq _ _ _ _ CArray.append? _ _ _ supplied expression.first printed
  simp only [start] at loop
  simp only [worker, received, Option.bind_eq_bind, Option.bind_some, List.headD_cons,
    value, if_neg accepts, Int.toNat_natCast, operands, first, length]
  have plain : 0#8 ∉ pidText pid ++ decimal expression.first.toInt := by
    simp only [List.mem_append, not_or]
    exact ⟨zero_notMem_pidText pid, zero_notMem_decimal _⟩
  cases printed : locals.buf.print?
      (pidText pid ++ decimal expression.first.toInt) with
  | none =>
      have overflow : ¬ expression.Fits MAX (pidText pid).length := by
        intro given
        obtain ⟨fits, _⟩ := given
        have defined : ∃ result, locals.buf.print?
            (pidText pid ++ decimal expression.first.toInt) = some result :=
          CArray.print?_isSome (by simpa using fits)
        simp [printed] at defined
      simp [overflow]
  | some started =>
      have holds := CArray.cString?_print printed
      rw [cString_of_notMem plain] at holds
      have room := CArray.length_of_print? printed
      rw [List.length_append] at room
      obtain ⟨success, failure⟩ :=
        @foldlM_append_steps _ expression.steps _ _ holds
      rw [List.length_append] at success failure
      rw [Option.bind_some, loop started]
      constructor
      · intro fits
        obtain ⟨final, folded, text⟩ := success fits.2
        have whole : pidText pid ++ decimal expression.first.toInt ++
            stepsText expression.steps ++ resultText expression.value =
              logLine pid expression := by
          simp [logLine, Expression.line, Expression.text]
        rw [folded, Option.map_some, Option.bind_some]
        simp only [Option.pure_def, Option.some.injEq, Prod.mk.injEq,
          Outcome.replied.injEq, true_and, and_true]
        exact ⟨rfl, by rw [← whole]; exact append_line text⟩
      · intro overflow
        have stuck := failure (fun fits => overflow ⟨by omega, fits⟩)
        rw [stuck]
        rfl

/-- On a stream that delivers every requested byte the worker uses the operands
and operators that were sent, and leaves the rest of the stream unread. -/
theorem worker_readAll {expression : Expression}
    (small : expression.count ≤ 127) (pid : Int) (locals : Locals)
    (rest : List Byte) :
    (expression.Fits MAX (pidText pid).length →
      ∃ operand, worker Channel.readAll pid locals (expression.encode ++ rest) =
          some (.replied operand expression.steps expression.value
            (if (logLine pid expression).length < MAX then
              some (logLine pid expression) else none), rest) ∧
        operand.cells.take expression.count = expression.operands) ∧
    (¬ expression.Fits MAX (pidText pid).length →
      worker Channel.readAll pid locals (expression.encode ++ rest) = none) := by
  obtain ⟨operand, operands, decoded, first, supplied⟩ :=
    readOperands_encode Channel.delivers_readAll small locals.operand
      locals.operator rest
  obtain ⟨success, failure⟩ := @worker_supplied _ Channel.readAll pid locals _ _ _ _ _
    operand expression (readCount_encode Channel.delivers_readAll expression rest)
    (toInt_ofNat_char small) operands first rfl supplied
  have consumed : expression.operators.drop expression.steps.length = [] :=
    List.drop_of_length_le (by simp [Expression.operators])
  refine ⟨fun fits => ⟨operand, ?_, decoded⟩, failure⟩
  simpa only [consumed, List.nil_append] using success fits

/-- On a stream that delivers every requested byte the worker serves an
encoded request exactly when the formula fits `buf` behind the process id.  It
then uses the operands and operators that were sent, replies with their value
and leaves the rest of the stream unread. -/
theorem worker_encode {expression : Expression}
    (small : expression.count ≤ 127) (pid : Int) (locals : Locals)
    (rest : List Byte) :
    (expression.Fits MAX (pidText pid).length →
      ∃ operand line, worker Channel.readAll pid locals
          (expression.encode ++ rest) =
            some (.replied operand expression.steps expression.value line, rest) ∧
        operand.cells.take expression.count = expression.operands ∧
        ∀ text, line = some text → text = logLine pid expression) ∧
    (¬ expression.Fits MAX (pidText pid).length →
      worker Channel.readAll pid locals (expression.encode ++ rest) = none) := by
  obtain ⟨success, failure⟩ := worker_readAll small pid locals rest
  refine ⟨fun fits => ?_, failure⟩
  obtain ⟨operand, ran, decoded⟩ := success fits
  refine ⟨operand, _, ran, decoded, fun text defined => ?_⟩
  split at defined
  · exact (Option.some.inj defined).symm
  · cases defined

end NetworkProgramming.Hw5
