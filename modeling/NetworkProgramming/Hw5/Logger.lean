import NetworkProgramming.Foundation.Transition
import NetworkProgramming.Hw5.Worker

/-!
# The log of `hw5_server`

Every connection gets a worker process, which writes its line to a pipe with
one `write`.  The logger process copies the pipe to `log.txt` through `msgbuf`
and the buffer of its stream, without looking at line boundaries.  Whatever the
order of the steps, the bytes that have left the workers stand, in order, in
the file, the stream buffer, `msgbuf` and the pipe.
-/

namespace NetworkProgramming.Hw5

open MachineInt Transition

/-- How far a worker has come. -/
inductive Stage where
  | serving
  /-- The line stands in `buf`; its `write` to the pipe is next. -/
  | ready (line : List Byte)
  | wrote (line : List Byte)
  | exited

/-- A child process with its connection. -/
structure Worker (τ : Type) where
  pid : Int
  locals : Locals
  connection : τ
  stage : Stage

/-- Where the loop of the logger is. -/
inductive LoggerPoint where
  | read
  | fwrite (len : Nat)
  | fflush
deriving DecidableEq

/-- The workers, the logger, and the pipe and files between them. -/
structure System (τ : Type) where
  workers : List (Worker τ)
  pipe : List Byte
  point : LoggerPoint
  msgbuf : CArray Byte MAX
  /-- The bytes in the buffer of the stream `fp`. -/
  stream : List Byte
  log : List Byte
  /-- Which worker wrote which line to the pipe, in this order. -/
  written : List (Nat × List Byte)

/-- A step of one process. -/
inductive Action (τ : Type) where
  | fork (pid : Int) (locals : Locals) (connection : τ)
  | serve (worker : Nat)
  | write (worker : Nat)
  /-- The logger's `read` returns this many bytes. -/
  | read (len : Nat)
  | fwrite
  /-- The stream writes the front of its buffer to the file. -/
  | spill (count : Nat)
  | fflush

/-- `fopen("log.txt", "wt")` leaves an empty file. -/
def System.initial (τ : Type) : System τ where
  workers := []
  pipe := []
  point := .read
  msgbuf := CArray.replicate MAX 0#8
  stream := []
  log := []
  written := []

section step

variable {τ : Type} (receive : Nat → τ → Option (List Byte × τ))

/-- Where the body of a worker leads: to a line or to an early `return`. -/
def Worker.serve (child : Worker τ) : Option Stage := do
  match (← worker receive child.pid child.locals child.connection).1 with
  | .saved _ => return .exited
  | .replied _ _ _ line => line.map Stage.ready

def step (s : System τ) : Action τ → Option (System τ)
  | .fork pid locals connection =>
      some { s with workers := s.workers ++ [⟨pid, locals, connection, .serving⟩] }
  | .serve worker =>
      match s.workers[worker]? with
      | some child@⟨_, _, _, .serving⟩ => do
          let stage ← child.serve receive
          return { s with
            workers := s.workers.set worker { child with stage := stage } }
      | _ => none
  | .write worker =>
      match s.workers[worker]? with
      | some child@⟨_, _, _, .ready line⟩ => some { s with
          workers := s.workers.set worker { child with stage := .wrote line }
          pipe := s.pipe ++ line
          written := s.written ++ [(worker, line)] }
      | _ => none
  | .read len =>
      if s.point = .read ∧ 0 < len ∧ len ≤ MAX ∧ len ≤ s.pipe.length then
        some { s with
          msgbuf := s.msgbuf.fill (s.pipe.take len)
          pipe := s.pipe.drop len
          point := .fwrite len }
      else none
  | .fwrite =>
      match s.point with
      | .fwrite len => do
          let bytes ← s.msgbuf.read? 0 len
          return { s with stream := s.stream ++ bytes, point := .fflush }
      | _ => none
  | .spill count =>
      some { s with
        log := s.log ++ s.stream.take count
        stream := s.stream.drop count }
  | .fflush =>
      if s.point = .fflush then
        some { s with log := s.log ++ s.stream, stream := [], point := .read }
      else none

end step

/-! ## What a step does -/

/-- A step, by its action and what it finds. -/
inductive Moves {τ : Type} (receive : Nat → τ → Option (List Byte × τ)) (s : System τ) :
    Action τ → System τ → Prop where
  | fork (pid : Int) (locals : Locals) (connection : τ) :
      Moves receive s (.fork pid locals connection)
        { s with workers := s.workers ++ [⟨pid, locals, connection, .serving⟩] }
  | serve (worker : Nat) {child : Worker τ} {stage : Stage}
      (found : s.workers[worker]? = some child) (serving : child.stage = .serving)
      (served : child.serve receive = some stage) :
      Moves receive s (.serve worker)
        { s with workers := s.workers.set worker { child with stage := stage } }
  | write (worker : Nat) {child : Worker τ} {line : List Byte}
      (found : s.workers[worker]? = some child) (ready : child.stage = .ready line) :
      Moves receive s (.write worker) { s with
        workers := s.workers.set worker { child with stage := .wrote line }
        pipe := s.pipe ++ line
        written := s.written ++ [(worker, line)] }
  | read (len : Nat) (point : s.point = .read)
      (size : 0 < len ∧ len ≤ MAX ∧ len ≤ s.pipe.length) :
      Moves receive s (.read len) { s with
        msgbuf := s.msgbuf.fill (s.pipe.take len)
        pipe := s.pipe.drop len
        point := .fwrite len }
  | fwrite (len : Nat) {bytes : List Byte} (point : s.point = .fwrite len)
      (moved : s.msgbuf.read? 0 len = some bytes) :
      Moves receive s .fwrite { s with stream := s.stream ++ bytes, point := .fflush }
  | spill (count : Nat) :
      Moves receive s (.spill count) { s with
        log := s.log ++ s.stream.take count
        stream := s.stream.drop count }
  | fflush (point : s.point = .fflush) :
      Moves receive s .fflush
        { s with log := s.log ++ s.stream, stream := [], point := .read }

theorem step_moves {τ : Type} {receive : Nat → τ → Option (List Byte × τ)}
    {s next : System τ} {action : Action τ} (taken : step receive s action = some next) :
    Moves receive s action next := by
  cases action with
  | fork pid locals connection =>
      cases taken
      exact .fork pid locals connection
  | serve worker =>
      simp only [step] at taken
      split at taken <;> rename_i found
      · simp only [Option.bind_eq_bind, Option.bind_eq_some_iff] at taken
        obtain ⟨stage, served, result⟩ := taken
        cases result
        exact .serve worker found rfl served
      · cases taken
  | write worker =>
      simp only [step] at taken
      split at taken <;> rename_i found
      · cases taken
        exact .write worker found rfl
      · cases taken
  | read len =>
      simp only [step] at taken
      split at taken <;> rename_i reads
      · cases taken
        exact .read len reads.1 reads.2
      · cases taken
  | fwrite =>
      simp only [step] at taken
      split at taken <;> rename_i point
      · simp only [Option.bind_eq_bind, Option.bind_eq_some_iff] at taken
        obtain ⟨bytes, moved, result⟩ := taken
        cases result
        exact .fwrite _ point moved
      · cases taken
  | spill count =>
      cases taken
      exact .spill count
  | fflush =>
      simp only [step] at taken
      split at taken <;> rename_i point
      · cases taken
        exact .fflush point
      · cases taken

/-! ## The line of a worker -/

section worker

variable {τ : Type} {receive : Nat → τ → Option (List Byte × τ)}

theorem evaluationLoop_line {nextOperator : Nat → τ → Option (Byte × τ)}
    {operand : CArray Word MAX} {count : Nat} {source : τ} {first : Word}
    {buf : CArray Byte MAX} {lead : List Byte}
    {final : Evaluation τ (CArray Byte MAX)} (holds : buf.cString? = some lead)
    (ran : evaluationLoop nextOperator CArray.append? operand count
      ⟨source, [], first, buf⟩ = some final) :
    final.text.cString? = some (lead ++ stepsText final.steps) ∧
      final.opResult = evaluateSteps first final.steps := by
  refine forLoop_invariant (fun _ (state : Evaluation τ (CArray Byte MAX)) =>
    state.text.cString? = some (lead ++ stepsText state.steps) ∧
      state.opResult = evaluateSteps first state.steps) ?_ ?_ ran
  · exact ⟨by simpa [stepsText] using holds, rfl⟩
  · rintro index _ before after ⟨text, value⟩ taken
    simp only [evaluationStep, Option.bind_eq_bind, Option.bind_eq_some_iff] at taken
    obtain ⟨fetched, _, right, _, printed, appended, result⟩ := taken
    cases result
    constructor
    · rw [CArray.cString?_append text appended]
      simp [stepsText]
    · simp [evaluateSteps, value]

/-- However its reads cut the connection, a worker's line is the formula of the
operands and operators it used, with their value. -/
theorem worker_line {pid : Int} {locals : Locals} {connection rest : τ}
    {operand : CArray Word MAX} {steps : List (Byte × Word)} {opResult : Word}
    {line : List Byte}
    (ran : worker receive pid locals connection =
      some (.replied operand steps opResult (some line), rest)) :
    ∃ first, line = logLine pid ⟨first, steps⟩ ∧ line.length < MAX := by
  simp only [worker, Option.bind_eq_bind, Option.bind_eq_some_iff] at ran
  obtain ⟨received, _, ran⟩ := ran
  split at ran
  · cases ran
  · simp only [Option.bind_eq_some_iff] at ran
    obtain ⟨operands, _, first, _, buf, printed, final, loop, result⟩ := ran
    simp only [Option.pure_def, Option.some.injEq, Prod.mk.injEq,
      Outcome.replied.injEq] at result
    obtain ⟨⟨rfl, rfl, rfl, ends⟩, rfl⟩ := result
    obtain ⟨ended, appended, whole⟩ := Option.bind_eq_some_iff.mp ends
    have plain : 0#8 ∉ pidText pid ++ decimal first.toInt := by
      simp [zero_notMem_pidText, zero_notMem_decimal]
    have holds := CArray.cString?_print printed
    rw [cString_of_notMem plain] at holds
    obtain ⟨text, value⟩ := evaluationLoop_line holds loop
    have lineHolds := CArray.cString?_append text appended
    rw [cString_of_notMem (zero_notMem_resultText _), value, whole] at lineHolds
    refine ⟨first, ?_, CArray.length_lt_of_cString? whole⟩
    simpa [logLine, Expression.line, Expression.text, Expression.value] using lineHolds

end worker

/-! ## What the steps preserve -/

section preservation

variable {τ : Type} {receive : Nat → τ → Option (List Byte × τ)}

/-- The bytes that the logger has read and not yet handed to its stream. -/
def System.pending (s : System τ) : List Byte :=
  match s.point with
  | .fwrite len => s.msgbuf.cells.take len
  | .read | .fflush => []

def System.lines (s : System τ) : List Byte :=
  (s.written.map Prod.snd).flatten

/-- A worker's line, when its `write` is still to come or was made. -/
def Stage.line : Stage → Option (List Byte)
  | .ready line | .wrote line => some line
  | .serving | .exited => none

/-- Every written byte is in exactly one place, and every worker that wrote its
line is recorded once. -/
structure Accounted (receive : Nat → τ → Option (List Byte × τ)) (s : System τ) :
    Prop where
  bytes : s.log ++ s.stream ++ s.pending ++ s.pipe = s.lines
  idle : s.point = .read → s.stream = []
  once : (s.written.map Prod.fst).Nodup
  wrote : ∀ worker line, (worker, line) ∈ s.written ↔
    s.workers[worker]?.map Worker.stage = some (.wrote line)
  computed : ∀ child ∈ s.workers, ∀ line, child.stage.line = some line →
    child.serve receive = some (.ready line)

theorem accounted_initial : Accounted receive (System.initial τ) where
  bytes := rfl
  idle := fun _ => rfl
  once := by simp [System.initial]
  wrote := by simp [System.initial]
  computed := by simp [System.initial]

variable {s next : System τ}

theorem accounted_fork (held : Accounted receive s) (pid : Int) (locals : Locals)
    (connection : τ) :
    Accounted receive
      { s with workers := s.workers ++ [⟨pid, locals, connection, .serving⟩] } := by
  refine { held with wrote := ?_, computed := ?_ }
  · intro worker line
    rw [held.wrote, List.getElem?_append]
    split
    · rfl
    · rename_i beyond
      rw [List.getElem?_eq_none (by omega)]
      cases found : [(⟨pid, locals, connection, .serving⟩ : Worker τ)][
          worker - s.workers.length]? with
      | none => rfl
      | some child =>
          have isNew := List.mem_of_getElem? found
          rw [List.mem_singleton] at isNew
          simp [isNew]
  · intro child member line isLine
    rcases List.mem_append.mp member with old | new
    · exact held.computed child old line isLine
    · rw [List.mem_singleton.mp new] at isLine
      cases isLine

theorem accounted_serve {worker : Nat} {child : Worker τ} {stage : Stage}
    (held : Accounted receive s) (found : s.workers[worker]? = some child)
    (serving : child.stage = .serving) (served : child.serve receive = some stage) :
    Accounted receive
      { s with workers := s.workers.set worker { child with stage := stage } } := by
  have notWrote : ∀ line, stage ≠ .wrote line := by
    rintro line rfl
    simp only [Worker.serve, Option.bind_eq_bind, Option.bind_eq_some_iff] at served
    obtain ⟨⟨outcome, rest⟩, _, leads⟩ := served
    cases outcome with
    | saved opCount => cases leads
    | replied operand steps opResult line => simp at leads
  refine { held with wrote := ?_, computed := ?_ }
  · intro other line
    rw [held.wrote, List.getElem?_set]
    split
    · rename_i same
      subst same
      rw [found]
      split
      · simp [serving, notWrote]
      · simp [serving]
    · rfl
  · intro other member line isLine
    rcases List.mem_or_eq_of_mem_set member with old | rfl
    · exact held.computed other old line isLine
    · cases stage with
      | ready own =>
          cases isLine
          exact served
      | wrote own => exact absurd rfl (notWrote own)
      | serving => cases isLine
      | exited => cases isLine

theorem accounted_write {worker : Nat} {child : Worker τ} {line : List Byte}
    (held : Accounted receive s) (found : s.workers[worker]? = some child)
    (ready : child.stage = .ready line) :
    Accounted receive { s with
      workers := s.workers.set worker { child with stage := .wrote line }
      pipe := s.pipe ++ line
      written := s.written ++ [(worker, line)] } := by
  have bound : worker < s.workers.length := (List.getElem?_eq_some_iff.mp found).1
  have new : worker ∉ s.written.map Prod.fst := by
    intro member
    obtain ⟨⟨same, old⟩, recorded, rfl⟩ := List.mem_map.mp member
    have wrote := (held.wrote _ _).mp recorded
    rw [found, Option.map_some, ready] at wrote
    cases wrote
  refine { held with bytes := ?_, once := ?_, wrote := ?_, computed := ?_ }
  · have bytes := held.bytes
    simp only [System.lines, System.pending, List.map_append, List.flatten_append,
      List.map_cons, List.map_nil, List.flatten_singleton] at bytes ⊢
    rw [← bytes]
    simp only [List.append_assoc]
  · rw [List.map_append, List.nodup_append]
    refine ⟨held.once, by simp, ?_⟩
    rintro other member _ isNew rfl
    rw [List.map_singleton, List.mem_singleton] at isNew
    rw [isNew] at member
    exact new member
  · intro other text
    rw [List.mem_append, List.mem_singleton, List.getElem?_set, held.wrote]
    split
    · rename_i same
      subst same
      rw [found]
      simp [ready, eq_comm]
    · rename_i different
      simp [Ne.symm different]
  · intro other member text isLine
    rcases List.mem_or_eq_of_mem_set member with old | rfl
    · exact held.computed other old text isLine
    · exact held.computed child (List.mem_of_getElem? found) text (by rw [ready]; exact isLine)

theorem accounted_step {action : Action τ} (held : Accounted receive s)
    (taken : step receive s action = some next) : Accounted receive next := by
  have bytes := held.bytes
  cases step_moves taken with
  | fork pid locals connection => exact accounted_fork held pid locals connection
  | serve worker found serving served => exact accounted_serve held found serving served
  | write worker found ready => exact accounted_write held found ready
  | read len point size =>
      have cells : (s.msgbuf.fill (s.pipe.take len)).cells.take len = s.pipe.take len := by
        rw [CArray.cells_fill _ (by simp; omega)]
        exact List.take_left' (by simp; omega)
      refine { held with bytes := ?_, idle := by simp }
      simp only [System.pending, System.lines, point, List.append_nil] at bytes ⊢
      rw [cells, List.append_assoc, List.take_append_drop, bytes]
  | fwrite len point moved =>
      obtain ⟨_, rfl⟩ := CArray.read?_eq_some.mp moved
      refine { held with bytes := ?_, idle := by simp }
      simpa [System.pending, System.lines, point] using bytes
  | spill count =>
      refine { held with bytes := ?_, idle := ?_ }
      · rw [← List.take_append_drop count s.stream, ← List.append_assoc] at bytes
        exact bytes
      · intro point
        simp [held.idle point]
  | fflush point =>
      refine { held with bytes := ?_, idle := fun _ => rfl }
      simpa [System.pending, System.lines, point] using bytes

end preservation

/-- In every reachable state the file is a prefix of the lines that the workers
wrote, one after another: each is whole, each worker has at most one, and all
are in the file when the pipe is empty and the logger waits for it. -/
theorem log_keeps_lines {τ : Type} {receive : Nat → τ → Option (List Byte × τ)}
    {actions : List (Action τ)} {s : System τ}
    (reached : run (step receive) (System.initial τ) actions = some s) :
    s.log <+: s.lines ∧
      (s.pipe = [] → s.point = .read → s.log = s.lines) ∧
      (s.written.map Prod.fst).Nodup ∧
      (∀ worker line, (worker, line) ∈ s.written ↔
        s.workers[worker]?.map Worker.stage = some (.wrote line)) ∧
      ∀ worker line, (worker, line) ∈ s.written → line.length < MAX ∧
        ∃ child expression, s.workers[worker]? = some child ∧
          line = logLine child.pid expression := by
  have held : Accounted receive s := run_invariant_of_step (Accounted receive)
    (fun held taken => accounted_step held taken) accounted_initial reached
  refine ⟨⟨s.stream ++ s.pending ++ s.pipe, ?_⟩, ?_, held.once, held.wrote, ?_⟩
  · simpa using held.bytes
  · intro drained waits
    have bytes := held.bytes
    simpa [drained, held.idle waits, System.pending, waits] using bytes
  · intro worker line member
    obtain ⟨child, found, stage⟩ :=
      Option.map_eq_some_iff.mp ((held.wrote worker line).mp member)
    have served := held.computed child (List.mem_of_getElem? found) line
      (by rw [stage]; rfl)
    simp only [Worker.serve, Option.bind_eq_bind, Option.bind_eq_some_iff] at served
    obtain ⟨⟨outcome, rest⟩, ran, leads⟩ := served
    cases outcome with
    | saved opCount => cases leads
    | replied operand steps opResult text =>
        obtain ⟨own, rfl, same⟩ := Option.map_eq_some_iff.mp leads
        cases same
        obtain ⟨first, isLine, short⟩ := worker_line ran
        exact ⟨short, child, ⟨first, steps⟩, found, isLine⟩

/-- Two workers; the second read of the logger ends inside the second line. -/
def twoLines : List (Action (List Byte)) :=
  [.fork 7 Locals.zero (Expression.encode ⟨1, [(ascii '+', 2)]⟩),
    .fork 8 Locals.zero (Expression.encode ⟨5, []⟩), .serve 1, .serve 0, .write 1,
    .read 4, .fwrite, .write 0, .fflush, .read 9, .fwrite, .spill 2]

theorem log_keeps_lines_twoLines :
    ∃ s, run (step Channel.readAll) (System.initial (List Byte)) twoLines = some s ∧
      s.log <+: s.lines ∧ s.log.length = 6 ∧
      s.lines = logLine 8 ⟨5, []⟩ ++ logLine 7 ⟨1, [(ascii '+', 2)]⟩ := by
  have shape : (run (step Channel.readAll) (System.initial (List Byte)) twoLines).any
      (fun s => s.log.length = 6 ∧
        s.lines = logLine 8 ⟨5, []⟩ ++ logLine 7 ⟨1, [(ascii '+', 2)]⟩) = true := by
    decide +kernel
  obtain ⟨s, reached, shaped⟩ := (Option.any_eq_true _ _).mp shape
  obtain ⟨length, lines⟩ := of_decide_eq_true shaped
  exact ⟨s, reached, (log_keeps_lines reached).1, length, lines⟩

end NetworkProgramming.Hw5
