import NetworkProgramming.Foundation.CArray
import NetworkProgramming.Foundation.Tee

/-!
# The echo server `echo_storeserv.c`

A worker process for each connection echoes what it reads and copies it to a
pipe.  The logger process reads the pipe ten times, writes `echomsg.txt` and
exits.  Nobody reads the pipe then, though its reading end stays open in the
other processes: the workers fill it and wait.
-/

namespace NetworkProgramming.Hw5.Practice.EchoStore

open MachineInt Transition

def BUF_SIZE : Nat := 100

/-- The bound of the logger's loop. -/
def READS : Nat := 10

/-- Where the loop of a worker is. -/
inductive WorkerPoint where
  | read
  | echo (str_len : Nat)
  | copy (str_len : Nat)
  /-- Behind `close(clnt_sock)`. -/
  | closed
deriving DecidableEq

/-- A child process with its connection. -/
structure Worker where
  /-- What the client sends before it closes its side. -/
  sent : List Byte
  /-- What the worker has not read of it. -/
  input : List Byte
  /-- The worker's own copy of the global. -/
  buf : CArray Byte BUF_SIZE
  echoed : List Byte
  point : WorkerPoint
  /-- A `write` to a connection that the client has reset kills the process. -/
  killed : Bool

/-- Where the logger is in its ten turns. -/
inductive LoggerPoint where
  | read
  | fwrite (len : Nat)
  | fclose
  | exited
deriving DecidableEq

/-- The workers, the logger and the pipe between them. -/
structure System where
  workers : List Worker
  /-- Which worker wrote which block to the pipe, in this order. -/
  blocks : List (Nat × List Byte)
  pipe : List Byte
  i : Nat
  logger : LoggerPoint
  msgbuf : CArray Byte BUF_SIZE
  /-- The bytes in the buffer of the stream `fp`. -/
  stream : List Byte
  echomsg : List Byte

/-- A step of one process, or what happens to a connection. -/
inductive Action where
  /-- `accept` returns a connection, and `fork` its worker. -/
  | accept (sent : List Byte)
  | read (worker len : Nat)
  /-- `read` returns -1, and so do the two writes of that many bytes. -/
  | readFails (worker : Nat)
  | endOfStream (worker : Nat)
  | echo (worker : Nat)
  | kill (worker : Nat)
  | copy (worker : Nat)
  | loggerRead (len : Nat)
  | fwrite
  /-- The stream writes the front of its buffer to the file. -/
  | spill (count : Nat)
  | fclose

/-- `fopen("echomsg.txt", "wt")` leaves an empty file. -/
def System.initial : System where
  workers := []
  blocks := []
  pipe := []
  i := 0
  logger := .read
  msgbuf := CArray.replicate BUF_SIZE 0#8
  stream := []
  echomsg := []

/-- A step on a pipe of this capacity: a `write` of so few bytes is not divided, and waits
until there is room for all of them.  A `write` to a connection does all or kills the process;
one that fails with `ECONNRESET`, without a signal, is left out. -/
def step (capacity : Nat) (s : System) : Action → Option System
  | .accept sent => some { s with workers := s.workers ++
      [⟨sent, sent, CArray.replicate BUF_SIZE 0#8, [], .read, false⟩] }
  | .read worker len => do
      let child ← s.workers[worker]?
      if child.point = .read ∧ 0 < len ∧ len ≤ BUF_SIZE ∧ len ≤ child.input.length then
        some { s with workers := s.workers.set worker { child with
          buf := child.buf.fill (child.input.take len)
          input := child.input.drop len
          point := .echo len } }
      else none
  | .readFails worker => do
      let child ← s.workers[worker]?
      if child.point = .read then some s else none
  | .endOfStream worker => do
      let child ← s.workers[worker]?
      if child.point = .read ∧ child.input = [] then
        some { s with workers := s.workers.set worker { child with point := .closed } }
      else none
  | .echo worker => do
      let child ← s.workers[worker]?
      match child.point with
      | .echo str_len => do
          let bytes ← child.buf.read? 0 str_len
          if child.killed then none
          else some { s with workers := s.workers.set worker { child with
            echoed := child.echoed ++ bytes
            point := .copy str_len } }
      | _ => none
  | .kill worker => do
      let child ← s.workers[worker]?
      match child.point with
      | .echo _ => some { s with workers := s.workers.set worker { child with
          killed := true } }
      | _ => none
  | .copy worker => do
      let child ← s.workers[worker]?
      match child.point with
      | .copy str_len => do
          let bytes ← child.buf.read? 0 str_len
          if s.pipe.length + str_len ≤ capacity then
            some { s with
              workers := s.workers.set worker { child with point := .read }
              blocks := s.blocks ++ [(worker, bytes)]
              pipe := s.pipe ++ bytes }
          else none
      | _ => none
  | .loggerRead len =>
      if s.logger = .read ∧ 0 < len ∧ len ≤ BUF_SIZE ∧ len ≤ s.pipe.length then
        some { s with
          msgbuf := s.msgbuf.fill (s.pipe.take len)
          pipe := s.pipe.drop len
          logger := .fwrite len }
      else none
  | .fwrite =>
      match s.logger with
      | .fwrite len => do
          let bytes ← s.msgbuf.read? 0 len
          return { s with
            stream := s.stream ++ bytes
            i := s.i + 1
            logger := if s.i + 1 < READS then .read else .fclose }
      | _ => none
  | .spill count =>
      some { s with
        echomsg := s.echomsg ++ s.stream.take count
        stream := s.stream.drop count }
  | .fclose =>
      if s.logger = .fclose then
        some { s with
          echomsg := s.echomsg ++ s.stream
          stream := []
          logger := .exited }
      else none

/-! ## What a step does -/

/-- A step, by its action and what it finds. -/
inductive Moves (capacity : Nat) (s : System) : Action → System → Prop where
  | accept (sent : List Byte) :
      Moves capacity s (.accept sent) { s with workers := s.workers ++
        [⟨sent, sent, CArray.replicate BUF_SIZE 0#8, [], .read, false⟩] }
  | read (worker len : Nat) (child : Worker) (found : s.workers[worker]? = some child)
      (point : child.point = .read)
      (size : 0 < len ∧ len ≤ BUF_SIZE ∧ len ≤ child.input.length) :
      Moves capacity s (.read worker len) { s with
        workers := s.workers.set worker { child with
          buf := child.buf.fill (child.input.take len)
          input := child.input.drop len
          point := .echo len } }
  | readFails (worker : Nat) : Moves capacity s (.readFails worker) s
  | endOfStream (worker : Nat) (child : Worker) (found : s.workers[worker]? = some child)
      (point : child.point = .read) (ended : child.input = []) :
      Moves capacity s (.endOfStream worker)
        { s with workers := s.workers.set worker { child with point := .closed } }
  | echo (worker str_len : Nat) (child : Worker) (found : s.workers[worker]? = some child)
      (point : child.point = .echo str_len) :
      Moves capacity s (.echo worker) { s with
        workers := s.workers.set worker { child with
          echoed := child.echoed ++ child.buf.cells.take str_len
          point := .copy str_len } }
  | kill (worker str_len : Nat) (child : Worker) (found : s.workers[worker]? = some child)
      (point : child.point = .echo str_len) :
      Moves capacity s (.kill worker)
        { s with workers := s.workers.set worker { child with killed := true } }
  | copy (worker str_len : Nat) (child : Worker) (found : s.workers[worker]? = some child)
      (point : child.point = .copy str_len) (room : s.pipe.length + str_len ≤ capacity) :
      Moves capacity s (.copy worker) { s with
        workers := s.workers.set worker { child with point := .read }
        blocks := s.blocks ++ [(worker, child.buf.cells.take str_len)]
        pipe := s.pipe ++ child.buf.cells.take str_len }
  | loggerRead (len : Nat) (point : s.logger = .read)
      (size : 0 < len ∧ len ≤ BUF_SIZE ∧ len ≤ s.pipe.length) :
      Moves capacity s (.loggerRead len) { s with
        msgbuf := s.msgbuf.fill (s.pipe.take len)
        pipe := s.pipe.drop len
        logger := .fwrite len }
  | fwrite (len : Nat) (point : s.logger = .fwrite len) :
      Moves capacity s .fwrite { s with
        stream := s.stream ++ s.msgbuf.cells.take len
        i := s.i + 1
        logger := if s.i + 1 < READS then .read else .fclose }
  | spill (count : Nat) :
      Moves capacity s (.spill count) { s with
        echomsg := s.echomsg ++ s.stream.take count
        stream := s.stream.drop count }
  | fclose (point : s.logger = .fclose) :
      Moves capacity s .fclose { s with
        echomsg := s.echomsg ++ s.stream
        stream := []
        logger := .exited }

theorem step_moves {capacity : Nat} {s next : System} {action : Action}
    (taken : step capacity s action = some next) : Moves capacity s action next := by
  cases action with
  | accept sent =>
      cases taken
      exact .accept sent
  | read worker len =>
      simp only [step, Option.bind_eq_bind, Option.bind_eq_some_iff] at taken
      obtain ⟨child, found, taken⟩ := taken
      split at taken <;> rename_i guard
      · cases taken
        exact .read worker len child found guard.1 guard.2
      · cases taken
  | readFails worker =>
      simp only [step, Option.bind_eq_bind, Option.bind_eq_some_iff] at taken
      obtain ⟨child, found, taken⟩ := taken
      split at taken
      · cases taken
        exact .readFails worker
      · cases taken
  | endOfStream worker =>
      simp only [step, Option.bind_eq_bind, Option.bind_eq_some_iff] at taken
      obtain ⟨child, found, taken⟩ := taken
      split at taken <;> rename_i guard
      · cases taken
        exact .endOfStream worker child found guard.1 guard.2
      · cases taken
  | echo worker =>
      simp only [step, Option.bind_eq_bind, Option.bind_eq_some_iff] at taken
      obtain ⟨child, found, taken⟩ := taken
      split at taken <;> rename_i str_len point
      · obtain ⟨bytes, copied, taken⟩ := Option.bind_eq_some_iff.mp taken
        obtain ⟨_, rfl⟩ := CArray.read?_eq_some.mp copied
        split at taken
        · cases taken
        · cases taken
          exact .echo worker str_len child found point
      · cases taken
  | kill worker =>
      simp only [step, Option.bind_eq_bind, Option.bind_eq_some_iff] at taken
      obtain ⟨child, found, taken⟩ := taken
      split at taken <;> rename_i str_len point
      · cases taken
        exact .kill worker str_len child found point
      · cases taken
  | copy worker =>
      simp only [step, Option.bind_eq_bind, Option.bind_eq_some_iff] at taken
      obtain ⟨child, found, taken⟩ := taken
      split at taken <;> rename_i str_len point
      · obtain ⟨bytes, copied, taken⟩ := Option.bind_eq_some_iff.mp taken
        obtain ⟨_, rfl⟩ := CArray.read?_eq_some.mp copied
        split at taken <;> rename_i room
        · cases taken
          exact .copy worker str_len child found point room
        · cases taken
      · cases taken
  | loggerRead len =>
      simp only [step] at taken
      split at taken <;> rename_i guard
      · cases taken
        exact .loggerRead len guard.1 guard.2
      · cases taken
  | fwrite =>
      simp only [step] at taken
      split at taken <;> rename_i len point
      · obtain ⟨bytes, copied, taken⟩ := Option.bind_eq_some_iff.mp taken
        obtain ⟨_, rfl⟩ := CArray.read?_eq_some.mp copied
        cases taken
        exact .fwrite len point
      · cases taken
  | spill count =>
      cases taken
      exact .spill count
  | fclose =>
      simp only [step] at taken
      split at taken <;> rename_i point
      · cases taken
        exact .fclose point
      · cases taken

/-! ## The server as a tee -/

def Worker.phase (child : Worker) : Tee.Phase :=
  match child.point with
  | .read | .closed => .read
  | .echo _ => .echo
  | .copy _ => .copy

def Worker.held (child : Worker) : List Byte :=
  match child.point with
  | .read | .closed => []
  | .echo str_len | .copy str_len => child.buf.cells.take str_len

def Worker.source (child : Worker) : Tee.Source Byte :=
  ⟨child.sent, child.input, child.held, child.echoed, child.phase⟩

/-- The bytes that the logger has read and not yet handed to its stream. -/
def System.pending (s : System) : List Byte :=
  match s.logger with
  | .fwrite len => s.msgbuf.cells.take len
  | .read | .fclose | .exited => []

def System.tee (s : System) : Tee.State Byte where
  sources := s.workers.map Worker.source
  blocks := s.blocks
  pipe := s.pipe
  collected := s.echomsg ++ s.stream ++ s.pending

theorem cells_take_fill {buf : CArray Byte BUF_SIZE} {input : List Byte} {len : Nat}
    (small : len ≤ BUF_SIZE) (enough : len ≤ input.length) :
    (buf.fill (input.take len)).cells.take len = input.take len := by
  rw [CArray.cells_fill _ (by simp; omega)]
  exact List.take_left' (by simp; omega)

section shown

variable {s : System} {worker : Nat} {child : Worker}

theorem tee_source (found : s.workers[worker]? = some child) :
    s.tee.sources[worker]? = some child.source := by
  simp [System.tee, found]

theorem tee_set (new : Worker) :
    System.tee { s with workers := s.workers.set worker new } =
      { s.tee with sources := s.tee.sources.set worker new.source } := by
  simp [System.tee, System.pending, List.map_set]

theorem tee_set_same {new : Worker} (found : s.workers[worker]? = some child)
    (same : new.source = child.source) :
    System.tee { s with workers := s.workers.set worker new } = s.tee := by
  obtain ⟨bound, isSource⟩ := List.getElem?_eq_some_iff.mp (tee_source found)
  rw [tee_set, same, ← isSource, List.set_getElem_self]

end shown

/-- Every step of the server is a step of the tee, or does not show in it. -/
theorem tee_step {capacity : Nat} {s next : System} {action : Action}
    (taken : step capacity s action = some next) :
    next.tee = s.tee ∨ ∃ seen, Tee.step BUF_SIZE s.tee seen = some next.tee := by
  cases step_moves taken with
  | accept sent =>
      exact .inr ⟨.join sent, by simp [Tee.step, System.tee, Worker.source, Worker.held,
        Worker.phase, System.pending]⟩
  | read worker len child found point size =>
      have phase : child.source.phase = .read := by
        simp [Worker.source, Worker.phase, point]
      have block : (child.buf.fill (child.input.take len)).cells.take len =
          child.input.take len := cells_take_fill size.2.1 size.2.2
      refine .inr ⟨.read worker len, ?_⟩
      simp only [Tee.step, tee_source found, Option.bind_eq_bind, Option.bind_some]
      rw [if_pos ⟨phase, size⟩, tee_set]
      simp [Worker.source, Worker.held, Worker.phase, block]
  | readFails worker => exact .inl rfl
  | endOfStream worker child found point ended =>
      exact .inl (tee_set_same found (by
        simp [Worker.source, Worker.held, Worker.phase, point]))
  | echo worker str_len child found point =>
      have phase : child.source.phase = .echo := by
        simp [Worker.source, Worker.phase, point]
      refine .inr ⟨.echo worker, ?_⟩
      simp only [Tee.step, tee_source found, Option.bind_eq_bind, Option.bind_some]
      rw [if_pos phase, tee_set]
      simp [Worker.source, Worker.held, Worker.phase, point]
  | kill worker str_len child found point => exact .inl (tee_set_same found rfl)
  | copy worker str_len child found point room =>
      have phase : child.source.phase = .copy := by
        simp [Worker.source, Worker.phase, point]
      refine .inr ⟨.copy worker, ?_⟩
      simp only [Tee.step, tee_source found, Option.bind_eq_bind, Option.bind_some]
      rw [if_pos phase]
      simp [System.tee, System.pending, Worker.source, Worker.held, Worker.phase, point,
        List.map_set]
  | loggerRead len point size =>
      have block : (s.msgbuf.fill (s.pipe.take len)).cells.take len = s.pipe.take len :=
        cells_take_fill size.2.1 size.2.2
      refine .inr ⟨.collect len, ?_⟩
      simp only [Tee.step, System.tee, size.2.2, if_true, System.pending, point, block]
      simp
  | fwrite len point =>
      left
      by_cases more : s.i + 1 < READS <;> simp [System.tee, System.pending, point, more]
  | spill count =>
      left
      simp only [System.tee, System.pending]
      rw [List.append_assoc s.echomsg, List.take_append_drop]
  | fclose point =>
      left
      simp [System.tee, System.pending, point]

theorem conserved {capacity : Nat} {actions : List Action} {s : System}
    (reached : run (step capacity) System.initial actions = some s) :
    Tee.Conserved BUF_SIZE s.tee := by
  obtain ⟨_, shown⟩ := run_shows tee_step reached
  exact Tee.conserved_run shown

/-! ## The ten reads of the logger -/

/-- How often the logger's `read` has returned. -/
def System.reads (s : System) : Nat :=
  match s.logger with
  | .fwrite _ => s.i + 1
  | .read | .fclose | .exited => s.i

/-- What the bound of the logger's loop means for the pipe and the file. -/
structure Logged (capacity : Nat) (s : System) : Prop where
  reads : s.reads ≤ READS
  more : s.logger = .read → s.i < READS
  block : ∀ len, s.logger = .fwrite len → len ≤ BUF_SIZE
  collected : s.tee.collected.length ≤ BUF_SIZE * s.reads
  pipe : s.pipe.length ≤ capacity
  flushed : s.logger = .exited → s.stream = []
  closed : ∀ child ∈ s.workers, child.point = .closed → child.input = []

theorem logged_initial (capacity : Nat) : Logged capacity System.initial := by
  constructor <;>
    simp [System.initial, System.reads, System.tee, System.pending, READS]

section logged

variable {capacity : Nat} {s next : System}

theorem Logged.set (held : Logged capacity s) {worker : Nat} {new : Worker}
    (closed : new.point = .closed → new.input = []) :
    Logged capacity { s with workers := s.workers.set worker new } := by
  refine ⟨held.reads, held.more, held.block, held.collected, held.pipe, held.flushed, ?_⟩
  intro child member
  rcases List.mem_or_eq_of_mem_set member with old | rfl
  · exact held.closed child old
  · exact closed

theorem logged_step {action : Action} (held : Logged capacity s)
    (taken : step capacity s action = some next) : Logged capacity next := by
  have reads := held.reads
  have collected := held.collected
  have pipe := held.pipe
  cases step_moves taken with
  | accept sent =>
      refine ⟨reads, held.more, held.block, collected, pipe, held.flushed, ?_⟩
      intro child member point
      rcases List.mem_append.mp member with old | new
      · exact held.closed child old point
      · rw [List.mem_singleton.mp new] at point
        cases point
  | read worker len child found point size => exact held.set (by simp)
  | readFails worker => exact held
  | endOfStream worker child found point ended => exact held.set fun _ => ended
  | echo worker str_len child found point => exact held.set (by simp)
  | kill worker str_len child found point => exact held.set (by simp [point])
  | copy worker str_len child found point room =>
      have kept : Logged capacity { s with
          workers := s.workers.set worker { child with point := .read } } :=
        held.set (by simp)
      refine ⟨reads, held.more, held.block, collected, ?_, held.flushed, kept.closed⟩
      simp
      omega
  | loggerRead len point size =>
      have more := held.more point
      simp only [System.tee, System.pending, System.reads, point, List.append_nil,
        List.length_append] at collected
      refine ⟨more, by simp, ?_, ?_, by simp; omega, by simp, held.closed⟩
      · rintro _ ⟨⟩
        exact size.2.1
      · simp only [System.tee, System.pending, System.reads, List.length_append,
          List.length_take, Nat.mul_succ]
        omega
  | fwrite len point =>
      simp only [System.reads, point] at reads
      simp only [System.tee, System.pending, System.reads, point] at collected
      rw [List.append_assoc] at collected
      by_cases more : s.i + 1 < READS
      · refine ⟨?_, fun _ => more, by simp [more], ?_, pipe, by simp [more], held.closed⟩
        · simpa [System.reads, more] using reads
        · simpa [System.tee, System.pending, System.reads, more] using collected
      · refine ⟨?_, by simp [more], by simp [more], ?_, pipe, by simp [more], held.closed⟩
        · simpa [System.reads, more] using reads
        · simpa [System.tee, System.pending, System.reads, more] using collected
  | spill count =>
      refine ⟨reads, held.more, held.block, ?_, pipe,
        fun exited => by simp [held.flushed exited], held.closed⟩
      simp only [System.tee, System.pending] at collected ⊢
      rwa [List.append_assoc s.echomsg, List.take_append_drop]
  | fclose point =>
      simp only [System.reads, point] at reads
      simp only [System.tee, System.pending, System.reads, point] at collected
      refine ⟨reads, by simp, by simp, ?_, pipe, fun _ => rfl, held.closed⟩
      simpa [System.tee, System.pending, System.reads] using collected

theorem logged_run {actions : List Action}
    (reached : run (step capacity) System.initial actions = some s) : Logged capacity s :=
  run_invariant_of_step (Logged capacity) (fun held taken => logged_step held taken)
    (logged_initial capacity) reached

end logged

/-! ## What the server does in all -/

/-- In all its runs the server sends back no more than the logger's ten reads, a full pipe
and one block for every connection, whatever the clients send. -/
theorem echoed_bounded {capacity : Nat} {actions : List Action} {s : System}
    (reached : run (step capacity) System.initial actions = some s) :
    (s.workers.map fun child => child.echoed.length).sum ≤
      BUF_SIZE * READS + capacity + BUF_SIZE * s.workers.length := by
  have held := conserved reached
  have logged := logged_run reached
  have echoed := held.echoed_le
  have blocks := congrArg List.length held.pipe
  have times := Nat.mul_le_mul_left BUF_SIZE logged.reads
  have collected := logged.collected
  have pipe := logged.pipe
  rw [List.length_append] at blocks
  simp only [System.tee, List.map_map, List.length_map, Function.comp_def, Worker.source]
    at echoed blocks collected
  omega

/-- One connection sends eleven bytes, which are read one by one. -/
def elevenBlocks : List Action :=
  .accept (List.replicate 11 7#8) ::
    (List.replicate 10 [Action.read 0 1, .echo 0, .copy 0, .loggerRead 1, .fwrite]).flatten ++
    [.fclose, .read 0 1, .echo 0, .copy 0, .endOfStream 0]

/-- The last byte fills a pipe of one byte. -/
theorem echoed_bounded_elevenBlocks :
    ∃ s, run (step 1) System.initial elevenBlocks = some s ∧ s.workers.length = 1 ∧
      (s.workers.map fun child => child.echoed.length).sum ≤ 1101 := by
  have shape : (run (step 1) System.initial elevenBlocks).any
      (fun s => s.workers.length = 1) = true := by
    decide +kernel
  obtain ⟨s, reached, shaped⟩ := (Option.any_eq_true _ _).mp shape
  have single : s.workers.length = 1 := of_decide_eq_true shaped
  have bound := echoed_bounded reached
  rw [single] at bound
  exact ⟨s, reached, single, bound⟩

end NetworkProgramming.Hw5.Practice.EchoStore
