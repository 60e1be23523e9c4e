import Mathlib.Data.Finset.Basic
import Mathlib.Logic.Function.Basic
import NetworkProgramming.Foundation.CArray
import NetworkProgramming.Foundation.Pool
import NetworkProgramming.Foundation.Tee

/-!
# The echo server `echo_selectserv.c`

One process serves all clients: it reads a ready descriptor into the only buffer,
writes the block back and copies it to a pipe, then goes on with the scan.  The
child process appends what it reads of the pipe to `log.txt`.
-/

namespace NetworkProgramming.Hw6.Practice.EchoSelect

open MachineInt Transition

def BUF_SIZE : Nat := 100

/-- Where the loop over the descriptors is. -/
inductive ParentPoint where
  | select
  | scan
  | echo (str_len : Nat)
  | copy (str_len : Nat)
  /-- By the signal of a `write` to a connection that the client has reset. -/
  | killed (str_len : Nat)
deriving DecidableEq

/-- A connection as its client sees it. -/
structure Client where
  /-- What the client sends before it closes its side. -/
  sent : List Byte
  /-- What was not read of it. -/
  input : List Byte
  echoed : List Byte

/-- Where the loop of the child process is. -/
inductive LoggerPoint where
  | read
  | fwrite (len : Nat)
  | fflush
deriving DecidableEq

/-- The parent with its one buffer, the logger and the pipe between them. -/
structure System where
  point : ParentPoint
  reads : Finset Nat
  cpy_reads : Finset Nat
  fd_max : Nat
  i : Nat
  buf : CArray Byte BUF_SIZE
  /-- The clients in the order of their connections. -/
  clients : List Client
  /-- The client at an open descriptor. -/
  connection : Nat → Option Nat
  /-- Whose block was written to the pipe, in this order. -/
  blocks : List (Nat × List Byte)
  pipe : List Byte
  logger : LoggerPoint
  msgbuf : CArray Byte BUF_SIZE
  /-- The bytes in the buffer of the stream `fp`. -/
  stream : List Byte
  /-- What was in `log.txt` before, and what was written behind it. -/
  old : List Byte
  appended : List Byte

/-- A step of one of the two processes, with what the system call returns. -/
inductive Action where
  /-- `select` returns these descriptors, none of them after its time. -/
  | select (ready : Finset Nat)
  | skip
  | accept (clnt_sock : Nat) (sent : List Byte)
  | read (len : Nat)
  /-- `read` returns -1, and so do the two writes of that many bytes. -/
  | readFails
  | endOfStream
  | echo
  | kill
  | copy
  | loggerRead (len : Nat)
  | fwrite
  /-- The stream writes the front of its buffer to the file. -/
  | spill (count : Nat)
  | fflush

/-- `fopen("log.txt", "a+")` keeps what is in the file. -/
def System.initial (serv_sock : Nat) (old : List Byte) : System where
  point := .select
  reads := {serv_sock}
  cpy_reads := ∅
  fd_max := serv_sock
  i := 0
  buf := CArray.replicate BUF_SIZE 0#8
  clients := []
  connection := fun _ => none
  blocks := []
  pipe := []
  logger := .read
  msgbuf := CArray.replicate BUF_SIZE 0#8
  stream := []
  old := old
  appended := []

def System.log (s : System) : List Byte := s.old ++ s.appended

/-- `FD_ISSET(i, &cpy_reads)` inside the loop. -/
def System.Ready (s : System) : Prop := s.point = .scan ∧ s.i ≤ s.fd_max ∧ s.i ∈ s.cpy_reads

instance (s : System) : Decidable s.Ready := inferInstanceAs (Decidable (_ ∧ _ ∧ _))

/-- The client whose descriptor the loop has reached. -/
def System.current (s : System) : Option (Nat × Client) := do
  let client ← s.connection s.i
  return (client, ← s.clients[client]?)

/-- A step on a pipe of this capacity: the `write` of a block waits until there is room for
all of it.  A `write` to a connection does all or kills the process; one that fails with
`ECONNRESET`, without a signal, is left out. -/
def step (serv_sock capacity : Nat) (s : System) : Action → Option System
  | .select ready =>
      if s.point = .select ∧ ready ⊆ s.reads then
        some { s with
          cpy_reads := ready
          i := 0
          point := if ready = ∅ then .select else .scan }
      else none
  | .skip =>
      if s.point = .scan then
        if s.fd_max < s.i then some { s with point := .select }
        else if s.i ∈ s.cpy_reads then none
        else some { s with i := s.i + 1 }
      else none
  | .accept clnt_sock sent =>
      if s.Ready ∧ s.i = serv_sock ∧ clnt_sock ≠ serv_sock ∧
          s.connection clnt_sock = none then
        some { s with
          clients := s.clients ++ [⟨sent, sent, []⟩]
          connection := Function.update s.connection clnt_sock (some s.clients.length)
          reads := insert clnt_sock s.reads
          fd_max := max s.fd_max clnt_sock
          i := s.i + 1 }
      else none
  | .read len => do
      let (index, client) ← s.current
      if s.Ready ∧ 0 < len ∧ len ≤ BUF_SIZE ∧ len ≤ client.input.length then
        some { s with
          buf := s.buf.fill (client.input.take len)
          clients := s.clients.set index { client with input := client.input.drop len }
          point := .echo len }
      else none
  | .readFails => do
      let _ ← s.current
      if s.Ready then some { s with i := s.i + 1 } else none
  | .endOfStream => do
      let (_, client) ← s.current
      if s.Ready ∧ client.input = [] then
        some { s with
          reads := s.reads.erase s.i
          connection := Function.update s.connection s.i none
          i := s.i + 1 }
      else none
  | .echo => do
      let (index, client) ← s.current
      match s.point with
      | .echo str_len => do
          let bytes ← s.buf.read? 0 str_len
          some { s with
            clients := s.clients.set index { client with echoed := client.echoed ++ bytes }
            point := .copy str_len }
      | _ => none
  | .kill =>
      match s.point with
      | .echo str_len => some { s with point := .killed str_len }
      | _ => none
  | .copy => do
      let (index, _) ← s.current
      match s.point with
      | .copy str_len => do
          let bytes ← s.buf.read? 0 str_len
          if s.pipe.length + str_len ≤ capacity then
            some { s with
              blocks := s.blocks ++ [(index, bytes)]
              pipe := s.pipe ++ bytes
              i := s.i + 1
              point := .scan }
          else none
      | _ => none
  | .loggerRead len =>
      if s.logger = .read ∧ 0 < len ∧ len ≤ BUF_SIZE ∧ len ≤ s.pipe.length then
        some { s with
          msgbuf := s.msgbuf.fill (s.pipe.take len)
          pipe := s.pipe.drop len
          logger := .fwrite len }
      else none
  | .fwrite =>
      match s.logger with
      | .fwrite len => do
          let bytes ← s.msgbuf.read? 0 len
          some { s with stream := s.stream ++ bytes, logger := .fflush }
      | _ => none
  | .spill count =>
      some { s with
        appended := s.appended ++ s.stream.take count
        stream := s.stream.drop count }
  | .fflush =>
      if s.logger = .fflush then
        some { s with appended := s.appended ++ s.stream, stream := [], logger := .read }
      else none

/-! ## What a step does -/

/-- A step, by its action and what it finds. -/
inductive Moves (serv_sock capacity : Nat) (s : System) : Action → System → Prop where
  | select (ready : Finset Nat) (point : s.point = .select) :
      Moves serv_sock capacity s (.select ready) { s with
        cpy_reads := ready
        i := 0
        point := if ready = ∅ then .select else .scan }
  | roundEnds (point : s.point = .scan) :
      Moves serv_sock capacity s .skip { s with point := .select }
  | skip (point : s.point = .scan) : Moves serv_sock capacity s .skip { s with i := s.i + 1 }
  | accept (clnt_sock : Nat) (sent : List Byte) (point : s.point = .scan) :
      Moves serv_sock capacity s (.accept clnt_sock sent) { s with
        clients := s.clients ++ [⟨sent, sent, []⟩]
        connection := Function.update s.connection clnt_sock (some s.clients.length)
        reads := insert clnt_sock s.reads
        fd_max := max s.fd_max clnt_sock
        i := s.i + 1 }
  | read (len index : Nat) (client : Client) (point : s.point = .scan)
      (current : s.current = some (index, client))
      (size : 0 < len ∧ len ≤ BUF_SIZE ∧ len ≤ client.input.length) :
      Moves serv_sock capacity s (.read len) { s with
        buf := s.buf.fill (client.input.take len)
        clients := s.clients.set index { client with input := client.input.drop len }
        point := .echo len }
  | readFails (point : s.point = .scan) :
      Moves serv_sock capacity s .readFails { s with i := s.i + 1 }
  | endOfStream (index : Nat) (client : Client) (point : s.point = .scan)
      (current : s.current = some (index, client)) (ended : client.input = []) :
      Moves serv_sock capacity s .endOfStream { s with
        reads := s.reads.erase s.i
        connection := Function.update s.connection s.i none
        i := s.i + 1 }
  | echo (str_len index : Nat) (client : Client) (point : s.point = .echo str_len)
      (current : s.current = some (index, client)) :
      Moves serv_sock capacity s .echo { s with
        clients := s.clients.set index { client with
          echoed := client.echoed ++ s.buf.cells.take str_len }
        point := .copy str_len }
  | kill (str_len : Nat) (point : s.point = .echo str_len) :
      Moves serv_sock capacity s .kill { s with point := .killed str_len }
  | copy (str_len index : Nat) (client : Client) (point : s.point = .copy str_len)
      (current : s.current = some (index, client)) :
      Moves serv_sock capacity s .copy { s with
        blocks := s.blocks ++ [(index, s.buf.cells.take str_len)]
        pipe := s.pipe ++ s.buf.cells.take str_len
        i := s.i + 1
        point := .scan }
  | loggerRead (len : Nat) (point : s.logger = .read)
      (size : 0 < len ∧ len ≤ BUF_SIZE ∧ len ≤ s.pipe.length) :
      Moves serv_sock capacity s (.loggerRead len) { s with
        msgbuf := s.msgbuf.fill (s.pipe.take len)
        pipe := s.pipe.drop len
        logger := .fwrite len }
  | fwrite (len : Nat) (point : s.logger = .fwrite len) :
      Moves serv_sock capacity s .fwrite { s with
        stream := s.stream ++ s.msgbuf.cells.take len
        logger := .fflush }
  | spill (count : Nat) :
      Moves serv_sock capacity s (.spill count) { s with
        appended := s.appended ++ s.stream.take count
        stream := s.stream.drop count }
  | fflush (point : s.logger = .fflush) :
      Moves serv_sock capacity s .fflush
        { s with appended := s.appended ++ s.stream, stream := [], logger := .read }

theorem step_moves {serv_sock capacity : Nat} {s next : System} {action : Action}
    (taken : step serv_sock capacity s action = some next) :
    Moves serv_sock capacity s action next := by
  cases action with
  | select ready =>
      simp only [step] at taken
      split at taken <;> rename_i guard
      · cases taken
        exact .select ready guard.1
      · cases taken
  | skip =>
      simp only [step] at taken
      split at taken <;> rename_i point
      · split at taken
        · cases taken
          exact .roundEnds point
        · split at taken
          · cases taken
          · cases taken
            exact .skip point
      · cases taken
  | accept clnt_sock sent =>
      simp only [step] at taken
      split at taken <;> rename_i guard
      · cases taken
        exact .accept clnt_sock sent guard.1.1
      · cases taken
  | read len =>
      simp only [step, Option.bind_eq_bind, Option.bind_eq_some_iff] at taken
      obtain ⟨⟨index, client⟩, current, taken⟩ := taken
      split at taken <;> rename_i guard
      · cases taken
        exact .read len index client guard.1.1 current guard.2
      · cases taken
  | readFails =>
      simp only [step, Option.bind_eq_bind, Option.bind_eq_some_iff] at taken
      obtain ⟨_, _, taken⟩ := taken
      split at taken <;> rename_i ready
      · cases taken
        exact .readFails ready.1
      · cases taken
  | endOfStream =>
      simp only [step, Option.bind_eq_bind, Option.bind_eq_some_iff] at taken
      obtain ⟨⟨index, client⟩, current, taken⟩ := taken
      split at taken <;> rename_i guard
      · cases taken
        exact .endOfStream index client guard.1.1 current guard.2
      · cases taken
  | echo =>
      simp only [step, Option.bind_eq_bind, Option.bind_eq_some_iff] at taken
      obtain ⟨⟨index, client⟩, current, taken⟩ := taken
      split at taken <;> rename_i str_len point
      · obtain ⟨bytes, copied, taken⟩ := Option.bind_eq_some_iff.mp taken
        obtain ⟨_, rfl⟩ := CArray.read?_eq_some.mp copied
        cases taken
        exact .echo str_len index client point current
      · cases taken
  | kill =>
      simp only [step] at taken
      split at taken <;> rename_i point
      · cases taken
        exact .kill _ point
      · cases taken
  | copy =>
      simp only [step, Option.bind_eq_bind, Option.bind_eq_some_iff] at taken
      obtain ⟨⟨index, client⟩, current, taken⟩ := taken
      split at taken <;> rename_i str_len point
      · obtain ⟨bytes, copied, taken⟩ := Option.bind_eq_some_iff.mp taken
        obtain ⟨_, rfl⟩ := CArray.read?_eq_some.mp copied
        split at taken
        · cases taken
          exact .copy str_len index client point current
        · cases taken
      · cases taken
  | loggerRead len =>
      simp only [step] at taken
      split at taken <;> rename_i guard
      · cases taken
        exact .loggerRead len guard.1 guard.2
      · cases taken
  | fwrite =>
      simp only [step] at taken
      split at taken <;> rename_i len point
      · obtain ⟨bytes, copied, taken⟩ := Option.bind_eq_some_iff.mp taken
        obtain ⟨_, rfl⟩ := CArray.read?_eq_some.mp copied
        cases taken
        exact .fwrite len point
      · cases taken
  | spill count =>
      cases taken
      exact .spill count
  | fflush =>
      simp only [step] at taken
      split at taken <;> rename_i point
      · cases taken
        exact .fflush point
      · cases taken

/-! ## The server as a tee -/

/-- The block that the parent is about to write. -/
def System.held (s : System) : List Byte :=
  match s.point with
  | .select | .scan => []
  | .echo str_len | .copy str_len | .killed str_len => s.buf.cells.take str_len

def ParentPoint.phase : ParentPoint → Tee.Phase
  | .select | .scan => .read
  | .echo _ | .killed _ => .echo
  | .copy _ => .copy

/-- A client, with the block of it that the parent holds. -/
def System.source (s : System) (index : Nat) (client : Client) : Tee.Source Byte :=
  if s.connection s.i = some index then
    ⟨client.sent, client.input, s.held, client.echoed, s.point.phase⟩
  else ⟨client.sent, client.input, [], client.echoed, .read⟩

/-- The bytes that the logger has read and not yet handed to its stream. -/
def System.pending (s : System) : List Byte :=
  match s.logger with
  | .fwrite len => s.msgbuf.cells.take len
  | .read | .fflush => []

def System.tee (s : System) : Tee.State Byte where
  sources := s.clients.mapIdx s.source
  blocks := s.blocks
  pipe := s.pipe
  collected := s.appended ++ s.stream ++ s.pending

section shown

variable {s next : System} {index : Nat} {client : Client}

theorem source_idle (idle : s.point = .select ∨ s.point = .scan) (index : Nat)
    (client : Client) :
    s.source index client = ⟨client.sent, client.input, [], client.echoed, .read⟩ := by
  unfold System.source System.held
  rcases idle with point | point <;> simp [point, ParentPoint.phase]

theorem System.current_eq_some (current : s.current = some (index, client)) :
    s.connection s.i = some index ∧ s.clients[index]? = some client := by
  simp only [System.current, Option.bind_eq_bind, Option.bind_eq_some_iff,
    Option.pure_def, Option.some.injEq, Prod.mk.injEq] at current
  obtain ⟨_, connection, _, found, rfl, rfl⟩ := current
  exact ⟨connection, found⟩

def Client.source (client : Client) : Tee.Source Byte :=
  ⟨client.sent, client.input, [], client.echoed, .read⟩

theorem sources_idle (idle : s.point = .select ∨ s.point = .scan) :
    s.tee.sources = s.clients.map Client.source := by
  have same : s.source = fun _ client => client.source :=
    funext fun index => funext fun client => source_idle idle index client
  simp only [System.tee, same]
  apply List.ext_getElem?
  intro index
  rw [List.getElem?_mapIdx, List.getElem?_map]

theorem tee_source (found : s.clients[index]? = some client) :
    s.tee.sources[index]? = some (s.source index client) := by
  simp [System.tee, found]

/-- The sources when the current client, or what the parent holds of it, has moved. -/
theorem sources_moved (current : s.current = some (index, client)) {moved : Client}
    (clients : next.clients = s.clients.set index moved)
    (connection : next.connection next.i = s.connection s.i) :
    next.tee.sources = s.tee.sources.set index (next.source index moved) := by
  obtain ⟨isIndex, found⟩ := System.current_eq_some current
  have bound := (List.getElem?_eq_some_iff.mp found).1
  simp only [System.tee, clients]
  refine Pool.mapIdx_set bound ?_
  intro other item different
  have notCurrent : ¬ s.connection s.i = some other := by
    rw [isIndex]
    exact fun same => different (Option.some.inj same).symm
  unfold System.source
  rw [connection, if_neg notCurrent, if_neg notCurrent]

end shown

theorem tee_idle {s next : System} (idle : s.point = .select ∨ s.point = .scan)
    (nextIdle : next.point = .select ∨ next.point = .scan)
    (clients : next.clients = s.clients) (blocks : next.blocks = s.blocks)
    (pipe : next.pipe = s.pipe) (collected : next.tee.collected = s.tee.collected) :
    next.tee = s.tee := by
  have sources : next.tee.sources = s.tee.sources := by
    rw [sources_idle idle, sources_idle nextIdle, clients]
  simp only [System.tee] at sources collected ⊢
  rw [sources, collected, blocks, pipe]

/-- Every step of the server is a step of the tee, or does not show in it. -/
theorem tee_step {serv_sock capacity : Nat} {s next : System} {action : Action}
    (taken : step serv_sock capacity s action = some next) :
    next.tee = s.tee ∨ ∃ seen, Tee.step BUF_SIZE s.tee seen = some next.tee := by
  cases step_moves taken with
  | select ready point =>
      refine .inl (tee_idle (.inl point) ?_ rfl rfl rfl rfl)
      by_cases timeout : ready = ∅ <;> simp [timeout]
  | roundEnds point => exact .inl (tee_idle (.inr point) (.inl rfl) rfl rfl rfl rfl)
  | skip point => exact .inl (tee_idle (.inr point) (.inr point) rfl rfl rfl rfl)
  | readFails point => exact .inl (tee_idle (.inr point) (.inr point) rfl rfl rfl rfl)
  | endOfStream index client point current ended =>
      exact .inl (tee_idle (.inr point) (.inr point) rfl rfl rfl rfl)
  | accept clnt_sock sent point =>
      refine .inr ⟨.join sent, ?_⟩
      have before := sources_idle (.inr point)
      have after := @sources_idle { s with
        clients := s.clients ++ [⟨sent, sent, []⟩]
        connection := Function.update s.connection clnt_sock (some s.clients.length)
        reads := insert clnt_sock s.reads
        fd_max := max s.fd_max clnt_sock
        i := s.i + 1 } (.inr point)
      rw [List.map_append, ← before] at after
      simp only [Tee.step]
      simp only [System.tee] at after ⊢
      rw [after]
      rfl
  | read len index client point current size =>
      refine .inr ⟨.read index len, ?_⟩
      obtain ⟨isIndex, found⟩ := System.current_eq_some current
      have idle := source_idle (.inr point) index client
      have block : (s.buf.fill (client.input.take len)).cells.take len =
          client.input.take len := by
        rw [CArray.cells_fill _ (by simp; omega)]
        exact List.take_left' (by simp; omega)
      have moved := @sources_moved s { s with
        buf := s.buf.fill (client.input.take len)
        clients := s.clients.set index { client with input := client.input.drop len }
        point := .echo len } index client current _ rfl rfl
      simp only [Tee.step, tee_source found, idle, Option.bind_eq_bind, Option.bind_some]
      rw [if_pos ⟨trivial, size⟩]
      simp only [System.tee] at moved ⊢
      rw [moved]
      simp only [System.source, isIndex, if_true, System.held, ParentPoint.phase, block]
      rfl
  | echo str_len index client point current =>
      refine .inr ⟨.echo index, ?_⟩
      obtain ⟨isIndex, found⟩ := System.current_eq_some current
      have source : s.source index client = ⟨client.sent, client.input,
          s.buf.cells.take str_len, client.echoed, .echo⟩ := by
        simp only [System.source, isIndex, if_true, System.held, point, ParentPoint.phase]
      have moved := @sources_moved s { s with
        clients := s.clients.set index { client with
          echoed := client.echoed ++ s.buf.cells.take str_len }
        point := .copy str_len } index client current _ rfl rfl
      simp only [Tee.step, tee_source found, source, Option.bind_eq_bind, Option.bind_some,
        if_true]
      simp only [System.tee] at moved ⊢
      rw [moved]
      simp only [System.source, isIndex, if_true, System.held, ParentPoint.phase]
      rfl
  | kill str_len point =>
      left
      have same : System.source { s with point := .killed str_len } = s.source := by
        funext index client
        simp only [System.source, System.held, point, ParentPoint.phase]
      simp only [System.tee, same]
      rfl
  | copy str_len index client point current =>
      refine .inr ⟨.copy index, ?_⟩
      obtain ⟨isIndex, found⟩ := System.current_eq_some current
      have source : s.source index client = ⟨client.sent, client.input,
          s.buf.cells.take str_len, client.echoed, .copy⟩ := by
        simp only [System.source, isIndex, if_true, System.held, point, ParentPoint.phase]
      have moved := @sources_moved s { s with
        blocks := s.blocks ++ [(index, s.buf.cells.take str_len)]
        pipe := s.pipe ++ s.buf.cells.take str_len
        point := .scan } index client current client
        (by
          obtain ⟨bound, rfl⟩ := List.getElem?_eq_some_iff.mp found
          exact (List.set_getElem_self bound).symm) rfl
      have idle (i : Nat) := @sources_idle { s with
        blocks := s.blocks ++ [(index, s.buf.cells.take str_len)]
        pipe := s.pipe ++ s.buf.cells.take str_len
        i := i
        point := .scan } (.inr rfl)
      have sources := ((idle (s.i + 1)).trans (idle s.i).symm).trans moved
      rw [source_idle (.inr rfl)] at sources
      simp only [Tee.step, tee_source found, source, Option.bind_eq_bind, Option.bind_some,
        if_true]
      simp only [System.tee] at sources ⊢
      rw [sources]
      rfl
  | loggerRead len point size =>
      refine .inr ⟨.collect len, ?_⟩
      have block : (s.msgbuf.fill (s.pipe.take len)).cells.take len = s.pipe.take len := by
        rw [CArray.cells_fill _ (by simp; omega)]
        exact List.take_left' (by simp; omega)
      simp only [Tee.step, System.tee, size.2.2, if_true, System.pending, point, block]
      simp
      rfl
  | fwrite len point =>
      left
      simp only [System.tee, System.pending, point]
      simp
      rfl
  | spill count =>
      left
      simp only [System.tee, System.pending]
      rw [List.append_assoc s.appended, List.take_append_drop]
      rfl
  | fflush point =>
      left
      simp only [System.tee, System.pending, point]
      simp
      rfl

theorem conserved {serv_sock capacity : Nat} {old : List Byte} {actions : List Action}
    {s : System}
    (reached : run (step serv_sock capacity) (System.initial serv_sock old) actions = some s) :
    Tee.Conserved BUF_SIZE s.tee := by
  obtain ⟨_, shown⟩ := run_shows tee_step reached
  exact Tee.conserved_run shown

/-! ## What the server does in all -/

/-- The logger reads only behind a flush, and nobody changes what was in the file. -/
structure Kept (old : List Byte) (s : System) : Prop where
  flushed : s.logger = .read → s.stream = []
  old : s.old = old

theorem kept_step {serv_sock capacity : Nat} {old : List Byte} {s next : System}
    {action : Action} (held : Kept old s)
    (taken : step serv_sock capacity s action = some next) : Kept old next := by
  cases step_moves taken with
  | loggerRead len point size => exact ⟨by simp, held.old⟩
  | fwrite len point => exact ⟨by simp, held.old⟩
  | fflush point => exact ⟨fun _ => rfl, held.old⟩
  | spill count => exact ⟨fun point => by simp [held.flushed point], held.old⟩
  | _ => exact ⟨held.flushed, held.old⟩

/-- With one buffer for all clients, each is sent back the front of its own stream.
`log.txt` keeps what it had and goes on with the front of all blocks; between two
blocks these hold all that a client was sent back, in order, and when the logger waits in
front of an empty pipe they are all in the file. -/
theorem select_echo_and_log {serv_sock capacity : Nat} {old : List Byte} {actions : List Action}
    {s : System}
    (reached : run (step serv_sock capacity) (System.initial serv_sock old) actions = some s) :
    (∀ index client, s.clients[index]? = some client →
      client.echoed <+: client.sent ∧ Tee.contribution index s.blocks <+: client.echoed ∧
        (s.point = .select ∨ s.point = .scan →
          Tee.contribution index s.blocks = client.echoed)) ∧
      (∃ part, s.log = old ++ part ∧ part <+: Tee.merged s.blocks) ∧
      (s.logger = .read → s.pipe = [] → s.log = old ++ Tee.merged s.blocks) := by
  have held := conserved reached
  have kept : Kept old s := run_invariant_of_step (Kept old)
    (fun held taken => kept_step held taken) ⟨fun _ => rfl, rfl⟩ reached
  refine ⟨?_, ⟨s.appended, by rw [System.log, kept.old], ?_⟩, ?_⟩
  · intro index client found
    have source := tee_source found
    have shown : (s.source index client).echoed = client.echoed ∧
        (s.source index client).sent = client.sent := by
      unfold System.source
      split <;> exact ⟨rfl, rfl⟩
    refine ⟨?_, ?_, ?_⟩
    · rw [← shown.1, ← shown.2]
      exact held.echoed_prefix (List.mem_of_getElem? source)
    · rw [← shown.1]
      exact held.contribution_prefix source
    · intro idle
      have copied := held.copied index _ source
      rw [source_idle idle] at copied
      simpa [Tee.Source.copying, System.tee] using copied
  · have front : s.appended <+: s.tee.collected := by
      simp only [System.tee, List.append_assoc]
      exact List.prefix_append _ _
    exact front.trans held.collected_prefix
  · intro waits drained
    have pipe := held.pipe
    simp only [System.tee, System.pending, waits, kept.flushed waits, drained,
      List.append_nil] at pipe
    rw [System.log, kept.old, pipe]

/-- Two clients on the descriptors 8 and 9; the first block of the second client replaces
that of the first in the buffer before the logger has read either. -/
def twoClients : List Action :=
  .select {3} :: List.replicate 3 .skip ++ .accept 8 [1#8, 2#8] :: List.replicate 6 .skip ++
    .select {3} :: List.replicate 3 .skip ++ .accept 9 [3#8] :: List.replicate 7 .skip ++
    .select {8, 9} :: List.replicate 8 .skip ++
    [.read 2, .echo, .copy, .read 1, .echo, .copy, .skip, .loggerRead 2, .fwrite, .fflush,
      .loggerRead 1, .fwrite, .fflush]

theorem select_echo_and_log_twoClients :
    ∃ s, run (step 3 4096) (System.initial 3 [9#8]) twoClients = some s ∧
      s.clients.map Client.echoed = [[1#8, 2#8], [3#8]] ∧
      s.log = [9#8] ++ Tee.merged s.blocks := by
  have shape : (run (step 3 4096) (System.initial 3 [9#8]) twoClients).any
      (fun s => s.clients.map Client.echoed = [[1#8, 2#8], [3#8]] ∧ s.logger = .read ∧
        s.pipe = []) = true := by
    decide +kernel
  obtain ⟨s, reached, shaped⟩ := (Option.any_eq_true _ _).mp shape
  obtain ⟨echoed, waits, drained⟩ := of_decide_eq_true shaped
  exact ⟨s, reached, echoed, (select_echo_and_log reached).2.2 waits drained⟩

end NetworkProgramming.Hw6.Practice.EchoSelect
