import Mathlib.Data.Finset.Basic
import NetworkProgramming.Foundation.Channel
import NetworkProgramming.Foundation.Transition
import NetworkProgramming.Hw6.Server

/-!
# The processes of `hw6_server`

The parent runs the select loop of `main` and `mode_check`; the child runs
`store_loop`.  They share no memory: requests for the store go through the
pipe `fdsA`, replies to loads come back through `fdsB`.  A step of the system
is one action of one process, cut at the system calls, so that the child may
lag behind the parent by any number of steps.  Signals are left out: `SIGPIPE` of
a client that is gone, and `SIGCHLD` behind the return of the child.
-/

namespace NetworkProgramming.Hw6

open MachineInt

/-- Where the parent is.  The `save`, `load` and `quit` points name the next
system call of `mode_check`. -/
inductive ParentPoint where
  | select
  | scan
  | saveMode
  | saveReply
  | saveRecord
  | loadMode
  | loadId
  | loadWait
  | loadSend (reply : List Byte)
  | quitMode
  | closeClient
  | closeServer
  | exited
deriving DecidableEq

/-- The next system call of `store_loop`. -/
inductive ChildPoint where
  | readMode
  | readRecord
  | readId
  | sendReply (reply : List Byte)
  | returned
deriving DecidableEq

/-- The child's own copies of the globals and its local `cnt`, which is the
number of used slots. -/
structure Child where
  point : ChildPoint
  mode : CArray Byte MOD_SIZE
  id : CArray Byte ID_SIZE
  dataArray : List Data

/-- What passed between the parent and its clients. -/
inductive Event where
  | received (socket : Nat) (result : ReadResult)
  | sent (socket : Nat) (bytes : List Byte)
deriving DecidableEq

/-- Both processes with their own memory, and the pipes between them. -/
structure System where
  globals : Globals
  point : ParentPoint
  i : Nat
  reads : Finset Nat
  cpy_reads : Finset Nat
  fd_max : Nat
  /-- The sockets that are open in the parent. -/
  sockets : Finset Nat
  child : Child
  fdsA : List Byte
  fdsB : List Byte
  trace : List Event

/-- One action of one process, with what the system call returns. -/
inductive Action where
  | select (ready : Finset Nat)
  /-- The scan passes a descriptor that is not ready, or leaves the loop. -/
  | skip
  | accept (socket : Nat)
  /-- `readv` returns on the descriptor `i`. -/
  | readv (result : ReadResult)
  | parent
  | child

def FD_SETSIZE : Nat := 1024

def Child.initial : Child where
  point := .readMode
  mode := CArray.replicate MOD_SIZE 0#8
  id := CArray.replicate ID_SIZE 0#8
  dataArray := []

/-- The state behind `fork`, with the listening socket `serv_sock`. -/
def System.initial (serv_sock : Nat) : System where
  globals := Globals.initial
  point := .select
  i := 0
  reads := {serv_sock}
  cpy_reads := ∅
  fd_max := serv_sock
  sockets := {serv_sock}
  child := Child.initial
  fdsA := []
  fdsB := []
  trace := []

/-- Where `mode_check` starts for a mode; an unknown one goes on scanning. -/
def entry : Mode → ParentPoint
  | .save => .saveMode
  | .load => .loadMode
  | .quit => .quitMode
  | .unknown => .scan

def System.Ready (s : System) : Prop :=
  s.i < s.fd_max + 1 ∧ s.i ∈ s.cpy_reads

instance (s : System) : Decidable s.Ready :=
  inferInstanceAs (Decidable (_ ∧ _))

def Globals.receive (globals : Globals) : ReadResult → Globals
  | .data bytes => globals.scatter bytes
  | .closed => globals
  | .failed => globals

/-- The results `readv` can have on a descriptor: a closed descriptor gives an
error, an open one up to 1034 bytes, the end of the stream or an error. -/
def System.CanRead (s : System) : ReadResult → Prop
  | .data bytes => s.i ∈ s.sockets ∧ 0 < bytes.length ∧
      bytes.length ≤ MOD_SIZE + ID_SIZE + BUF_SIZE
  | .closed => s.i ∈ s.sockets
  | .failed => True

instance (s : System) : (result : ReadResult) → Decidable (s.CanRead result)
  | .data _ => inferInstanceAs (Decidable (_ ∧ _))
  | .closed => inferInstanceAs (Decidable (_ ∈ _))
  | .failed => inferInstanceAs (Decidable True)

/-- `close(i); FD_CLR(i, &reads);`. -/
def System.closeClient (s : System) : System :=
  { s with
    reads := s.reads.erase s.i
    sockets := s.sockets.erase s.i }

/-- One system call of `mode_check` with the computation in front of it. -/
def parentStep (serv_sock : Nat) (s : System) : Option System :=
  match s.point with
  | .saveMode => some { s with
      fdsA := s.fdsA ++ s.globals.mode.cells
      point := .saveReply }
  | .saveReply => do
      let computed ← calculator s.globals
      return { s with
        globals := computed
        trace := s.trace ++ [.sent s.i (Word.toBytes computed.opResult)]
        point := .saveRecord }
  | .saveRecord => do
      let stored ← storeRecord s.globals
      return { s with
        globals := stored.1
        fdsA := s.fdsA ++ stored.2.bytes
        point := .closeClient }
  | .loadMode => do
      let _ ← s.globals.id.cString?
      return { s with
        fdsA := s.fdsA ++ s.globals.mode.cells
        point := .loadId }
  | .loadId => some { s with
      fdsA := s.fdsA ++ s.globals.id.cells
      point := .loadWait }
  | .loadWait => do
      let received ← Channel.read BUF_SIZE s.fdsB
      return { s with
        fdsB := received.2
        point := .loadSend received.1 }
  | .loadSend reply => some { s with
      trace := s.trace ++ [.sent s.i reply]
      point := .closeClient }
  | .quitMode => some { s with
      fdsA := s.fdsA ++ s.globals.mode.cells
      point := .closeServer }
  | .closeClient => some { s.closeClient with
      i := s.i + 1
      point := .scan }
  | .closeServer => some { s.closeClient with
      sockets := (s.sockets.erase s.i).erase serv_sock
      i := s.i + 1
      point := .scan }
  | .select => none
  | .scan => none
  | .exited => none

def childEntry : Mode → ChildPoint
  | .save => .readRecord
  | .load => .readId
  | .quit => .returned
  | .unknown => .readMode

/-- One system call of `store_loop` with the computation behind it. -/
def childStep (s : System) : Option System :=
  match s.child.point with
  | .readMode => do
      let received ← Channel.read MOD_SIZE s.fdsA
      let mode := s.child.mode.fill received.1
      let taken ← modeOf mode
      return { s with
        fdsA := received.2
        child := { s.child with mode := mode, point := childEntry taken } }
  | .readRecord => do
      let received ← Channel.read Data.SIZE s.fdsA
      if s.child.dataArray.length < DATA_MAX then
        return { s with
          fdsA := received.2
          child := { s.child with
            dataArray := s.child.dataArray ++ [Data.zero.receive received.1]
            point := .readMode } }
      else none
  | .readId => do
      let received ← Channel.read ID_SIZE s.fdsA
      let id := s.child.id.fill received.1
      let reply ← loadReply id s.child.dataArray
      return { s with
        fdsA := received.2
        child := { s.child with id := id, point := .sendReply reply } }
  | .sendReply reply => some { s with
      fdsB := s.fdsB ++ reply
      child := { s.child with point := .readMode } }
  | .returned => none

def step (serv_sock : Nat) (s : System) : Action → Option System
  | .select ready =>
      match s.point with
      | .select =>
          -- A closed member makes `select` fail, and the loop ends.
          if s.reads ⊆ s.sockets then
            if ready ⊆ s.reads then
              some { s with cpy_reads := ready, i := 0, point := .scan }
            else none
          else some { s with point := .exited }
      | _ => none
  | .skip =>
      match s.point with
      | .scan =>
          if s.i < s.fd_max + 1 then
            if s.i ∈ s.cpy_reads then none else some { s with i := s.i + 1 }
          else some { s with point := .select }
      | _ => none
  | .accept socket =>
      match s.point with
      | .scan =>
          if s.Ready ∧ s.i = serv_sock ∧ serv_sock ∈ s.sockets ∧
              socket ∉ s.sockets ∧ socket < FD_SETSIZE then
            some { s with
              reads := insert socket s.reads
              fd_max := max s.fd_max socket
              sockets := insert socket s.sockets
              i := s.i + 1 }
          else none
      | _ => none
  | .readv result =>
      match s.point with
      | .scan =>
          if s.Ready ∧ s.i ≠ serv_sock ∧ s.CanRead result then
            match result with
            | .closed => some { s.closeClient with
                trace := s.trace ++ [.received s.i .closed]
                i := s.i + 1 }
            | result => do
                let globals := s.globals.receive result
                let taken ← modeOf globals.mode
                return { s with
                  globals := globals
                  trace := s.trace ++ [.received s.i result]
                  point := entry taken
                  i := if taken = .unknown then s.i + 1 else s.i }
          else none
      | _ => none
  | .parent => parentStep serv_sock s
  | .child => childStep s

def System.Idle (s : System) : Prop :=
  s.point = .select ∨ s.point = .scan ∨ s.point = .exited

/-- The steps that the server takes on its own while it serves a request. -/
def Internal (action : Action) : Prop :=
  action = .parent ∨ action = .child

/-- A client connects to the listening socket 3 and gets the highest descriptor. -/
def connect (socket : Nat) : List Action :=
  .select {3} :: List.replicate 3 .skip ++ .accept socket :: List.replicate (socket - 2) .skip

/-- The first free descriptors are 8 and 9: the pipes have 4 to 7. -/
def connectTwice : List Action := connect 8 ++ connect 9

/-- The scan of a round gets to the first client. -/
def scanTo (ready : Finset Nat) : List Action := .select ready :: List.replicate 8 .skip

def System.servedMode (s : System) : ReadResult → Mode
  | .closed => .unknown
  | result => branch (s.globals.receive result).mode.cells

/-! ## What a step does -/

/-- A call of the parent, by where it is. -/
inductive ParentMoves (serv_sock : Nat) (s : System) : System → Prop where
  | saveMode (point : s.point = .saveMode) :
      ParentMoves serv_sock s { s with
        fdsA := s.fdsA ++ s.globals.mode.cells
        point := .saveReply }
  | saveReply (computed : Globals) (point : s.point = .saveReply)
      (ran : calculator s.globals = some computed) :
      ParentMoves serv_sock s { s with
        globals := computed
        trace := s.trace ++ [.sent s.i (Word.toBytes computed.opResult)]
        point := .saveRecord }
  | saveRecord (stored : Globals) (record : Data) (point : s.point = .saveRecord)
      (ran : storeRecord s.globals = some (stored, record)) :
      ParentMoves serv_sock s { s with
        globals := stored
        fdsA := s.fdsA ++ record.bytes
        point := .closeClient }
  | loadMode (name : List Byte) (point : s.point = .loadMode)
      (isName : s.globals.id.cString? = some name) :
      ParentMoves serv_sock s { s with
        fdsA := s.fdsA ++ s.globals.mode.cells
        point := .loadId }
  | loadId (point : s.point = .loadId) :
      ParentMoves serv_sock s { s with
        fdsA := s.fdsA ++ s.globals.id.cells
        point := .loadWait }
  | loadWait (reply rest : List Byte) (point : s.point = .loadWait)
      (read : Channel.read BUF_SIZE s.fdsB = some (reply, rest)) :
      ParentMoves serv_sock s { s with
        fdsB := rest
        point := .loadSend reply }
  | loadSend (reply : List Byte) (point : s.point = .loadSend reply) :
      ParentMoves serv_sock s { s with
        trace := s.trace ++ [.sent s.i reply]
        point := .closeClient }
  | quitMode (point : s.point = .quitMode) :
      ParentMoves serv_sock s { s with
        fdsA := s.fdsA ++ s.globals.mode.cells
        point := .closeServer }
  | closeClient (point : s.point = .closeClient) :
      ParentMoves serv_sock s { s.closeClient with
        i := s.i + 1
        point := .scan }
  | closeServer (point : s.point = .closeServer) :
      ParentMoves serv_sock s { s.closeClient with
        sockets := (s.sockets.erase s.i).erase serv_sock
        i := s.i + 1
        point := .scan }

/-- A step, by its action and what it finds. -/
inductive Moves (serv_sock : Nat) (s : System) : Action → System → Prop where
  | select (ready : Finset Nat) (point : s.point = .select)
      (alive : s.reads ⊆ s.sockets) (registered : ready ⊆ s.reads) :
      Moves serv_sock s (.select ready)
        { s with cpy_reads := ready, i := 0, point := .scan }
  | selectFails (ready : Finset Nat) (point : s.point = .select)
      (stale : ¬ s.reads ⊆ s.sockets) :
      Moves serv_sock s (.select ready) { s with point := .exited }
  | skip (point : s.point = .scan) (notReady : s.i ∉ s.cpy_reads) :
      Moves serv_sock s .skip { s with i := s.i + 1 }
  | nextRound (point : s.point = .scan) :
      Moves serv_sock s .skip { s with point := .select }
  | accept (socket : Nat) (point : s.point = .scan) (isListening : s.i = serv_sock)
      (isOpen : serv_sock ∈ s.sockets) (fresh : socket ∉ s.sockets) :
      Moves serv_sock s (.accept socket) { s with
        reads := insert socket s.reads
        fd_max := max s.fd_max socket
        sockets := insert socket s.sockets
        i := s.i + 1 }
  | closed (point : s.point = .scan) (ready : s.Ready) (isClient : s.i ≠ serv_sock) :
      Moves serv_sock s (.readv .closed) { s.closeClient with
        trace := s.trace ++ [.received s.i .closed]
        i := s.i + 1 }
  | readv (result : ReadResult) (point : s.point = .scan) (ready : s.Ready)
      (isClient : s.i ≠ serv_sock) (canRead : s.CanRead result)
      (notClosed : result ≠ .closed) :
      Moves serv_sock s (.readv result) { s with
        globals := s.globals.receive result
        trace := s.trace ++ [.received s.i result]
        point := entry (s.servedMode result)
        i := if s.servedMode result = .unknown then s.i + 1 else s.i }
  | parent {next : System} (moved : ParentMoves serv_sock s next) :
      Moves serv_sock s .parent next
  | child {next : System} (moved : childStep s = some next) :
      Moves serv_sock s .child next

section moves

variable {serv_sock : Nat} {s next : System}

theorem parentStep_moves (taken : parentStep serv_sock s = some next) :
    ParentMoves serv_sock s next := by
  cases point : s.point with
  | select | scan | exited => simp [parentStep, point] at taken
  | saveMode =>
      simp only [parentStep, point] at taken
      cases taken
      exact .saveMode point
  | saveReply =>
      simp only [parentStep, point, Option.bind_eq_bind,
        Option.bind_eq_some_iff] at taken
      obtain ⟨computed, ran, final⟩ := taken
      cases final
      exact .saveReply computed point ran
  | saveRecord =>
      simp only [parentStep, point, Option.bind_eq_bind,
        Option.bind_eq_some_iff] at taken
      obtain ⟨⟨stored, record⟩, ran, final⟩ := taken
      cases final
      exact .saveRecord stored record point ran
  | loadMode =>
      simp only [parentStep, point, Option.bind_eq_bind,
        Option.bind_eq_some_iff] at taken
      obtain ⟨name, isName, final⟩ := taken
      cases final
      exact .loadMode name point isName
  | loadId =>
      simp only [parentStep, point] at taken
      cases taken
      exact .loadId point
  | loadWait =>
      simp only [parentStep, point, Option.bind_eq_bind,
        Option.bind_eq_some_iff] at taken
      obtain ⟨⟨reply, rest⟩, read, final⟩ := taken
      cases final
      exact .loadWait reply rest point read
  | loadSend reply =>
      simp only [parentStep, point] at taken
      cases taken
      exact .loadSend reply point
  | quitMode =>
      simp only [parentStep, point] at taken
      cases taken
      exact .quitMode point
  | closeClient =>
      simp only [parentStep, point] at taken
      cases taken
      exact .closeClient point
  | closeServer =>
      simp only [parentStep, point] at taken
      cases taken
      exact .closeServer point

theorem step_moves {action : Action} (taken : step serv_sock s action = some next) :
    Moves serv_sock s action next := by
  cases action with
  | select ready =>
      simp only [step] at taken
      split at taken <;> rename_i point
      · split_ifs at taken with alive registered <;> cases taken
        · exact .select ready point alive registered
        · exact .selectFails ready point alive
      · cases taken
  | skip =>
      simp only [step] at taken
      split at taken <;> rename_i point
      · split_ifs at taken with more ready <;> cases taken
        · exact .skip point ready
        · exact .nextRound point
      · cases taken
  | accept socket =>
      simp only [step] at taken
      split at taken <;> rename_i point
      · split_ifs at taken with accepts
        cases taken
        obtain ⟨_, isListening, isOpen, fresh, _⟩ := accepts
        exact .accept socket point isListening isOpen fresh
      · cases taken
  | readv result =>
      simp only [step] at taken
      split at taken <;> rename_i point
      · split_ifs at taken with reads
        obtain ⟨ready, isClient, canRead⟩ := reads
        cases result with
        | closed =>
            cases taken
            exact .closed point ready isClient
        | data bytes =>
            simp only [modeOf_eq, Option.bind_eq_bind, Option.bind_some] at taken
            cases taken
            exact .readv (.data bytes) point ready isClient canRead (by simp)
        | failed =>
            simp only [modeOf_eq, Option.bind_eq_bind, Option.bind_some] at taken
            cases taken
            exact .readv .failed point ready isClient canRead (by simp)
      · cases taken
  | parent => exact .parent (parentStep_moves taken)
  | child => exact .child taken

end moves

/-! ## Termination of the internal steps -/

/-- Bytes the parent still has to write for its request count twice, and its
remaining calls once. -/
def ParentPoint.work : ParentPoint → Nat
  | .select | .scan | .exited => 0
  | .closeClient | .closeServer => 1
  | .loadSend _ => 2
  | .loadWait => 3
  | .loadId => 14
  | .loadMode => 25
  | .quitMode => 12
  | .saveRecord => 212
  | .saveReply => 213
  | .saveMode => 224

def ChildPoint.work : ChildPoint → Nat
  | .sendReply _ => 1
  | _ => 0

def System.work (s : System) : Nat :=
  s.point.work + 2 * s.fdsA.length + s.child.point.work

theorem parentStep_work {serv_sock : Nat} {s next : System}
    (taken : parentStep serv_sock s = some next) : next.work < s.work := by
  have modeLength := s.globals.mode.length_cells
  have idLength := s.globals.id.length_cells
  have mod : MOD_SIZE = 5 := rfl
  have id : ID_SIZE = 5 := rfl
  have size : Data.SIZE = 105 := rfl
  cases parentStep_moves taken with
  | saveMode point | saveRecord _ _ point | loadMode _ point | loadId point
  | quitMode point =>
      simp only [System.work, point, ParentPoint.work, List.length_append,
        Data.length_bytes]
      omega
  | saveReply _ point | loadWait _ _ point | loadSend _ point | closeClient point
  | closeServer point =>
      simp only [System.work, System.closeClient, point, ParentPoint.work]
      omega

theorem childStep_work {s next : System} (taken : childStep s = some next) :
    next.work < s.work := by
  have shorter {count : Nat} {received : List Byte × List Byte}
      (positive : 0 < count)
      (read : Channel.read count s.fdsA = some received) :
      received.2.length < s.fdsA.length := Channel.length_rest_lt positive read
  unfold childStep at taken
  split at taken <;> rename_i point <;>
    simp only [Option.bind_eq_bind, Option.bind_eq_some_iff, Option.some.injEq,
      Option.pure_def, reduceCtorEq] at taken
  case h_1 =>
    obtain ⟨received, read, mode, _, rfl⟩ := taken
    have := shorter (by decide) read
    cases mode <;>
      simp only [System.work, point, childEntry, ChildPoint.work] <;> omega
  case h_2 =>
    obtain ⟨received, read, taken⟩ := taken
    have := shorter (by decide) read
    split at taken
    · cases taken
      simp only [System.work, point, ChildPoint.work]
      omega
    · cases taken
  case h_3 =>
    obtain ⟨received, read, reply, _, rfl⟩ := taken
    have := shorter (by decide) read
    simp only [System.work, point, ChildPoint.work]
    omega
  case h_4 =>
    subst taken
    simp only [System.work, point, ChildPoint.work]
    omega

theorem childStep_frame {s next : System} (taken : childStep s = some next) :
    next = { s with fdsA := next.fdsA, fdsB := next.fdsB, child := next.child } := by
  unfold childStep at taken
  split at taken <;>
    simp only [Option.bind_eq_bind, Option.bind_eq_some_iff, Option.some.injEq,
      Option.pure_def, reduceCtorEq] at taken
  · obtain ⟨_, _, _, _, rfl⟩ := taken
    rfl
  · obtain ⟨_, _, taken⟩ := taken
    split at taken <;> cases taken
    rfl
  · obtain ⟨_, _, _, _, rfl⟩ := taken
    rfl
  · subst taken
    rfl

theorem internal_work {serv_sock : Nat} {s next : System} {action : Action}
    (isInternal : Internal action) (taken : step serv_sock s action = some next) :
    next.work < s.work := by
  rcases isInternal with rfl | rfl
  · exact parentStep_work taken
  · exact childStep_work taken

end NetworkProgramming.Hw6
