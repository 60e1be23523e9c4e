import Mathlib.Data.Finset.Basic
import NetworkProgramming.Foundation.Transition
import NetworkProgramming.Hw8.Server

/-!
# The threads of `hw8_server`

The main loop accepts a connection, registers it and creates a handler thread
that gets the address of main's variable `clnt_sock`.  The sections under the
mutex are single steps; between its `readv` and its section of `send_all` a thread
holds the message that it has computed.  A handler is what a thread has still to do;
until it has copied its argument it has no socket of its own.
-/

namespace NetworkProgramming.Hw8

open MachineInt

/-- Where the main loop is. -/
inductive MainPoint where
  | accept
  | append
  | create
deriving DecidableEq

/-- Where a thread is in `handle_clnt`. -/
inductive Handler where
  /-- It has not yet copied `*arg`. -/
  | created
  /-- It is in front of `readv`. -/
  | serving (clnt_sock : Nat) (locals : Locals)
  /-- It is in `send_all`, in front of the mutex. -/
  | sending (clnt_sock : Nat) (locals : Locals) (msg : List Byte)
  | leaving (clnt_sock : Nat)
  /-- It has run the disconnect block. -/
  | closing (clnt_sock : Nat)
  | returned

/-- The socket that a handler has taken and not yet closed. -/
def Handler.socket : Handler → Option Nat
  | .serving clnt_sock _ | .sending clnt_sock _ _ | .leaving clnt_sock
  | .closing clnt_sock => some clnt_sock
  | .created | .returned => none

def Handler.isCreated : Handler → Bool
  | .created => true
  | _ => false

/-- The globals of the process, main's variable and the threads. -/
structure System where
  point : MainPoint
  /-- The variable of `main` whose address every thread gets. -/
  clnt_sock : Nat
  clnt_socks : CArray Nat MAX_CLNT
  clnt_cnt : Int
  handlers : List Handler
  /-- The client sockets that are open in the process. -/
  sockets : Finset Nat
  /-- What has been written, to which socket. -/
  sent : List (Nat × List Byte)

/-- A step of `main` or of one thread, cut where the threads can meet. -/
inductive Action where
  | accept (socket : Nat)
  | append
  | create
  /-- A thread copies its argument; its locals hold what its stack held. -/
  | start (thread : Nat) (locals : Locals)
  /-- `readv` returns these bytes, and the thread computes its message. -/
  | readv (thread : Nat) (received : List Byte)
  /-- The section of `send_all` under the mutex. -/
  | send_all (thread : Nat)
  | leave (thread : Nat)
  | disconnect (thread : Nat)
  | close (thread : Nat)

def System.initial : System where
  point := .accept
  clnt_sock := 0
  clnt_socks := CArray.replicate MAX_CLNT 0
  clnt_cnt := 0
  handlers := []
  sockets := ∅
  sent := []

/-- `while (i++ < clnt_cnt-1) clnt_socks[i] = clnt_socks[i+1];`, entered with
`i` at the socket that was found. -/
def shift (found clnt_cnt : Nat) (clnt_socks : CArray Nat MAX_CLNT) :
    Option (CArray Nat MAX_CLNT) :=
  forLoop (fun turn clnt_socks => do
    let i := found + turn + 1
    let next ← clnt_socks.get? (i + 1)
    clnt_socks.set? i next) (clnt_cnt - 1 - found) clnt_socks

/-- The block under the mutex behind the loop of `handle_clnt`. -/
def disconnect (clnt_socks : CArray Nat MAX_CLNT) (clnt_cnt : Int)
    (clnt_sock : Nat) : Option (CArray Nat MAX_CLNT × Int) := do
  let registered := clnt_socks.cells.take clnt_cnt.toNat
  let clnt_socks ← match registered.findIdx? (· = clnt_sock) with
    | some found => shift found clnt_cnt.toNat clnt_socks
    | none => some clnt_socks
  return (clnt_socks, clnt_cnt - 1)

def System.send_all (s : System) (msg : List Byte) : List (Nat × List Byte) :=
  s.sent ++ (s.clnt_socks.cells.take s.clnt_cnt.toNat).map fun socket =>
    (socket, msg)

def step (s : System) : Action → Option System
  | .accept socket =>
      if s.point = .accept ∧ socket ∉ s.sockets then
        some { s with
          clnt_sock := socket
          sockets := insert socket s.sockets
          point := .append }
      else none
  | .append =>
      if s.point = .append ∧ 0 ≤ s.clnt_cnt then do
        let clnt_socks ← s.clnt_socks.set? s.clnt_cnt.toNat s.clnt_sock
        return { s with
          clnt_socks := clnt_socks
          clnt_cnt := s.clnt_cnt + 1
          point := .create }
      else none
  | .create =>
      if s.point = .create then
        some { s with handlers := s.handlers ++ [.created], point := .accept }
      else none
  | .start thread locals =>
      match s.handlers[thread]? with
      | some .created => some { s with
          handlers := s.handlers.set thread (.serving s.clnt_sock locals) }
      | _ => none
  | .readv thread received =>
      match s.handlers[thread]? with
      | some (.serving clnt_sock locals) =>
          if clnt_sock ∈ s.sockets ∧ 0 < received.length ∧
              received.length ≤ NAME_SIZE + BUF_SIZE then do
            let responded ← respond locals received
            return { s with
              handlers := s.handlers.set thread
                (.sending clnt_sock responded.1 responded.2) }
          else none
      | _ => none
  | .send_all thread =>
      match s.handlers[thread]? with
      | some (.sending clnt_sock locals msg) => some { s with
          handlers := s.handlers.set thread (.serving clnt_sock locals)
          sent := s.send_all msg }
      | _ => none
  | .leave thread =>
      match s.handlers[thread]? with
      | some (.serving clnt_sock _) => some { s with
          handlers := s.handlers.set thread (.leaving clnt_sock) }
      | _ => none
  | .disconnect thread =>
      match s.handlers[thread]? with
      | some (.leaving clnt_sock) => do
          let removed ← disconnect s.clnt_socks s.clnt_cnt clnt_sock
          return { s with
            clnt_socks := removed.1
            clnt_cnt := removed.2
            handlers := s.handlers.set thread (.closing clnt_sock) }
      | _ => none
  | .close thread =>
      match s.handlers[thread]? with
      | some (.closing clnt_sock) => some { s with
          sockets := s.sockets.erase clnt_sock
          handlers := s.handlers.set thread .returned }
      | _ => none

/-- A step, by its action and what it finds. -/
inductive System.Moves (s : System) : Action → System → Prop where
  | accept (socket : Nat) (point : s.point = .accept) (fresh : socket ∉ s.sockets) :
      Moves s (.accept socket) { s with
        clnt_sock := socket
        sockets := insert socket s.sockets
        point := .append }
  | append {clnt_socks : CArray Nat MAX_CLNT} (point : s.point = .append)
      (positive : 0 ≤ s.clnt_cnt)
      (stored : s.clnt_socks.set? s.clnt_cnt.toNat s.clnt_sock = some clnt_socks) :
      Moves s .append { s with
        clnt_socks := clnt_socks
        clnt_cnt := s.clnt_cnt + 1
        point := .create }
  | create (point : s.point = .create) :
      Moves s .create { s with handlers := s.handlers ++ [.created], point := .accept }
  | start (thread : Nat) (locals : Locals) (found : s.handlers[thread]? = some .created) :
      Moves s (.start thread locals) { s with
        handlers := s.handlers.set thread (.serving s.clnt_sock locals) }
  | readv (thread : Nat) (received : List Byte) {clnt_sock : Nat} {locals after : Locals}
      {msg : List Byte} (found : s.handlers[thread]? = some (.serving clnt_sock locals))
      (isOpen : clnt_sock ∈ s.sockets) (positive : 0 < received.length)
      (small : received.length ≤ NAME_SIZE + BUF_SIZE)
      (responded : respond locals received = some (after, msg)) :
      Moves s (.readv thread received) { s with
        handlers := s.handlers.set thread (.sending clnt_sock after msg) }
  | send_all (thread : Nat) {clnt_sock : Nat} {locals : Locals} {msg : List Byte}
      (found : s.handlers[thread]? = some (.sending clnt_sock locals msg)) :
      Moves s (.send_all thread) { s with
        handlers := s.handlers.set thread (.serving clnt_sock locals)
        sent := s.send_all msg }
  | leave (thread : Nat) {clnt_sock : Nat} {locals : Locals}
      (found : s.handlers[thread]? = some (.serving clnt_sock locals)) :
      Moves s (.leave thread) { s with
        handlers := s.handlers.set thread (.leaving clnt_sock) }
  | disconnect (thread : Nat) {clnt_sock : Nat} {clnt_socks : CArray Nat MAX_CLNT}
      {clnt_cnt : Int} (found : s.handlers[thread]? = some (.leaving clnt_sock))
      (removed : disconnect s.clnt_socks s.clnt_cnt clnt_sock =
        some (clnt_socks, clnt_cnt)) :
      Moves s (.disconnect thread) { s with
        clnt_socks := clnt_socks
        clnt_cnt := clnt_cnt
        handlers := s.handlers.set thread (.closing clnt_sock) }
  | close (thread : Nat) {clnt_sock : Nat}
      (found : s.handlers[thread]? = some (.closing clnt_sock)) :
      Moves s (.close thread) { s with
        sockets := s.sockets.erase clnt_sock
        handlers := s.handlers.set thread .returned }

theorem System.moves_of_step {s next : System} {action : Action}
    (taken : step s action = some next) : s.Moves action next := by
  cases action with
  | accept socket =>
      simp only [step] at taken
      split at taken <;> rename_i guard
      · cases taken
        exact .accept socket guard.1 guard.2
      · cases taken
  | append =>
      simp only [step] at taken
      split at taken <;> rename_i guard
      · obtain ⟨clnt_socks, stored, final⟩ := Option.bind_eq_some_iff.mp taken
        cases final
        exact .append guard.1 guard.2 stored
      · cases taken
  | create =>
      simp only [step] at taken
      split at taken <;> rename_i point
      · cases taken
        exact .create point
      · cases taken
  | start thread locals =>
      simp only [step] at taken
      split at taken <;> rename_i found
      · cases taken
        exact .start thread locals found
      · cases taken
  | readv thread received =>
      simp only [step] at taken
      split at taken <;> rename_i found
      · split at taken <;> rename_i guard
        · obtain ⟨responded, isMsg, final⟩ := Option.bind_eq_some_iff.mp taken
          cases final
          exact .readv thread received found guard.1 guard.2.1 guard.2.2 isMsg
        · cases taken
      · cases taken
  | send_all thread =>
      simp only [step] at taken
      split at taken <;> rename_i found
      · cases taken
        exact .send_all thread found
      · cases taken
  | leave thread =>
      simp only [step] at taken
      split at taken <;> rename_i found
      · cases taken
        exact .leave thread found
      · cases taken
  | disconnect thread =>
      simp only [step] at taken
      split at taken <;> rename_i found
      · obtain ⟨removed, isRemoved, final⟩ := Option.bind_eq_some_iff.mp taken
        cases final
        exact .disconnect thread found isRemoved
      · cases taken
  | close thread =>
      simp only [step] at taken
      split at taken <;> rename_i found
      · cases taken
        exact .close thread found
      · cases taken

end NetworkProgramming.Hw8
