import Mathlib.Logic.Function.Basic
import NetworkProgramming.Foundation.Broadcast
import NetworkProgramming.Foundation.Transition
import NetworkProgramming.TestServ.Calculate

/-!
# The threads of `test_serv`

The main loop registers each accepted socket and hands a copy of it to a new
handler thread.  A handler evaluates each request without the mutex; all
handlers share the position that `strtok` keeps.  The sections under the mutex
are single steps, and so is each call of `strtok` with what its caller then
does until the next one.
-/

namespace NetworkProgramming.TestServ

open MachineInt Strtok Broadcast

/-- A call of `calculate`: what it was called with, and what its calls of
`strtok` have returned so far. -/
structure Evaluation where
  expr : CArray Byte BUF_SIZE
  call : Call
  seen : List (Option (List Byte))

/-- Where `handle_clnt` is with the request of its client. -/
inductive Phase where
  | reading
  | calculating (evaluation : Evaluation) (point : Point) (call : Call)
  | calculated (evaluation : Evaluation) (returned : Returned)
  | cleanup
  /-- It has run the section that removes its socket. -/
  | closing
  | ended

/-- A thread with the locals of `handle_clnt`. -/
structure Handler where
  clnt_sock : Nat
  id : CArray Byte (NAME_SIZE + 1)
  expr : CArray Byte BUF_SIZE
  expr_copy : CArray Byte BUF_SIZE
  phase : Phase

/-- Where the loop of `main` is. -/
inductive MainPoint where
  | accept
  | append
  | create
deriving DecidableEq

/-- A broadcast with its number, which no other one has. -/
structure Result where
  number : Nat
  text : List Byte
deriving DecidableEq

/-- What a client gets: a result, or the answer to a count out of range. -/
inductive Message where
  | result (result : Result)
  | overflow (text : List Byte)
deriving DecidableEq

/-- The threads share the list of sockets and the position of `strtok`. -/
structure System where
  point : MainPoint
  clnt_sock : Nat
  clnt_socks : CArray Nat MAX_CLNT
  clnt_count : Nat
  /-- The handler of the connection accepted as number `k` is number `k`. -/
  handlers : List Handler
  /-- The thread whose buffer `strtok` scans, and the position in it. -/
  cursor : Option (Nat × Nat)
  /-- The connection that is open at a descriptor. -/
  connection : Nat → Option Nat
  sent : List (Nat × Message)
  /-- Registrations, removals and broadcasts in the order in which they had the
  mutex. -/
  history : List (Event Nat Result)

def System.initial : System where
  point := .accept
  clnt_sock := 0
  clnt_socks := CArray.replicate MAX_CLNT 0
  clnt_count := 0
  handlers := []
  cursor := none
  connection := fun _ => none
  sent := []
  history := []

/-- A step of `main` or of one thread; a call of `strtok` is one. -/
inductive Action where
  | accept (socket : Nat)
  | append
  /-- `pthread_create`; the locals of the thread hold what its stack held. -/
  | create (id : CArray Byte (NAME_SIZE + 1)) (expr expr_copy : CArray Byte BUF_SIZE)
  /-- `readv` returns these bytes and `calculate` is called; its locals hold
  what the stack held. -/
  | request (thread : Nat) (received : List Byte) (locals : Call)
  | strtok (thread : Nat)
  | broadcast (thread : Nat)
  | overflow (thread : Nat)
  | leave (thread : Nat)
  | remove (thread : Nat)
  | close (thread : Nat)

/-! ## The parts of `handle_clnt` -/

/-- `strncpy(target, source, n)`: the string, padded with NULs. -/
def strncpy {size : Nat} (source : CArray Byte size) : CArray Byte size :=
  ⟨cString source.cells ++
      List.replicate (size - (cString source.cells).length) 0#8, by
    have length := length_cString_le source.cells
    rw [source.length_cells] at length
    simp only [List.length_append, List.length_replicate]
    omega⟩

/-- `readv(clnt_sock, vec, 2)` into `id` and `expr`, and the NULs put at their
ends. -/
def Handler.scatter (handler : Handler) (received : List Byte) : Option Handler := do
  let id ← (handler.id.fill (received.take NAME_SIZE)).set? NAME_SIZE 0#8
  let expr ← (handler.expr.fill (received.drop NAME_SIZE)).set? (BUF_SIZE - 1) 0#8
  return { handler with id := id, expr := expr, expr_copy := strncpy expr }

/-- `"[%s] %s=%d\n"` into `result_str`. -/
def resultString (handler : Handler) (returned : Returned) : Option (List Byte) := do
  let id ← handler.id.cString?
  let formatted_expr ← returned.formatted_expr.cString?
  return snprintf (BUF_SIZE + NAME_SIZE + 10)
    (ascii '[' :: id ++ [ascii ']', ascii ' '] ++ formatted_expr ++
      resultText returned.result)

def overflowText : List Byte :=
  [ascii 'O', ascii 'v', ascii 'e', ascii 'r', ascii 'f', ascii 'l', ascii 'o',
    ascii 'w', ascii ' ', ascii 'v', ascii 'a', ascii 'l', ascii 'u', ascii 'e',
    ascii '(']

def closedText : List Byte :=
  [ascii ')', ascii ' ', ascii '-', ascii ' ', ascii 'c', ascii 'l', ascii 'i',
    ascii 'e', ascii 'n', ascii 't', ascii ' ', ascii 'c', ascii 'l', ascii 'o',
    ascii 's', ascii 'e', ascii 'd', ascii '\n']

/-- `"Overflow value(%d) - client closed\n"` with `(char)atoi(expr)`, into
`overflow_msg[64]`. -/
def overflowMessage (atoi : List Byte → Word) (handler : Handler) :
    Option (List Byte) := do
  let expr ← handler.expr.cString?
  let count_val : Byte := (atoi expr).setWidth 8
  return snprintf 64 (overflowText ++ decimal count_val.toInt ++ closedText)

/-- `for (j = i; j < clnt_count - 1; j++) clnt_socks[j] = clnt_socks[j + 1]`. -/
def shift (i clnt_count : Nat) (clnt_socks : CArray Nat MAX_CLNT) :
    Option (CArray Nat MAX_CLNT) :=
  forLoop (fun turn clnt_socks => do
    let next ← clnt_socks.get? (i + turn + 1)
    clnt_socks.set? (i + turn) next) (clnt_count - 1 - i) clnt_socks

def System.registered (s : System) : List Nat :=
  s.clnt_socks.cells.take s.clnt_count

/-- The section under the mutex behind `cleanup:`. -/
def System.remove (s : System) (clnt_sock : Nat) :
    Option (CArray Nat MAX_CLNT × Nat) :=
  match s.registered.idxOf? clnt_sock with
  | some i => (shift i s.clnt_count s.clnt_socks).map fun clnt_socks =>
      (clnt_socks, s.clnt_count - 1)
  | none => some (s.clnt_socks, s.clnt_count)

/-- The loop over `clnt_socks` that writes the message to each. -/
def System.broadcast (s : System) (message : Message) : List (Nat × Message) :=
  s.registered.filterMap fun socket =>
    (s.connection socket).map fun client => (client, message)

def System.number (s : System) : Nat := (sends s.history).length

def System.handler? (s : System) (thread : Nat) : Option Handler :=
  s.handlers[thread]?

def System.put (s : System) (thread : Nat) (handler : Handler) : System :=
  { s with handlers := s.handlers.set thread handler }

theorem System.handler?_put {s : System} {thread : Nat} {handler moved : Handler}
    (found : s.handler? thread = some handler) :
    (s.put thread moved).handler? thread = some moved :=
  List.getElem?_set_self (List.getElem?_eq_some_iff.mp found).1

/-- Where a call of `strtok` starts: for the count at the thread's own
`expr_copy`, else where the last call of any thread stopped. -/
def System.start (s : System) (thread : Nat) (point : Point) : Option (Nat × Nat) :=
  if point = .count then some (thread, 0) else s.cursor

/-- Where the next phase of a call of `calculate` is. -/
def Progress.phase (evaluation : Evaluation) : Progress → Phase
  | .calling point call => .calculating evaluation point call
  | .returned result => .calculated evaluation result

section step

variable (atoi : List Byte → Word)

/-- One call of `strtok` by a thread.  The buffer it scans is gone when its
thread has ended. -/
def System.strtok (s : System) (thread : Nat) : Option System := do
  let handler ← s.handler? thread
  match handler.phase with
  | .calculating evaluation point call =>
      let (owner, position) ← s.start thread point
      let scanned ← s.handler? owner
      match scanned.phase with
      | .ended => none
      | _ =>
          let (token, expr_copy, stopped) ←
            Strtok.strtok (ascii ' ') scanned.expr_copy position
          let s := s.put owner { scanned with expr_copy := expr_copy }
          let handler ← s.handler? thread
          let progress ← receive atoi call point token
          let evaluation :=
            { evaluation with seen := evaluation.seen ++ [token] }
          return { s.put thread
            { handler with phase := progress.phase evaluation } with
              cursor := some (owner, stopped) }
  | _ => none

def step (s : System) : Action → Option System
  | .accept socket =>
      if s.point = .accept ∧ s.connection socket = none then
        some { s with
          clnt_sock := socket
          connection := Function.update s.connection socket (some s.handlers.length)
          point := .append }
      else none
  | .append =>
      if s.point = .append then do
        let clnt_socks ← s.clnt_socks.set? s.clnt_count s.clnt_sock
        return { s with
          clnt_socks := clnt_socks
          clnt_count := s.clnt_count + 1
          history := s.history ++ [.join s.handlers.length]
          point := .create }
      else none
  | .create id expr expr_copy =>
      if s.point = .create then
        some { s with
          handlers := s.handlers ++ [⟨s.clnt_sock, id, expr, expr_copy, .reading⟩]
          point := .accept }
      else none
  | .request thread received locals => do
      let handler ← s.handler? thread
      match handler.phase with
      | .reading =>
          if 0 < received.length ∧ received.length ≤ NAME_SIZE + BUF_SIZE then
            let handler ← handler.scatter received
            return s.put thread { handler with
              phase := .calculating ⟨handler.expr_copy, locals, []⟩ .count locals }
          else none
      | _ => none
  | .strtok thread => s.strtok atoi thread
  | .broadcast thread => do
      let handler ← s.handler? thread
      match handler.phase with
      | .calculated _ returned =>
          if returned.result ≠ -99999#32 then
            let text ← resultString handler returned
            return { s.put thread { handler with phase := .reading } with
              sent := s.sent ++ s.broadcast (.result ⟨s.number, text⟩)
              history := s.history ++ [.send ⟨s.number, text⟩] }
          else none
      | _ => none
  | .overflow thread => do
      let handler ← s.handler? thread
      match handler.phase with
      | .calculated _ returned =>
          if returned.result = -99999#32 then
            let text ← overflowMessage atoi handler
            return { s.put thread { handler with phase := .cleanup } with
              sent := s.sent ++ (s.connection handler.clnt_sock).toList.map
                fun client => (client, .overflow text) }
          else none
      | _ => none
  | .leave thread => do
      let handler ← s.handler? thread
      match handler.phase with
      | .reading => return s.put thread { handler with phase := .cleanup }
      | _ => none
  | .remove thread => do
      let handler ← s.handler? thread
      match handler.phase with
      | .cleanup =>
          let (clnt_socks, clnt_count) ← s.remove handler.clnt_sock
          return { s.put thread { handler with phase := .closing } with
            clnt_socks := clnt_socks
            clnt_count := clnt_count
            history := s.history ++ [.leave thread] }
      | _ => none
  | .close thread => do
      let handler ← s.handler? thread
      match handler.phase with
      | .closing => return { s.put thread { handler with phase := .ended } with
          connection := Function.update s.connection handler.clnt_sock none }
      | _ => none

variable {atoi}

theorem System.strtok_eq_some {s next : System} {thread : Nat}
    (taken : s.strtok atoi thread = some next) :
    ∃ handler evaluation point call owner position scanned token expr_copy stopped
      again progress,
      s.handler? thread = some handler ∧
      handler.phase = .calculating evaluation point call ∧
      s.start thread point = some (owner, position) ∧
      s.handler? owner = some scanned ∧
      Strtok.strtok (ascii ' ') scanned.expr_copy position =
        some (token, expr_copy, stopped) ∧
      (s.put owner { scanned with expr_copy := expr_copy }).handler? thread =
        some again ∧
      receive atoi call point token = some progress ∧
      next = { (s.put owner { scanned with expr_copy := expr_copy }).put thread
        { again with
          phase := progress.phase
            { evaluation with seen := evaluation.seen ++ [token] } } with
        cursor := some (owner, stopped) } := by
  simp only [System.strtok, Option.bind_eq_bind, Option.bind_eq_some_iff] at taken
  obtain ⟨handler, found, taken⟩ := taken
  split at taken <;> rename_i phase
  · rename_i evaluation point call
    simp only [Option.bind_eq_some_iff] at taken
    obtain ⟨⟨owner, position⟩, start, scanned, ownerFound, taken⟩ := taken
    split at taken
    · cases taken
    · simp only [Option.bind_eq_some_iff] at taken
      obtain ⟨⟨token, cut, stopped⟩, scan, again, refound, progress, received,
        result⟩ := taken
      cases result
      exact ⟨handler, evaluation, point, call, owner, position, scanned, token, cut,
        stopped, again, progress, found, phase, start, ownerFound, scan, refound,
        received, rfl⟩
  · cases taken

/-- What each step needs and does. -/
inductive Taken (atoi : List Byte → Word) (s : System) : Action → System → Prop where
  | accept (socket : Nat) (waits : s.point = .accept)
      (fresh : s.connection socket = none) :
      Taken atoi s (.accept socket) { s with
        clnt_sock := socket
        connection := Function.update s.connection socket (some s.handlers.length)
        point := .append }
  | append (clnt_socks : CArray Nat MAX_CLNT) (accepted : s.point = .append)
      (stored : s.clnt_socks.set? s.clnt_count s.clnt_sock = some clnt_socks) :
      Taken atoi s .append { s with
        clnt_socks := clnt_socks
        clnt_count := s.clnt_count + 1
        history := s.history ++ [.join s.handlers.length]
        point := .create }
  | create (id : CArray Byte (NAME_SIZE + 1)) (expr expr_copy : CArray Byte BUF_SIZE)
      (appended : s.point = .create) :
      Taken atoi s (.create id expr expr_copy) { s with
        handlers := s.handlers ++ [⟨s.clnt_sock, id, expr, expr_copy, .reading⟩]
        point := .accept }
  | request (thread : Nat) (received : List Byte) (locals : Call)
      (handler scattered : Handler) (found : s.handler? thread = some handler)
      (phase : handler.phase = .reading)
      (size : 0 < received.length ∧ received.length ≤ NAME_SIZE + BUF_SIZE)
      (filled : handler.scatter received = some scattered) :
      Taken atoi s (.request thread received locals) (s.put thread { scattered with
        phase := .calculating ⟨scattered.expr_copy, locals, []⟩ .count locals })
  | strtok (thread : Nat) (next : System) (called : s.strtok atoi thread = some next) :
      Taken atoi s (.strtok thread) next
  | broadcast (thread : Nat) (handler : Handler) (evaluation : Evaluation)
      (returned : Returned) (text : List Byte)
      (found : s.handler? thread = some handler)
      (phase : handler.phase = .calculated evaluation returned)
      (inRange : returned.result ≠ -99999#32)
      (printed : resultString handler returned = some text) :
      Taken atoi s (.broadcast thread)
        { s.put thread { handler with phase := .reading } with
          sent := s.sent ++ s.broadcast (.result ⟨s.number, text⟩)
          history := s.history ++ [.send ⟨s.number, text⟩] }
  | overflow (thread : Nat) (handler : Handler) (evaluation : Evaluation)
      (returned : Returned) (text : List Byte)
      (found : s.handler? thread = some handler)
      (phase : handler.phase = .calculated evaluation returned)
      (outOfRange : returned.result = -99999#32)
      (printed : overflowMessage atoi handler = some text) :
      Taken atoi s (.overflow thread)
        { s.put thread { handler with phase := .cleanup } with
          sent := s.sent ++ (s.connection handler.clnt_sock).toList.map
            fun client => (client, .overflow text) }
  | leave (thread : Nat) (handler : Handler) (found : s.handler? thread = some handler)
      (phase : handler.phase = .reading) :
      Taken atoi s (.leave thread) (s.put thread { handler with phase := .cleanup })
  | remove (thread : Nat) (handler : Handler) (clnt_socks : CArray Nat MAX_CLNT)
      (clnt_count : Nat) (found : s.handler? thread = some handler)
      (phase : handler.phase = .cleanup)
      (removed : s.remove handler.clnt_sock = some (clnt_socks, clnt_count)) :
      Taken atoi s (.remove thread)
        { s.put thread { handler with phase := .closing } with
          clnt_socks := clnt_socks
          clnt_count := clnt_count
          history := s.history ++ [.leave thread] }
  | close (thread : Nat) (handler : Handler) (found : s.handler? thread = some handler)
      (phase : handler.phase = .closing) :
      Taken atoi s (.close thread)
        { s.put thread { handler with phase := .ended } with
          connection := Function.update s.connection handler.clnt_sock none }

theorem taken_of_step {s next : System} {action : Action}
    (taken : step atoi s action = some next) : Taken atoi s action next := by
  cases action with
  | accept socket =>
      simp only [step] at taken
      split at taken <;> rename_i accepts
      · cases taken
        exact .accept socket accepts.1 accepts.2
      · cases taken
  | append =>
      simp only [step] at taken
      split at taken <;> rename_i accepted
      · simp only [Option.bind_eq_bind, Option.bind_eq_some_iff] at taken
        obtain ⟨clnt_socks, stored, result⟩ := taken
        cases result
        exact .append clnt_socks accepted stored
      · cases taken
  | create id expr expr_copy =>
      simp only [step] at taken
      split at taken <;> rename_i appended
      · cases taken
        exact .create id expr expr_copy appended
      · cases taken
  | request thread received locals =>
      simp only [step, Option.bind_eq_bind, Option.bind_eq_some_iff] at taken
      obtain ⟨handler, found, taken⟩ := taken
      split at taken <;> rename_i phase
      · split at taken <;> rename_i size
        · simp only [Option.bind_eq_some_iff] at taken
          obtain ⟨scattered, filled, result⟩ := taken
          cases result
          exact .request thread received locals handler scattered found phase size
            filled
        · cases taken
      · cases taken
  | strtok thread => exact .strtok thread next taken
  | broadcast thread =>
      simp only [step, Option.bind_eq_bind, Option.bind_eq_some_iff] at taken
      obtain ⟨handler, found, taken⟩ := taken
      split at taken <;> rename_i phase
      · split at taken <;> rename_i inRange
        · simp only [Option.bind_eq_some_iff] at taken
          obtain ⟨text, printed, result⟩ := taken
          cases result
          exact .broadcast thread handler _ _ text found phase inRange printed
        · cases taken
      · cases taken
  | overflow thread =>
      simp only [step, Option.bind_eq_bind, Option.bind_eq_some_iff] at taken
      obtain ⟨handler, found, taken⟩ := taken
      split at taken <;> rename_i phase
      · split at taken <;> rename_i outOfRange
        · simp only [Option.bind_eq_some_iff] at taken
          obtain ⟨text, printed, result⟩ := taken
          cases result
          exact .overflow thread handler _ _ text found phase outOfRange printed
        · cases taken
      · cases taken
  | leave thread =>
      simp only [step, Option.bind_eq_bind, Option.bind_eq_some_iff] at taken
      obtain ⟨handler, found, taken⟩ := taken
      split at taken <;> rename_i phase
      · cases taken
        exact .leave thread handler found phase
      · cases taken
  | remove thread =>
      simp only [step, Option.bind_eq_bind, Option.bind_eq_some_iff] at taken
      obtain ⟨handler, found, taken⟩ := taken
      split at taken <;> rename_i phase
      · simp only [Option.bind_eq_some_iff] at taken
        obtain ⟨⟨clnt_socks, clnt_count⟩, removed, result⟩ := taken
        cases result
        exact .remove thread handler clnt_socks clnt_count found phase removed
      · cases taken
  | close thread =>
      simp only [step, Option.bind_eq_bind, Option.bind_eq_some_iff] at taken
      obtain ⟨handler, found, taken⟩ := taken
      split at taken <;> rename_i phase
      · cases taken
        exact .close thread handler found phase
      · cases taken

end step

/-! ## Lists of threads -/

theorem getElem?_snoc_eq_some {α : Type*} {items : List α} {last item : α}
    {index : Nat} : (items ++ [last])[index]? = some item ↔
      items[index]? = some item ∨ (index = items.length ∧ last = item) := by
  rcases Nat.lt_trichotomy index items.length with earlier | rfl | later
  · simp [List.getElem?_append_left earlier, Nat.ne_of_lt earlier]
  · simp
  · rw [List.getElem?_eq_none (by simp; omega), List.getElem?_eq_none (by omega)]
    simp [Nat.ne_of_gt later]

theorem getElem?_set_eq_some {α : Type*} {items : List α} {old new item : α}
    {index other : Nat} (found : items[index]? = some old) :
    (items.set index new)[other]? = some item ↔
      (other = index ∧ new = item) ∨ (other ≠ index ∧ items[other]? = some item) := by
  have bound := (List.getElem?_eq_some_iff.mp found).1
  by_cases same : other = index
  · subst same
    simp [List.getElem?_set_self bound]
  · simp [List.getElem?_set_ne (Ne.symm same), same]

end NetworkProgramming.TestServ
