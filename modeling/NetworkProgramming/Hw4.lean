import NetworkProgramming.Foundation.CArray
import NetworkProgramming.Foundation.Transition

/-!
# The file transfer of `hw4_server` and `hw4_client`

The server cuts the file into blocks of 1024 bytes, of which the last is
shorter and may be empty, and shuts the connection down behind it.  The client
sees the stream in any pieces and stops at its end.  The bytes copied, received,
in flight, about to be written and still in the file are always the file.
-/

namespace NetworkProgramming.Hw4

open MachineInt Transition

def BUF_SIZE : Nat := 1024

/-- Where the sending loop of `hw4_server` is. -/
inductive ServerPoint where
  | fread
  | write (read_cnt : Nat)
  | shutdown
  /-- Behind `shutdown(clnt_sd, SHUT_WR)`. -/
  | done
deriving DecidableEq

/-- Where the receiving loop of `hw4_client` is. -/
inductive ClientPoint where
  | read
  | fwrite (read_cnt : Nat)
  /-- `read` has returned 0. -/
  | done
deriving DecidableEq

/-- Both programs, their files and the stream between them. -/
structure System where
  server : ServerPoint
  serverBuf : CArray Byte BUF_SIZE
  /-- What `fread` has not yet returned of `test.txt`. -/
  test : List Byte
  /-- Written by the server and not yet read by the client. -/
  stream : List Byte
  client : ClientPoint
  clientBuf : CArray Byte BUF_SIZE
  /-- What is in `copy.txt`. -/
  copy : List Byte

/-- The connection stands and `copy.txt` was truncated; the buffers are not
initialised. -/
def System.initial (test : List Byte) (serverBuf clientBuf : CArray Byte BUF_SIZE) :
    System where
  server := .fread
  serverBuf := serverBuf
  test := test
  stream := []
  client := .read
  clientBuf := clientBuf
  copy := []

/-- A call of one of the two programs. -/
inductive Action where
  | fread
  | write
  | shutdown
  /-- The client's `read` returns this many bytes. -/
  | read (read_cnt : Nat)
  | endOfStream
  | fwrite

def step (s : System) : Action → Option System
  | .fread =>
      match s.server with
      | .fread =>
          let bytes := s.test.take BUF_SIZE
          some { s with
            serverBuf := s.serverBuf.fill bytes
            test := s.test.drop BUF_SIZE
            server := .write bytes.length }
      | _ => none
  | .write =>
      match s.server with
      | .write read_cnt =>
          if read_cnt < BUF_SIZE then do
            let bytes ← s.serverBuf.read? 0 read_cnt
            return { s with stream := s.stream ++ bytes, server := .shutdown }
          else do
            let bytes ← s.serverBuf.read? 0 BUF_SIZE
            return { s with stream := s.stream ++ bytes, server := .fread }
      | _ => none
  | .shutdown =>
      match s.server with
      | .shutdown => some { s with server := .done }
      | _ => none
  | .read read_cnt =>
      match s.client with
      | .read =>
          if 0 < read_cnt ∧ read_cnt ≤ BUF_SIZE ∧ read_cnt ≤ s.stream.length then
            some { s with
              clientBuf := s.clientBuf.fill (s.stream.take read_cnt)
              stream := s.stream.drop read_cnt
              client := .fwrite read_cnt }
          else none
      | _ => none
  | .endOfStream =>
      match s.client, s.server with
      | .read, .done => if s.stream = [] then some { s with client := .done } else none
      | _, _ => none
  | .fwrite =>
      match s.client with
      | .fwrite read_cnt => do
          let bytes ← s.clientBuf.read? 0 read_cnt
          return { s with copy := s.copy ++ bytes, client := .read }
      | _ => none

/-- Both loops have ended. -/
def System.Finished (s : System) : Prop :=
  s.server = .done ∧ s.client = .done

/-! ## What a step does -/

/-- A step, by its action and what it finds. -/
inductive Moves (s : System) : Action → System → Prop where
  | fread (point : s.server = .fread) :
      Moves s .fread { s with
        serverBuf := s.serverBuf.fill (s.test.take BUF_SIZE)
        test := s.test.drop BUF_SIZE
        server := .write (s.test.take BUF_SIZE).length }
  | writeLast (read_cnt : Nat) (point : s.server = .write read_cnt)
      (short : read_cnt < BUF_SIZE) :
      Moves s .write { s with
        stream := s.stream ++ s.serverBuf.cells.take read_cnt
        server := .shutdown }
  | writeBlock (read_cnt : Nat) (point : s.server = .write read_cnt)
      (full : ¬ read_cnt < BUF_SIZE) :
      Moves s .write { s with
        stream := s.stream ++ s.serverBuf.cells.take BUF_SIZE
        server := .fread }
  | shutdown (point : s.server = .shutdown) :
      Moves s .shutdown { s with server := .done }
  | read (read_cnt : Nat) (point : s.client = .read)
      (size : 0 < read_cnt ∧ read_cnt ≤ BUF_SIZE ∧ read_cnt ≤ s.stream.length) :
      Moves s (.read read_cnt) { s with
        clientBuf := s.clientBuf.fill (s.stream.take read_cnt)
        stream := s.stream.drop read_cnt
        client := .fwrite read_cnt }
  | endOfStream (client : s.client = .read) (server : s.server = .done)
      (drained : s.stream = []) :
      Moves s .endOfStream { s with client := .done }
  | fwrite (read_cnt : Nat) (point : s.client = .fwrite read_cnt) :
      Moves s .fwrite { s with
        copy := s.copy ++ s.clientBuf.cells.take read_cnt
        client := .read }

theorem step_moves {s next : System} {action : Action}
    (taken : step s action = some next) : Moves s action next := by
  cases action with
  | fread =>
      simp only [step] at taken
      split at taken <;> rename_i point
      · cases taken
        exact .fread point
      · cases taken
  | write =>
      simp only [step] at taken
      split at taken <;> rename_i read_cnt point
      · split at taken <;> rename_i short
        · simp only [Option.bind_eq_bind, Option.bind_eq_some_iff] at taken
          obtain ⟨block, copied, result⟩ := taken
          cases result
          obtain ⟨_, rfl⟩ := CArray.read?_eq_some.mp copied
          exact .writeLast read_cnt point short
        · simp only [Option.bind_eq_bind, Option.bind_eq_some_iff] at taken
          obtain ⟨block, copied, result⟩ := taken
          cases result
          obtain ⟨_, rfl⟩ := CArray.read?_eq_some.mp copied
          exact .writeBlock read_cnt point short
      · cases taken
  | shutdown =>
      simp only [step] at taken
      split at taken <;> rename_i point
      · cases taken
        exact .shutdown point
      · cases taken
  | read read_cnt =>
      simp only [step] at taken
      split at taken <;> rename_i point
      · split at taken <;> rename_i size
        · cases taken
          exact .read read_cnt point size
        · cases taken
      · cases taken
  | endOfStream =>
      simp only [step] at taken
      split at taken <;> rename_i client server
      · split at taken <;> rename_i drained
        · cases taken
          exact .endOfStream client server drained
        · cases taken
      · cases taken
  | fwrite =>
      simp only [step] at taken
      split at taken <;> rename_i point
      · simp only [Option.bind_eq_bind, Option.bind_eq_some_iff] at taken
        obtain ⟨piece, copied, result⟩ := taken
        cases result
        obtain ⟨_, rfl⟩ := CArray.read?_eq_some.mp copied
        exact .fwrite _ point
      · cases taken

/-! ## What is kept -/

/-- What the server has read from the file and not yet written. -/
def System.sending (s : System) : List Byte :=
  match s.server with
  | .write read_cnt => s.serverBuf.cells.take read_cnt
  | _ => []

/-- What the client has read and not yet copied. -/
def System.received (s : System) : List Byte :=
  match s.client with
  | .fwrite read_cnt => s.clientBuf.cells.take read_cnt
  | _ => []

/-- The server has a block in its buffer, and a short one only at the end of the
file, of which nothing is left behind the loop. -/
def ServerPoint.Holds (test : List Byte) : ServerPoint → Prop
  | .fread => True
  | .write read_cnt => read_cnt ≤ BUF_SIZE ∧ (read_cnt < BUF_SIZE → test = [])
  | .shutdown | .done => test = []

/-- No byte of the file is lost or repeated on its way. -/
structure Transferred (contents : List Byte) (s : System) : Prop where
  bytes : s.copy ++ s.received ++ s.stream ++ s.sending ++ s.test = contents
  server : s.server.Holds s.test
  client : ∀ read_cnt, s.client = .fwrite read_cnt → read_cnt ≤ BUF_SIZE
  ended : s.client = .done → s.server = .done ∧ s.stream = []

theorem Transferred.running {contents : List Byte} {s : System}
    (held : Transferred contents s) (busy : s.server ≠ .done) : s.client ≠ .done :=
  fun done => busy (held.ended done).1

theorem transferred_step {contents : List Byte} {s next : System} {action : Action}
    (held : Transferred contents s) (taken : step s action = some next) :
    Transferred contents next := by
  have bytes := held.bytes
  have server := held.server
  cases step_moves taken with
  | fread point =>
      have size : (s.test.take BUF_SIZE).length ≤ BUF_SIZE := by simp
      have block : (s.serverBuf.fill (s.test.take BUF_SIZE)).cells.take
          (s.test.take BUF_SIZE).length = s.test.take BUF_SIZE := by
        rw [CArray.cells_fill _ size, List.take_left']
        rfl
      refine ⟨?_, ⟨size, ?_⟩, held.client, fun done =>
        absurd done (held.running (by simp [point]))⟩
      · simp only [System.sending, point, List.append_nil] at bytes
        simp only [System.sending, block, System.received, List.append_assoc,
          List.take_append_drop] at bytes ⊢
        exact bytes
      · intro short
        rw [List.length_take] at short
        exact List.drop_of_length_le (by omega)
  | writeLast read_cnt point short =>
      simp only [point, ServerPoint.Holds] at server
      simp only [System.sending, point] at bytes
      refine ⟨?_, server.2 short, held.client, fun done =>
        absurd done (held.running (by simp [point]))⟩
      simpa [System.sending, System.received] using bytes
  | writeBlock read_cnt point full =>
      simp only [point, ServerPoint.Holds] at server
      simp only [System.sending, point] at bytes
      obtain rfl : read_cnt = BUF_SIZE := by omega
      refine ⟨?_, trivial, held.client, fun done =>
        absurd done (held.running (by simp [point]))⟩
      simpa [System.sending, System.received] using bytes
  | shutdown point =>
      simp only [point, ServerPoint.Holds] at server
      simp only [System.sending, point] at bytes
      exact ⟨bytes, server, held.client, fun done =>
        absurd done (held.running (by simp [point]))⟩
  | read read_cnt point size =>
      have length : (s.stream.take read_cnt).length = read_cnt := by
        rw [List.length_take]
        omega
      have piece : (s.clientBuf.fill (s.stream.take read_cnt)).cells.take read_cnt =
          s.stream.take read_cnt := by
        rw [CArray.cells_fill _ (by omega), List.take_left' length]
      simp only [System.received, point, List.append_nil] at bytes
      refine ⟨?_, server, ?_, ?_⟩
      · rw [← List.take_append_drop read_cnt s.stream] at bytes
        simpa [System.received, piece, System.sending] using bytes
      · rintro _ ⟨⟩
        exact size.2.1
      · rintro ⟨⟩
  | endOfStream client done drained =>
      simp only [System.received, client] at bytes
      refine ⟨bytes, server, ?_, fun _ => ⟨done, drained⟩⟩
      rintro _ ⟨⟩
  | fwrite read_cnt point =>
      simp only [System.received, point] at bytes
      refine ⟨?_, server, ?_, ?_⟩
      · simpa [System.received, System.sending] using bytes
      · rintro _ ⟨⟩
      · rintro ⟨⟩

/-! ## Both loops end -/

def ServerPoint.work : ServerPoint → Nat
  | .fread => 3
  | .write read_cnt => 2 * read_cnt + if read_cnt < BUF_SIZE then 2 else 4
  | .shutdown => 1
  | .done => 0

def ClientPoint.work : ClientPoint → Nat
  | .read => 1
  | .fwrite _ => 2
  | .done => 0

/-- What is still to be done; every step lowers it. -/
def System.work (s : System) : Nat :=
  3 * s.test.length + s.server.work + 2 * s.stream.length + s.client.work

theorem work_lowers {s next : System} {action : Action}
    (taken : step s action = some next) : next.work < s.work := by
  have size : BUF_SIZE = 1024 := rfl
  cases step_moves taken with
  | fread point =>
      simp only [System.work, point, ServerPoint.work, List.length_take,
        List.length_drop]
      split <;> omega
  | writeLast read_cnt point short =>
      simp only [System.work, point, ServerPoint.work, short, if_true,
        List.length_append, List.length_take]
      omega
  | writeBlock read_cnt point full =>
      simp only [System.work, point, ServerPoint.work, full, if_false,
        List.length_append, List.length_take]
      omega
  | shutdown point => simp [System.work, point, ServerPoint.work]
  | read read_cnt point size =>
      simp only [System.work, point, ClientPoint.work, List.length_drop]
      omega
  | endOfStream client => simp [System.work, client, ClientPoint.work]
  | fwrite read_cnt point => simp [System.work, point, ClientPoint.work]

theorem progress {contents : List Byte} {s : System} (held : Transferred contents s)
    (unfinished : ¬ s.Finished) : ∃ action next, step s action = some next := by
  cases server : s.server with
  | fread => exact ⟨.fread, by simp [step, server]⟩
  | write read_cnt =>
      refine ⟨.write, ?_⟩
      by_cases short : read_cnt < BUF_SIZE
      · simp [step, server, short, CArray.read?, Nat.le_of_lt short]
      · simp [step, server, short, CArray.read?]
  | shutdown => exact ⟨.shutdown, by simp [step, server]⟩
  | done =>
      cases client : s.client with
      | read =>
          cases stream : s.stream with
          | nil => exact ⟨.endOfStream, by simp [step, server, client, stream]⟩
          | cons byte bytes =>
              refine ⟨.read 1, ?_⟩
              simp [step, client, stream, BUF_SIZE]
      | fwrite read_cnt =>
          have fits := held.client read_cnt client
          exact ⟨.fwrite, by simp [step, client, CArray.read?, fits]⟩
      | done => exact absurd ⟨server, client⟩ unfinished

theorem transferred_initial (contents : List Byte)
    (serverBuf clientBuf : CArray Byte BUF_SIZE) :
    Transferred contents (System.initial contents serverBuf clientBuf) where
  bytes := by simp [System.initial, System.received, System.sending]
  server := trivial
  client := by simp [System.initial]
  ended := by simp [System.initial]

theorem Transferred.copied {contents : List Byte} {s : System}
    (held : Transferred contents s) (finished : s.Finished) : s.copy = contents := by
  have bytes := held.bytes
  have server := held.server
  obtain ⟨serverDone, clientDone⟩ := finished
  have drained := (held.ended clientDone).2
  simp only [serverDone, ServerPoint.Holds] at server
  simpa [System.received, System.sending, serverDone, clientDone, drained, server]
    using bytes

/-- For every file and every way in which the stream is cut, every run of the two
loops is finite, can only stop when both have ended, and has then copied the
file. -/
theorem copy_complete {contents : List Byte} {serverBuf clientBuf : CArray Byte BUF_SIZE}
    {actions : List Action} {s : System}
    (reached : run step (System.initial contents serverBuf clientBuf) actions = some s) :
    actions.length ≤ 3 * contents.length + 4 ∧
      (s.Finished ∨ ∃ action next, step s action = some next) ∧
      (s.Finished → s.copy = contents) := by
  have held : Transferred contents s :=
    run_invariant_of_step (Transferred contents)
      (fun held taken => transferred_step held taken)
      (transferred_initial contents serverBuf clientBuf) reached
  obtain ⟨bound, goesOn⟩ := ends_of_measure work_lowers progress held reached
  refine ⟨?_, goesOn, fun finished => held.copied finished⟩
  simp only [System.work, System.initial, ServerPoint.work, ClientPoint.work,
    List.length_nil] at bound
  omega

/-- The file is received as one byte and two. -/
def twoPieces : List Action :=
  [.fread, .write, .read 1, .fwrite, .shutdown, .read 2, .fwrite, .endOfStream]

def threeBytes : System :=
  System.initial [1#8, 2#8, 3#8] (CArray.replicate BUF_SIZE 0#8)
    (CArray.replicate BUF_SIZE 0#8)

theorem copy_complete_twoPieces :
    ∃ s, run step threeBytes twoPieces = some s ∧ s.Finished ∧
      s.copy = [1#8, 2#8, 3#8] := by
  have shape : (run step threeBytes twoPieces).any (fun s =>
      s.server = .done ∧ s.client = .done) = true := by
    decide +kernel
  obtain ⟨s, reached, shaped⟩ := (Option.any_eq_true _ _).mp shape
  have finished : s.server = .done ∧ s.client = .done := of_decide_eq_true shaped
  exact ⟨s, reached, finished, (copy_complete reached).2.2 finished⟩

end NetworkProgramming.Hw4
