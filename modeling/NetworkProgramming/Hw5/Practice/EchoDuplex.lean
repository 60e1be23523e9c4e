import NetworkProgramming.Foundation.Duplex
import NetworkProgramming.Foundation.Stdio
import NetworkProgramming.Foundation.Transition

/-!
# The echo client `echo_mpclient.c`

The child process writes what the user types and shuts its direction down at `q`,
while the parent prints what a worker of `echo_mpserv.c` sends back.  The worker's
connection is closed when the server, which forked it, has closed its copy too.
-/

namespace NetworkProgramming.Hw5.Practice.EchoDuplex

open Duplex MachineInt Transition

def BUF_SIZE : Nat := 30

/-- Where `write_routine` of the client is. -/
inductive WriterPoint where
  | fgets
  | write
  | returned
deriving DecidableEq

/-- Where the worker of the server is. -/
inductive WorkerPoint where
  | read
  | write (str_len : Nat)
  | close
  | closed
deriving DecidableEq

/-- Where `read_routine` of the client is. -/
inductive ReaderPoint where
  | read
  | returned
  /-- Behind `buf[str_len] = 0` outside the buffer. -/
  | overrun
deriving DecidableEq

/-- Each process has a `buf` of its own. -/
structure System where
  writer : WriterPoint
  stdin : Stdio.File
  writerBuf : CArray Byte BUF_SIZE
  up : Direction Byte
  worker : WorkerPoint
  workerBuf : CArray Byte BUF_SIZE
  /-- The server has not closed its copy of `clnt_sock`. -/
  copied : Bool
  down : Direction Byte
  reader : ReaderPoint
  readerBuf : CArray Byte BUF_SIZE
  stdout : List Byte
  /-- What the writer sent. -/
  typed : List Byte
  /-- What the reader printed, block by block. -/
  blocks : List (List Byte)

/-- A step of the worker or of one of the client's processes. -/
inductive Action where
  | fgets
  | writeRoutine
  | read (str_len : Nat)
  | write
  | closeWorker
  | closeServer
  | readRoutine (str_len : Nat)

/-- Behind the two `fork`s, with whatever is in the buffers. -/
def System.initial (writerBuf workerBuf readerBuf : CArray Byte BUF_SIZE)
    (stdin : List Byte) : System where
  writer := .fgets
  stdin := Stdio.fopen stdin
  writerBuf := writerBuf
  up := .fresh Byte
  worker := .read
  workerBuf := workerBuf
  copied := true
  down := .fresh Byte
  reader := .read
  readerBuf := readerBuf
  stdout := []
  typed := []
  blocks := []

/-- `!strcmp(buf, "q\n") || !strcmp(buf, "Q\n")`. -/
def Quits (line : List Byte) : Prop :=
  line = [ascii 'q', ascii '\n'] ∨ line = [ascii 'Q', ascii '\n']

instance (line : List Byte) : Decidable (Quits line) := inferInstanceAs (Decidable (_ ∨ _))

/-- `printf("Message from server: %s", buf)`. -/
def message (text : List Byte) : List Byte := literal "Message from server: " ++ text

/-- `none` is a step that waits. -/
def step (s : System) : Action → Option System
  | .fgets =>
      if s.writer = .fgets then
        let got := Stdio.fgets s.writerBuf s.stdin
        some { s with writerBuf := got.buf, stdin := got.fp, writer := .write }
      else none
  | .writeRoutine => do
      let line ← s.writerBuf.cString?
      if s.writer = .write then
        if Quits line then some { s with up := s.up.shutdown, writer := .returned }
        else some { s with
          up := s.up.write line
          typed := s.typed ++ line
          writer := .fgets }
      else none
  | .read str_len => do
      let (block, up) ← s.up.read BUF_SIZE str_len
      if s.worker = .read then
        some { s with
          workerBuf := s.workerBuf.fill block
          up := up
          worker := if str_len = 0 then .close else .write str_len }
      else none
  | .write =>
      match s.worker with
      | .write str_len => do
          let bytes ← s.workerBuf.read? 0 str_len
          some { s with down := s.down.write bytes, worker := .read }
      | _ => none
  | .closeWorker =>
      if s.worker = .close then
        some { s with
          worker := .closed
          down := if s.copied then s.down else s.down.shutdown }
      else none
  | .closeServer =>
      if s.copied then
        some { s with
          copied := false
          down := if s.worker = .closed then s.down.shutdown else s.down }
      else none
  | .readRoutine str_len => do
      let (block, down) ← s.down.read BUF_SIZE str_len
      if s.reader = .read then
        if str_len = 0 then some { s with down := down, reader := .returned }
        else
          match (s.readerBuf.fill block).set? str_len 0#8 with
          | none => some { s with
              readerBuf := s.readerBuf.fill block
              down := down
              reader := .overrun }
          | some buf => do
              let text ← buf.cString?
              some { s with
                readerBuf := buf
                down := down
                stdout := s.stdout ++ message text
                blocks := s.blocks ++ [block] }
      else none

/-! ## What a step does -/

/-- A step, by its action and what it finds. -/
inductive Moves (s : System) : Action → System → Prop where
  | fgets (point : s.writer = .fgets) :
      Moves s .fgets { s with
        writerBuf := (Stdio.fgets s.writerBuf s.stdin).buf
        stdin := (Stdio.fgets s.writerBuf s.stdin).fp
        writer := .write }
  | shutdown {line : List Byte} (point : s.writer = .write)
      (holds : s.writerBuf.cString? = some line) (quits : Quits line) :
      Moves s .writeRoutine { s with up := s.up.shutdown, writer := .returned }
  | writeLine {line : List Byte} (point : s.writer = .write)
      (holds : s.writerBuf.cString? = some line) (goesOn : ¬ Quits line) :
      Moves s .writeRoutine { s with
        up := s.up.write line
        typed := s.typed ++ line
        writer := .fgets }
  | readEnded {up : Direction Byte} (point : s.worker = .read)
      (reads : Direction.Reads BUF_SIZE s.up 0 [] up) :
      Moves s (.read 0) { s with
        workerBuf := s.workerBuf.fill []
        up := up
        worker := .close }
  | read {str_len : Nat} {block : List Byte} {up : Direction Byte}
      (point : s.worker = .read) (positive : str_len ≠ 0)
      (reads : Direction.Reads BUF_SIZE s.up str_len block up) :
      Moves s (.read str_len) { s with
        workerBuf := s.workerBuf.fill block
        up := up
        worker := .write str_len }
  | write {str_len : Nat} (point : s.worker = .write str_len) :
      Moves s .write { s with
        down := s.down.write (s.workerBuf.cells.take str_len)
        worker := .read }
  | closeWorker (point : s.worker = .close) :
      Moves s .closeWorker { s with
        worker := .closed
        down := if s.copied then s.down else s.down.shutdown }
  | closeServer (copied : s.copied = true) :
      Moves s .closeServer { s with
        copied := false
        down := if s.worker = .closed then s.down.shutdown else s.down }
  | readerEnded {down : Direction Byte} (point : s.reader = .read)
      (reads : Direction.Reads BUF_SIZE s.down 0 [] down) :
      Moves s (.readRoutine 0) { s with down := down, reader := .returned }
  | overrun {block : List Byte} {down : Direction Byte} (point : s.reader = .read)
      (reads : Direction.Reads BUF_SIZE s.down BUF_SIZE block down) :
      Moves s (.readRoutine BUF_SIZE) { s with
        readerBuf := s.readerBuf.fill block
        down := down
        reader := .overrun }
  | print {str_len : Nat} {block text : List Byte} {down : Direction Byte}
      {buf : CArray Byte BUF_SIZE} (point : s.reader = .read) (positive : str_len ≠ 0)
      (reads : Direction.Reads BUF_SIZE s.down str_len block down)
      (stored : (s.readerBuf.fill block).set? str_len 0#8 = some buf)
      (holds : buf.cString? = some text) :
      Moves s (.readRoutine str_len) { s with
        readerBuf := buf
        down := down
        stdout := s.stdout ++ message text
        blocks := s.blocks ++ [block] }

theorem step_moves {s next : System} {action : Action} (taken : step s action = some next) :
    Moves s action next := by
  cases action with
  | fgets =>
      simp only [step] at taken
      split at taken <;> rename_i point
      · cases taken
        exact .fgets point
      · cases taken
  | writeRoutine =>
      simp only [step, Option.bind_eq_bind, Option.bind_eq_some_iff] at taken
      obtain ⟨line, holds, taken⟩ := taken
      split at taken <;> rename_i point
      · split at taken <;> rename_i quits
        · cases taken
          exact .shutdown point holds quits
        · cases taken
          exact .writeLine point holds quits
      · cases taken
  | read str_len =>
      simp only [step, Option.bind_eq_bind, Option.bind_eq_some_iff] at taken
      obtain ⟨⟨block, up⟩, returned, taken⟩ := taken
      have reads := Direction.reads_of_read returned
      split at taken <;> rename_i point
      · cases taken
        by_cases ended : str_len = 0
        · subst ended
          have none : block = [] := List.length_eq_zero_iff.mp reads.length
          subst none
          exact .readEnded point reads
        · rw [if_neg ended]
          exact .read point ended reads
      · cases taken
  | write =>
      simp only [step] at taken
      split at taken <;> rename_i str_len point
      · obtain ⟨bytes, copied, taken⟩ := Option.bind_eq_some_iff.mp taken
        obtain ⟨_, rfl⟩ := CArray.read?_eq_some.mp copied
        cases taken
        exact .write point
      · cases taken
  | closeWorker =>
      simp only [step] at taken
      split at taken <;> rename_i point
      · cases taken
        exact .closeWorker point
      · cases taken
  | closeServer =>
      simp only [step] at taken
      split at taken <;> rename_i copied
      · cases taken
        exact .closeServer copied
      · cases taken
  | readRoutine str_len =>
      simp only [step, Option.bind_eq_bind, Option.bind_eq_some_iff] at taken
      obtain ⟨⟨block, down⟩, returned, taken⟩ := taken
      have reads := Direction.reads_of_read returned
      split at taken <;> rename_i point
      · split at taken <;> rename_i ended
        · cases taken
          subst ended
          have none : block = [] := List.length_eq_zero_iff.mp reads.length
          subst none
          exact .readerEnded point reads
        · split at taken <;> rename_i stored
          · cases taken
            have outside : ¬ str_len < BUF_SIZE := by simpa [CArray.set?] using stored
            have full := Nat.le_antisymm reads.le (Nat.not_lt.mp outside)
            subst full
            exact .overrun point reads
          · obtain ⟨text, holds, taken⟩ := Option.bind_eq_some_iff.mp taken
            cases taken
            exact .print point ended reads stored holds
      · cases taken

/-! ## Where the typed bytes are -/

/-- The bytes that the worker is about to write. -/
def System.held (s : System) : List Byte :=
  match s.worker with
  | .write str_len => s.workerBuf.cells.take str_len
  | .read | .close | .closed => []

/-- The bytes that the reader has read and not printed. -/
def System.lost (s : System) : List Byte :=
  if s.reader = .overrun then s.readerBuf.cells else []

/-- Where the typed bytes are, and which ends of the connection are closed. -/
structure Conserved (s : System) : Prop where
  typed : s.blocks.flatten ++ s.lost ++ s.down.pending ++ s.held ++ s.up.pending = s.typed
  printed : s.stdout = s.blocks.flatMap message
  plain : 0#8 ∉ s.typed
  shut : s.up.shut = true ↔ s.writer = .returned
  closed : s.down.shut = true ↔ s.worker = .closed ∧ s.copied = false
  ended : s.worker = .close ∨ s.worker = .closed → s.up.pending = [] ∧ s.writer = .returned
  drained : s.reader = .returned → s.down.pending = [] ∧ s.worker = .closed
  fits : ∀ str_len, s.worker = .write str_len → str_len ≤ BUF_SIZE

theorem take_fill {str_len : Nat} {block : List Byte} {d rest : Direction Byte}
    (reads : Direction.Reads BUF_SIZE d str_len block rest) (buf : CArray Byte BUF_SIZE) :
    (buf.fill block).cells.take str_len = block := by
  have length := reads.length
  have small := reads.le
  rw [CArray.cells_fill _ (by omega)]
  exact List.take_left' length

theorem conserved_step {s next : System} {action : Action} (held : Conserved s)
    (taken : step s action = some next) : Conserved next := by
  have typed := held.typed
  have ended := held.ended
  have drained := held.drained
  have shut := held.shut
  have closed := held.closed
  cases step_moves taken with
  | fgets point =>
      have stays : ¬ (s.worker = .close ∨ s.worker = .closed) := by
        intro worker
        have returned := (ended worker).2
        simp [point] at returned
      exact ⟨typed, held.printed, held.plain, by simpa [point] using shut, closed,
        fun worker => absurd worker stays, drained, held.fits⟩
  | @shutdown line point holds quits =>
      refine ⟨by simpa [System.held, System.lost] using typed, held.printed, held.plain,
        by simp, closed, ?_, drained, held.fits⟩
      intro worker
      have returned := (ended worker).2
      simp [point] at returned
  | @writeLine line point holds goesOn =>
      have stays : ¬ (s.worker = .close ∨ s.worker = .closed) := by
        intro worker
        have returned := (ended worker).2
        simp [point] at returned
      refine ⟨?_, held.printed, ?_, by simpa [point] using shut, closed,
        fun worker => absurd worker stays, drained, held.fits⟩
      · simp only [System.held, System.lost, Direction.pending_write] at typed ⊢
        rw [← typed]
        simp
      · have plain := CArray.zero_notMem_of_cString? holds
        simp [held.plain, plain]
  | @readEnded up point reads =>
      obtain ⟨empty, upShut, rfl⟩ := reads.ended_of_nil rfl
      have open_ : ¬ s.down.shut = true := fun down => by
        have worker := (closed.mp down).1
        simp [point] at worker
      refine ⟨?_, held.printed, held.plain, shut, by simpa using open_,
        fun _ => ⟨empty, shut.mp upShut⟩, ?_, by simp⟩
      · simpa [System.held, System.lost, point] using typed
      · intro returned
        have worker := (drained returned).2
        simp [point] at worker
  | @read str_len block up point positive reads =>
      have open_ : ¬ s.down.shut = true := fun down => by
        have worker := (closed.mp down).1
        simp [point] at worker
      have bound := reads.le
      refine ⟨?_, held.printed, held.plain, by simpa [reads.shut] using shut,
        by simpa using open_, by simp, ?_, by simpa using bound⟩
      · have split := reads.split
        simp only [System.held, System.lost, point, List.append_nil] at typed ⊢
        rw [take_fill reads, List.append_assoc, split, typed]
      · intro returned
        have worker := (drained returned).2
        simp [point] at worker
  | @write str_len point =>
      have open_ : ¬ s.down.shut = true := fun down => by
        have worker := (closed.mp down).1
        simp [point] at worker
      refine ⟨?_, held.printed, held.plain, shut, by simpa using open_, by simp, ?_, by simp⟩
      · simp only [System.held, System.lost, point, Direction.pending_write] at typed ⊢
        rw [← typed]
        simp
      · intro returned
        have worker := (drained returned).2
        simp [point] at worker
  | closeWorker point =>
      have pending : (if s.copied then s.down else s.down.shutdown).pending =
          s.down.pending := by
        split <;> rfl
      have open_ : s.down.shut = false := by
        simpa [point] using closed
      refine ⟨?_, held.printed, held.plain, shut, ?_, fun _ => ended (.inl point), ?_,
        by simp⟩
      · simpa only [System.held, System.lost, point, pending] using typed
      · cases s.copied <;> simp [open_]
      · intro returned
        have worker := (drained returned).2
        simp [point] at worker
  | closeServer copied =>
      have pending : (if s.worker = .closed then s.down.shutdown else s.down).pending =
          s.down.pending := by
        split <;> rfl
      have open_ : s.down.shut = false := by
        simpa [copied] using closed
      refine ⟨?_, held.printed, held.plain, shut, ?_, ended, ?_, held.fits⟩
      · simpa only [System.held, System.lost, pending] using typed
      · by_cases worker : s.worker = .closed <;> simp [worker, open_]
      · simpa only [pending] using drained
  | @readerEnded down point reads =>
      obtain ⟨empty, downShut, rfl⟩ := reads.ended_of_nil rfl
      refine ⟨?_, held.printed, held.plain, shut, closed, ended,
        fun _ => ⟨empty, (closed.mp downShut).1⟩, held.fits⟩
      simpa [System.held, System.lost, point] using typed
  | @overrun block down point reads =>
      refine ⟨?_, held.printed, held.plain, shut, by simpa [reads.shut] using closed, ended,
        by simp, held.fits⟩
      have split := reads.split
      simp only [System.held, System.lost, point, reduceCtorEq, if_false, if_true,
        List.append_nil] at typed ⊢
      rw [CArray.cells_fill_full _ reads.length, List.append_assoc _ block, split, typed]
  | @print str_len block text down buf point positive reads stored holds =>
      have split := reads.split
      have lost : s.lost = [] := by simp [System.lost, point]
      have isText : text = block := by
        have length := reads.length
        subst length
        rw [CArray.cString?_terminated stored] at holds
        have plain : 0#8 ∉ block := by
          have plain := held.plain
          rw [← typed, ← split] at plain
          simp only [List.mem_append, not_or] at plain
          exact plain.1.1.2.1
        exact (Option.some.inj holds).symm.trans (cString_of_notMem plain)
      refine ⟨?_, ?_, held.plain, shut, by simpa [reads.shut] using closed, ended,
        by simp [point], held.fits⟩
      · rw [lost] at typed
        simp only [System.held, System.lost, point, reduceCtorEq, if_false,
          List.append_nil, List.flatten_append, List.flatten_singleton] at typed ⊢
        rw [List.append_assoc _ block, split, typed]
      · simp [held.printed, isText]

/-! ## What the user types -/

/-- A `stdin` with a line to quit by, and what the lines in front of it say. -/
inductive Speaks : List Byte → List Byte → Prop where
  | quits {stdin : List Byte}
      (quits : Quits (cString (Stdio.takeLine (BUF_SIZE - 1) stdin).taken)) :
      Speaks stdin []
  | line {stdin later : List Byte}
      (typed : (Stdio.takeLine (BUF_SIZE - 1) stdin).taken ≠ [])
      (goesOn : ¬ Quits (cString (Stdio.takeLine (BUF_SIZE - 1) stdin).taken))
      (rest : Speaks (Stdio.takeLine (BUF_SIZE - 1) stdin).rest later) :
      Speaks stdin (cString (Stdio.takeLine (BUF_SIZE - 1) stdin).taken ++ later)

/-- What the writer is still to send. -/
inductive Later (s : System) : List Byte → Prop where
  | fgets {later : List Byte} (point : s.writer = .fgets)
      (speaks : Speaks s.stdin.rest later) : Later s later
  | quits {line : List Byte} (point : s.writer = .write)
      (holds : s.writerBuf.cString? = some line) (quits : Quits line) : Later s []
  | write {line later : List Byte} (point : s.writer = .write)
      (holds : s.writerBuf.cString? = some line) (goesOn : ¬ Quits line)
      (speaks : Speaks s.stdin.rest later) : Later s (line ++ later)
  | returned (point : s.writer = .returned) : Later s []

def Speaking (text : List Byte) (s : System) : Prop :=
  ∃ later, s.typed ++ later = text ∧ Later s later

theorem Speaks.typed {stdin text : List Byte} (speaks : Speaks stdin text) :
    (Stdio.takeLine (BUF_SIZE - 1) stdin).taken ≠ [] := by
  cases speaks with
  | quits quits =>
      intro none
      rw [none] at quits
      revert quits
      decide
  | line typed goesOn rest => exact typed

theorem speaking_step {text : List Byte} {s next : System} {action : Action}
    (speaking : Speaking text s) (taken : step s action = some next) :
    Speaking text next := by
  obtain ⟨later, split, ahead⟩ := speaking
  cases step_moves taken with
  | fgets point =>
      cases ahead with
      | fgets _ speaks =>
          obtain ⟨holds, rest⟩ :=
            Stdio.fgets_line (show 0 < BUF_SIZE by decide) s.writerBuf speaks.typed
          refine ⟨later, split, ?_⟩
          cases speaks with
          | quits quits => exact .quits rfl holds quits
          | line typed goesOn speaks =>
              exact .write rfl holds goesOn (by simpa [rest] using speaks)
      | quits other => simp [point] at other
      | write other => simp [point] at other
      | returned other => simp [point] at other
  | @shutdown line point holds quits =>
      cases ahead with
      | fgets other => simp [point] at other
      | quits => exact ⟨[], split, .returned rfl⟩
      | write _ also goesOn =>
          rw [holds] at also
          cases also
          exact absurd quits goesOn
      | returned other => simp [point] at other
  | @writeLine line point holds goesOn =>
      cases ahead with
      | fgets other => simp [point] at other
      | quits _ also quits =>
          rw [holds] at also
          cases also
          exact absurd quits goesOn
      | @write _ later _ also _ speaks =>
          rw [holds] at also
          cases also
          exact ⟨later, by simpa using split, .fgets rfl speaks⟩
      | returned other => simp [point] at other
  | _ =>
      refine ⟨later, split, ?_⟩
      cases ahead with
      | fgets point speaks => exact .fgets point speaks
      | quits point holds quits => exact .quits point holds quits
      | write point holds goesOn speaks => exact .write point holds goesOn speaks
      | returned point => exact .returned point

/-! ## How long a run is -/

def System.writerWork (s : System) : Nat :=
  match s.writer with
  | .write => 1 + 3 * (s.writerBuf.cString?.getD []).length
  | .fgets | .returned => 0

def WorkerPoint.work : WorkerPoint → Nat
  | .read => 2
  | .write str_len => 3 + str_len
  | .close => 1
  | .closed => 0

/-- A byte in front of the writer is worth five steps: it can be a line of its own. -/
def System.work (s : System) : Nat :=
  5 * s.stdin.rest.length + s.writerWork + 3 * s.up.pending.length + s.worker.work +
    s.down.pending.length + (if s.copied then 1 else 0) + if s.reader = .read then 1 else 0

theorem work_lowers {text : List Byte} {s next : System} {action : Action}
    (speaking : Speaking text s) (taken : step s action = some next) :
    next.work < s.work := by
  cases step_moves taken with
  | fgets point =>
      obtain ⟨later, split, ahead⟩ := speaking
      cases ahead with
      | fgets _ speaks =>
          obtain ⟨holds, rest⟩ :=
            Stdio.fgets_line (show 0 < BUF_SIZE by decide) s.writerBuf speaks.typed
          have length := congrArg List.length
            (Stdio.takeLine_split (BUF_SIZE - 1) s.stdin.rest)
          rw [List.length_append] at length
          have typed := List.length_pos_of_ne_nil speaks.typed
          have short := length_cString_le
            (Stdio.takeLine (BUF_SIZE - 1) s.stdin.rest).taken
          simp only [System.work, System.writerWork, point, holds, rest, Option.getD_some]
          omega
      | quits other => simp [point] at other
      | write other => simp [point] at other
      | returned other => simp [point] at other
  | @shutdown line point holds quits =>
      simp only [System.work, System.writerWork, point, Direction.pending_shutdown]
      omega
  | @writeLine line point holds goesOn =>
      simp only [System.work, System.writerWork, point, holds, Option.getD_some,
        Direction.pending_write, List.length_append]
      omega
  | @readEnded up point reads =>
      obtain ⟨_, _, rfl⟩ := reads.ended_of_nil rfl
      simp only [System.work, System.writerWork, WorkerPoint.work, point]
      omega
  | @read str_len block up point positive reads =>
      have length := congrArg List.length reads.split
      rw [List.length_append, reads.length] at length
      simp only [System.work, System.writerWork, WorkerPoint.work, point]
      omega
  | @write str_len point =>
      simp only [System.work, System.writerWork, WorkerPoint.work, point,
        Direction.pending_write, List.length_append, List.length_take]
      omega
  | closeWorker point =>
      have pending : (if s.copied then s.down else s.down.shutdown).pending =
          s.down.pending := by
        split <;> rfl
      simp only [System.work, System.writerWork, WorkerPoint.work, point, pending]
      omega
  | closeServer copied =>
      have pending : (if s.worker = .closed then s.down.shutdown else s.down).pending =
          s.down.pending := by
        split <;> rfl
      simp only [System.work, System.writerWork, copied, pending, if_true, Bool.false_eq_true,
        if_false]
      omega
  | @readerEnded down point reads =>
      obtain ⟨_, _, rfl⟩ := reads.ended_of_nil rfl
      simp only [System.work, System.writerWork, point, if_true, reduceCtorEq, if_false]
      omega
  | @overrun block down point reads =>
      have length := congrArg List.length reads.split
      rw [List.length_append, reads.length] at length
      simp only [System.work, System.writerWork, point, if_true, reduceCtorEq, if_false]
      omega
  | @print str_len block text down buf point positive reads stored holds =>
      have length := congrArg List.length reads.split
      rw [List.length_append, reads.length] at length
      simp only [System.work, System.writerWork, point, if_true]
      omega

/-! ## Who can go on -/

/-- The writer has shut its direction down and the worker has closed its own. -/
def System.Sent (s : System) : Prop := s.writer = .returned ∧ s.worker = .closed

def System.Finished (s : System) : Prop := s.Sent ∧ s.copied = false ∧ s.reader ≠ .read

/-- The steps of the other processes. -/
def Action.Sends : Action → Prop
  | .readRoutine _ => False
  | _ => True

theorem sends_frame {s next : System} {action : Action} (sends : action.Sends)
    (taken : step s action = some next) :
    next.reader = s.reader ∧ next.blocks = s.blocks := by
  cases step_moves taken with
  | readerEnded => exact absurd sends not_false
  | overrun => exact absurd sends not_false
  | print => exact absurd sends not_false
  | _ => exact ⟨rfl, rfl⟩

theorem sender_progress {text : List Byte} {s : System} (held : Conserved s)
    (speaking : Speaking text s) (unfinished : ¬ s.Sent) :
    ∃ action, action.Sends ∧ ∃ next, step s action = some next := by
  cases point : s.writer with
  | fgets => exact ⟨.fgets, trivial, by simp [step, point]⟩
  | write =>
      obtain ⟨later, split, ahead⟩ := speaking
      cases ahead with
      | fgets other => simp [point] at other
      | quits _ holds quits =>
          exact ⟨.writeRoutine, trivial, by simp [step, holds, point, quits]⟩
      | write _ holds goesOn =>
          exact ⟨.writeRoutine, trivial, by simp [step, holds, point, goesOn]⟩
      | returned other => simp [point] at other
  | returned =>
      cases worker : s.worker with
      | read =>
          obtain ⟨count, block, up, _, returned⟩ :=
            Direction.read_isSome (show 0 < BUF_SIZE by decide)
              (.inr (held.shut.mpr point) : s.up.pending ≠ [] ∨ s.up.shut = true)
          exact ⟨.read count, trivial, by simp [step, returned, worker]⟩
      | write str_len =>
          have fits := held.fits str_len worker
          obtain ⟨bytes, copied⟩ : ∃ bytes, s.workerBuf.read? 0 str_len = some bytes :=
            ⟨_, CArray.read?_eq_some.mpr ⟨by omega, rfl⟩⟩
          exact ⟨.write, trivial, by simp [step, worker, copied]⟩
      | close => exact ⟨.closeWorker, trivial, by simp [step, worker]⟩
      | closed => exact absurd ⟨point, worker⟩ unfinished

theorem reader_progress {s : System} (closed : s.down.shut = true)
    (reader : s.reader = .read) : ∃ action next, step s action = some next := by
  obtain ⟨count, block, down, small, returned⟩ :=
    Direction.read_isSome (show 0 < BUF_SIZE by decide)
      (.inr closed : s.down.pending ≠ [] ∨ s.down.shut = true)
  have length := (Direction.reads_of_read returned).length
  subst length
  by_cases ended : block.length = 0
  · rw [ended] at returned
    exact ⟨.readRoutine 0, by simp [step, returned, reader]⟩
  · obtain ⟨buf, stored⟩ : ∃ buf,
        (s.readerBuf.fill block).set? block.length 0#8 = some buf := by
      have inside : block.length < BUF_SIZE := Nat.lt_of_le_of_lt small (by decide)
      simp [CArray.set?, inside]
    have holds := CArray.cString?_terminated stored
    exact ⟨.readRoutine block.length, by simp [step, returned, reader, ended, stored, holds]⟩

theorem progress {text : List Byte} {s : System} (held : Conserved s)
    (speaking : Speaking text s) (unfinished : ¬ s.Finished) :
    ∃ action next, step s action = some next := by
  by_cases sent : s.Sent
  · by_cases copied : s.copied = true
    · exact ⟨.closeServer, by simp [step, copied]⟩
    · have closed : s.copied = false := by simpa using copied
      have reader : s.reader = .read := by
        by_contra ended
        exact unfinished ⟨sent, closed, ended⟩
      exact reader_progress (held.closed.mpr ⟨sent.2, closed⟩) reader
  · obtain ⟨action, _, possible⟩ := sender_progress held speaking sent
    exact ⟨action, possible⟩

/-! ## What the user sees -/

section runs

variable {writerBuf workerBuf readerBuf : CArray Byte BUF_SIZE} {stdin text : List Byte}

theorem conserved_initial :
    Conserved (System.initial writerBuf workerBuf readerBuf stdin) where
  typed := rfl
  printed := rfl
  plain := by simp [System.initial]
  shut := by simp [System.initial, Direction.fresh]
  closed := by simp [System.initial, Direction.fresh]
  ended := by simp [System.initial]
  drained := by simp [System.initial]
  fits := by simp [System.initial]

theorem speaking_initial (speaks : Speaks stdin text) :
    Speaking text (System.initial writerBuf workerBuf readerBuf stdin) :=
  ⟨text, rfl, .fgets rfl speaks⟩

theorem sound_run (speaks : Speaks stdin text) {actions : List Action} {s : System}
    (reached : run step (System.initial writerBuf workerBuf readerBuf stdin) actions =
      some s) : Conserved s ∧ Speaking text s :=
  run_invariant_of_step (fun s => Conserved s ∧ Speaking text s)
    (fun held taken => ⟨conserved_step held.1 taken, speaking_step held.2 taken⟩)
    ⟨conserved_initial, speaking_initial speaks⟩ reached

theorem Conserved.typed_of_sent {s : System} (held : Conserved s) (sent : s.Sent)
    (speaking : Speaking text s) :
    s.blocks.flatten ++ s.lost ++ s.down.pending = text := by
  obtain ⟨point, worker⟩ := sent
  obtain ⟨later, split, ahead⟩ := speaking
  have typed := held.typed
  have empty := (held.ended (.inr worker)).1
  simp only [System.held, worker, empty, List.append_nil] at typed
  cases ahead with
  | fgets other => simp [point] at other
  | quits other => simp [point] at other
  | write other => simp [point] at other
  | returned => rw [typed, ← split, List.append_nil]

/-- However the lines are cut and joined on their way, the user sees the front of what
was typed, in order.  Every run is bounded and none is stuck, and unless a block fills the
buffer of the reader it ends with the whole text on the screen. -/
theorem text_echoed (speaks : Speaks stdin text) {actions : List Action} {s : System}
    (reached : run step (System.initial writerBuf workerBuf readerBuf stdin) actions =
      some s) :
    (s.stdout = s.blocks.flatMap message ∧ s.blocks.flatten <+: text) ∧
      (actions.length ≤ 5 * stdin.length + 4 ∧
        (s.Finished ∨ ∃ action next, step s action = some next)) ∧
      (s.Finished → s.reader = .overrun ∨ s.blocks.flatten = text) := by
  obtain ⟨held, speaking⟩ := sound_run speaks reached
  refine ⟨⟨held.printed, ?_⟩, ⟨?_, ?_⟩, ?_⟩
  · obtain ⟨later, split, _⟩ := speaking
    rw [← split, ← held.typed]
    simp only [List.append_assoc]
    exact List.prefix_append _ _
  · have bound := length_le_of_held (fun held _ taken => speaking_step held taken)
      (fun held _ taken => work_lowers held taken) (speaking_initial speaks)
      (Guarded.of_forall (fun _ _ _ => trivial) _) reached
    have start : (System.initial writerBuf workerBuf readerBuf stdin).work =
        5 * stdin.length + 4 := rfl
    omega
  · by_cases finished : s.Finished
    · exact .inl finished
    · exact .inr (progress held speaking finished)
  · rintro ⟨sent, _, ended⟩
    cases reader : s.reader with
    | read => exact absurd reader ended
    | overrun => exact .inl rfl
    | returned =>
        have whole := held.typed_of_sent sent speaking
        have empty := (held.drained reader).1
        right
        simpa [System.lost, reader, empty] using whole

def zeros : CArray Byte BUF_SIZE := CArray.replicate BUF_SIZE 0#8

def twoLines : List Byte := literal "fourteen chars\nfourteen chars\nq\n"

theorem speaks_twoLines : Speaks twoLines (literal "fourteen chars\nfourteen chars\n") := by
  have lines : literal "fourteen chars\nfourteen chars\n" =
      cString (Stdio.takeLine (BUF_SIZE - 1) twoLines).taken ++
        (cString (Stdio.takeLine (BUF_SIZE - 1)
          (Stdio.takeLine (BUF_SIZE - 1) twoLines).rest).taken ++ []) := by
    decide +kernel
  rw [lines]
  exact .line (by decide +kernel) (by decide +kernel)
    (.line (by decide +kernel) (by decide +kernel) (.quits (by decide +kernel)))

/-- The worker sends both lines back in one piece, and the reader reads them in others. -/
theorem text_echoed_twoLines : ∃ actions s,
    run step (System.initial zeros zeros zeros twoLines) actions = some s ∧
      s.stdout = message (literal "fourteen") ++ message (literal " chars\nfourteen chars\n") ∧
        s.blocks.flatten = literal "fourteen chars\nfourteen chars\n" := by
  have shape : (run step (System.initial zeros zeros zeros twoLines)
      [.fgets, .writeRoutine, .fgets, .writeRoutine, .read 30, .fgets, .writeRoutine, .write,
        .readRoutine 8, .read 0, .closeWorker, .readRoutine 22, .closeServer,
        .readRoutine 0]).any
      (fun s => s.writer = .returned ∧ s.worker = .closed ∧ s.copied = false ∧
        s.reader = .returned ∧ s.stdout = message (literal "fourteen") ++
          message (literal " chars\nfourteen chars\n")) = true := by
    decide +kernel
  obtain ⟨s, reached, shaped⟩ := (Option.any_eq_true _ _).mp shape
  obtain ⟨point, worker, copied, reader, stdout⟩ := of_decide_eq_true shaped
  have finished : s.Finished := ⟨⟨point, worker⟩, copied, by simp [reader]⟩
  refine ⟨_, s, reached, stdout, ?_⟩
  exact ((text_echoed speaks_twoLines reached).2.2 finished).resolve_left (by simp [reader])

/-- Some order of the steps makes the reader write behind its buffer, exactly when enough
is typed to fill it. -/
theorem overrun_iff (speaks : Speaks stdin text) :
    (∃ actions s, run step (System.initial writerBuf workerBuf readerBuf stdin) actions =
        some s ∧ s.reader = .overrun) ↔ BUF_SIZE ≤ text.length := by
  constructor
  · rintro ⟨actions, s, reached, overrun⟩
    obtain ⟨held, later, split, _⟩ := sound_run speaks reached
    have length := congrArg List.length held.typed
    have total := congrArg List.length split
    have full := s.readerBuf.length_cells
    simp only [System.lost, overrun, if_true, List.length_append] at length total
    omega
  · intro long
    obtain ⟨actions, s, reached, ⟨⟨held, speaking⟩, reader, none⟩, sent⟩ :=
      @exists_run_of_held _ _ step System.work
        (fun s => (Conserved s ∧ Speaking text s) ∧ s.reader = .read ∧ s.blocks = [])
        System.Sent
        (by
          rintro s ⟨⟨held, speaking⟩, reader, none⟩ unfinished
          obtain ⟨action, sends, next, taken⟩ := sender_progress held speaking unfinished
          obtain ⟨sameReader, sameBlocks⟩ := sends_frame sends taken
          exact ⟨action, next, taken,
            ⟨⟨conserved_step held taken, speaking_step speaking taken⟩,
              sameReader.trans reader, sameBlocks.trans none⟩, work_lowers speaking taken⟩)
        (System.initial writerBuf workerBuf readerBuf stdin)
        ⟨⟨conserved_initial, speaking_initial speaks⟩, rfl, rfl⟩
    have whole := held.typed_of_sent sent speaking
    have there : BUF_SIZE ≤ s.down.pending.length := by
      simp only [none, System.lost, reader, reduceCtorEq, if_false, List.flatten_nil,
        List.nil_append] at whole
      rwa [whole]
    have positive : BUF_SIZE ≠ 0 := by decide
    refine ⟨actions ++ [.readRoutine BUF_SIZE], { s with
      readerBuf := s.readerBuf.fill (s.down.pending.take BUF_SIZE)
      down := { s.down with pending := s.down.pending.drop BUF_SIZE }
      reader := .overrun }, ?_, rfl⟩
    rw [run_snoc, reached, Option.bind_some]
    simp only [step, Direction.read, positive, if_false, Nat.le_refl, there, and_self, if_true,
      Option.bind_eq_bind, Option.bind_some, reader, CArray.set?, Nat.lt_irrefl]

theorem overrun_iff_twoLines : ∃ actions s,
    run step (System.initial zeros zeros zeros twoLines) actions = some s ∧
      s.reader = .overrun :=
  (overrun_iff speaks_twoLines).mpr (by decide +kernel)

end runs

end NetworkProgramming.Hw5.Practice.EchoDuplex
