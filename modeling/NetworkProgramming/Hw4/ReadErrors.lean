import NetworkProgramming.Foundation.Stdio
import NetworkProgramming.Hw4

/-!
# The receive loop of `hw4_client` when `read` fails

The loop stops only when `read` returns 0.  An error returns -1, which is passed on to
`fwrite` as a `size_t`.
-/

namespace NetworkProgramming.Hw4

open MachineInt Stdio Transition

/-- What a `read` that succeeds puts into `buf`. -/
structure Piece where
  bytes : List Byte
  nonempty : 1 ≤ bytes.length
  inside : bytes.length ≤ BUF_SIZE

/-- What `read` returns once the pieces are used up, now and from then on. -/
inductive Ending where
  | endOfStream
  | error
deriving DecidableEq

/-- The results of the reads, one after another. -/
structure Reads where
  pieces : List Piece
  ending : Ending

/-- Where the receiving loop is, with the result of `read` as an `int`. -/
inductive ReceivePoint where
  | read
  | fwrite (read_cnt : Int)
  /-- Behind the loop. -/
  | done
deriving DecidableEq

/-- The client in its first loop, in front of all that `read` will return. -/
structure Receiver where
  point : ReceivePoint
  buf : CArray Byte BUF_SIZE
  /-- What `read` will still return. -/
  pieces : List Piece
  /-- The stream of `copy.txt`. -/
  fp : UpdateStream

def Receiver.initial (pieces : List Piece) (buf : CArray Byte BUF_SIZE) : Receiver where
  point := .read
  buf := buf
  pieces := pieces
  fp := UpdateStream.truncated

/-- `read(sd, buf, BUF_SIZE)`: what it returns, and the state behind it. -/
def Receiver.read (ending : Ending) (s : Receiver) : Int × Receiver :=
  match s.pieces, ending with
  | piece :: pieces, _ =>
      (piece.bytes.length, { s with buf := s.buf.fill piece.bytes, pieces := pieces })
  | [], .endOfStream => (0, s)
  | [], .error => (-1, s)

/-- The two calls of the loop. -/
inductive ReceiveAction where
  | read
  | fwrite

def receive (ending : Ending) (s : Receiver) : ReceiveAction → Option Receiver
  | .read =>
      match s.point with
      | .read =>
          let (read_cnt, next) := s.read ending
          if read_cnt ≠ 0 then some { next with point := .fwrite read_cnt }
          else some { next with point := .done }
      | _ => none
  | .fwrite =>
      match s.point with
      | .fwrite read_cnt => do
          let bytes ← s.buf.read? 0 (sizeT read_cnt)
          return { s with fp := s.fp.fwrite bytes, point := .read }
      | _ => none

/-- The loop ends, every `fwrite` in it is of 1 to 1024 bytes, and it leaves what was
received in the file. -/
structure Receives (reads : Reads) (buf : CArray Byte BUF_SIZE) : Prop where
  ends : ∀ actions s,
    run (receive reads.ending) (Receiver.initial reads.pieces buf) actions = some s →
      actions.length ≤ 2 * reads.pieces.length + 1 ∧
        (s.point = .done ∨ ∃ action next, receive reads.ending s action = some next)
  lengths : ∀ actions s read_cnt,
    run (receive reads.ending) (Receiver.initial reads.pieces buf) actions = some s →
      s.point = .fwrite read_cnt → 1 ≤ sizeT read_cnt ∧ sizeT read_cnt ≤ BUF_SIZE
  copies : ∀ actions s,
    run (receive reads.ending) (Receiver.initial reads.pieces buf) actions = some s →
      s.point = .done → s.fp.content = reads.pieces.flatMap Piece.bytes

/-! ## What a step does -/

/-- A step, by its call and what it finds. -/
inductive ReceiveMoves (ending : Ending) (s : Receiver) : ReceiveAction → Receiver → Prop
  where
  | piece (piece : Piece) (pieces : List Piece) (point : s.point = .read)
      (more : s.pieces = piece :: pieces) :
      ReceiveMoves ending s .read { s with
        buf := s.buf.fill piece.bytes
        pieces := pieces
        point := .fwrite piece.bytes.length }
  | endOfStream (point : s.point = .read) (drained : s.pieces = [])
      (ended : ending = .endOfStream) :
      ReceiveMoves ending s .read { s with point := .done }
  | error (point : s.point = .read) (drained : s.pieces = [])
      (failed : ending = .error) :
      ReceiveMoves ending s .read { s with point := .fwrite (-1) }
  | fwrite (read_cnt : Int) (point : s.point = .fwrite read_cnt)
      (inside : sizeT read_cnt ≤ BUF_SIZE) :
      ReceiveMoves ending s .fwrite { s with
        fp := s.fp.fwrite (s.buf.cells.take (sizeT read_cnt))
        point := .read }

section step

variable {ending : Ending} {s next : Receiver} {action : ReceiveAction}

theorem receive_piece {piece : Piece} {pieces : List Piece} (point : s.point = .read)
    (more : s.pieces = piece :: pieces) :
    receive ending s .read = some { s with
      buf := s.buf.fill piece.bytes
      pieces := pieces
      point := .fwrite piece.bytes.length } := by
  have nonempty : piece.bytes ≠ [] := List.ne_nil_of_length_pos piece.nonempty
  simp [receive, Receiver.read, point, more, nonempty]

theorem receive_endOfStream (point : s.point = .read) (drained : s.pieces = []) :
    receive .endOfStream s .read = some { s with point := .done } := by
  simp [receive, Receiver.read, point, drained]

theorem receive_error (point : s.point = .read) (drained : s.pieces = []) :
    receive .error s .read = some { s with point := .fwrite (-1) } := by
  simp [receive, Receiver.read, point, drained]

theorem receive_fwrite {read_cnt : Int} (point : s.point = .fwrite read_cnt)
    (inside : sizeT read_cnt ≤ BUF_SIZE) :
    receive ending s .fwrite = some { s with
      fp := s.fp.fwrite (s.buf.cells.take (sizeT read_cnt))
      point := .read } := by
  simp [receive, point, CArray.read?, inside]

theorem receive_moves (taken : receive ending s action = some next) :
    ReceiveMoves ending s action next := by
  cases action with
  | read =>
      cases point : s.point with
      | read =>
          cases left : s.pieces with
          | cons piece pieces =>
              rw [receive_piece point left] at taken
              cases taken
              exact .piece piece pieces point left
          | nil =>
              cases ending with
              | endOfStream =>
                  rw [receive_endOfStream point left] at taken
                  cases taken
                  exact .endOfStream point left rfl
              | error =>
                  rw [receive_error point left] at taken
                  cases taken
                  exact .error point left rfl
      | fwrite read_cnt => simp [receive, point] at taken
      | done => simp [receive, point] at taken
  | fwrite =>
      simp only [receive] at taken
      split at taken <;> rename_i point
      · simp only [Option.bind_eq_bind, Option.bind_eq_some_iff] at taken
        obtain ⟨bytes, copied, result⟩ := taken
        cases result
        obtain ⟨inside, rfl⟩ := CArray.read?_eq_some.mp copied
        exact .fwrite _ point (by omega)
      · cases taken

end step

/-! ## The loop to the end of the stream -/

/-- What has been read and not yet written. -/
def Receiver.pending (s : Receiver) : List Byte :=
  match s.point with
  | .fwrite read_cnt => s.buf.cells.take (sizeT read_cnt)
  | _ => []

/-- The file, the buffer and the pieces to come are what is received. -/
structure Receiving (received : List Byte) (s : Receiver) : Prop where
  bytes : s.fp.content ++ s.pending ++ s.pieces.flatMap Piece.bytes = received
  file : s.fp = UpdateStream.behind s.fp.content
  length : ∀ read_cnt, s.point = .fwrite read_cnt →
    1 ≤ sizeT read_cnt ∧ sizeT read_cnt ≤ BUF_SIZE
  drained : s.point = .done → s.pieces = []

theorem sizeT_piece (piece : Piece) : sizeT piece.bytes.length = piece.bytes.length := by
  have inside := piece.inside
  have size : BUF_SIZE = 1024 := rfl
  exact sizeT_natCast (by omega)

theorem receiving_step {received : List Byte} {s next : Receiver} {action : ReceiveAction}
    (held : Receiving received s) (taken : receive .endOfStream s action = some next) :
    Receiving received next := by
  have bytes := held.bytes
  cases receive_moves taken with
  | piece piece pieces point more =>
      simp only [Receiver.pending, point, more, List.append_nil, List.flatMap_cons] at bytes
      refine ⟨?_, held.file, ?_, by simp⟩
      · simp only [Receiver.pending, sizeT_piece]
        rw [CArray.cells_fill _ piece.inside, List.take_left' rfl]
        simpa using bytes
      · rintro _ ⟨⟩
        rw [sizeT_piece]
        exact ⟨piece.nonempty, piece.inside⟩
  | endOfStream point drained =>
      simp only [Receiver.pending, point] at bytes
      exact ⟨bytes, held.file, by simp, fun _ => drained⟩
  | error point drained failed => cases failed
  | fwrite read_cnt point inside =>
      simp only [Receiver.pending, point] at bytes
      refine ⟨?_, ?_, by simp, by simp⟩
      · rw [held.file, UpdateStream.fwrite_behind]
        simpa [Receiver.pending, UpdateStream.behind] using bytes
      · rw [held.file, UpdateStream.fwrite_behind]
        rfl

theorem receiving_initial (pieces : List Piece) (buf : CArray Byte BUF_SIZE) :
    Receiving (pieces.flatMap Piece.bytes) (Receiver.initial pieces buf) where
  bytes := rfl
  file := rfl
  length := by simp [Receiver.initial]
  drained := by simp [Receiver.initial]

def ReceivePoint.work : ReceivePoint → Nat
  | .read => 1
  | .fwrite _ => 2
  | .done => 0

def Receiver.work (s : Receiver) : Nat := 2 * s.pieces.length + s.point.work

theorem receive_work_lowers {s next : Receiver} {action : ReceiveAction}
    (taken : receive .endOfStream s action = some next) : next.work < s.work := by
  cases receive_moves taken with
  | piece piece pieces point more =>
      simp only [Receiver.work, point, more, ReceivePoint.work, List.length_cons]
      omega
  | endOfStream point drained => simp [Receiver.work, point, ReceivePoint.work]
  | error point drained failed => cases failed
  | fwrite read_cnt point inside => simp [Receiver.work, point, ReceivePoint.work]

theorem receive_progress {received : List Byte} {s : Receiver}
    (held : Receiving received s) (unfinished : s.point ≠ .done) :
    ∃ action next, receive .endOfStream s action = some next := by
  cases point : s.point with
  | read =>
      cases left : s.pieces with
      | nil => exact ⟨.read, _, receive_endOfStream point left⟩
      | cons piece pieces => exact ⟨.read, _, receive_piece point left⟩
  | fwrite read_cnt =>
      exact ⟨.fwrite, _, receive_fwrite point (held.length read_cnt point).2⟩
  | done => exact absurd point unfinished

theorem receives_endOfStream (pieces : List Piece) (buf : CArray Byte BUF_SIZE) :
    Receives ⟨pieces, .endOfStream⟩ buf := by
  have held {actions : List ReceiveAction} {s : Receiver}
      (reached : run (receive .endOfStream) (Receiver.initial pieces buf) actions = some s) :
      Receiving (pieces.flatMap Piece.bytes) s :=
    run_invariant_of_step (Receiving _) (fun held taken => receiving_step held taken)
      (receiving_initial pieces buf) reached
  constructor
  · intro actions s reached
    obtain ⟨bound, goesOn⟩ :=
      ends_of_measure receive_work_lowers receive_progress (held reached) reached
    exact ⟨bound, goesOn⟩
  · intro actions s read_cnt reached point
    exact (held reached).length read_cnt point
  · intro actions s reached finished
    have bytes := (held reached).bytes
    simpa [Receiver.pending, finished, (held reached).drained finished] using bytes

/-! ## The loop to an error -/

theorem exists_drained {ending : Ending} {s : Receiver} (point : s.point = .read) :
    ∃ actions final, run (receive ending) s actions = some final ∧
      final.point = .read ∧ final.pieces = [] := by
  obtain ⟨pieces, same⟩ : ∃ pieces, s.pieces = pieces := ⟨_, rfl⟩
  induction pieces generalizing s with
  | nil => exact ⟨[], s, rfl, point, same⟩
  | cons piece pieces induction =>
      have inside : sizeT piece.bytes.length ≤ BUF_SIZE := by
        rw [sizeT_piece]
        exact piece.inside
      obtain ⟨actions, final, ran, ended⟩ := @induction { s with
        buf := s.buf.fill piece.bytes
        pieces := pieces
        fp := s.fp.fwrite ((s.buf.fill piece.bytes).cells.take (sizeT piece.bytes.length))
        point := .read } rfl rfl
      refine ⟨.read :: .fwrite :: actions, final, ?_, ended⟩
      rw [run_cons, receive_piece point same, Option.bind_some, run_cons,
        receive_fwrite rfl inside, Option.bind_some, ran]

/-- Behind the last piece the loop goes on to an `fwrite` of `2^64 - 1` bytes. -/
theorem not_receives_of_error (pieces : List Piece) (buf : CArray Byte BUF_SIZE) :
    ¬ Receives ⟨pieces, .error⟩ buf := by
  intro receives
  obtain ⟨actions, s, ran, point, drained⟩ :=
    @exists_drained .error (Receiver.initial pieces buf) rfl
  have reached : run (receive .error) (Receiver.initial pieces buf) (actions ++ [.read]) =
      some { s with point := .fwrite (-1) } := by
    rw [run_snoc, ran, Option.bind_some, receive_error point drained]
  have length := (receives.lengths _ _ (-1) reached rfl).2
  exact absurd length (by decide)

/-- The loop receives as it should exactly when the reads end with the end of the stream
and not with an error. -/
theorem receives_iff (reads : Reads) (buf : CArray Byte BUF_SIZE) :
    Receives reads buf ↔ reads.ending = .endOfStream := by
  obtain ⟨pieces, ending⟩ := reads
  cases ending with
  | endOfStream => exact ⟨fun _ => rfl, fun _ => receives_endOfStream pieces buf⟩
  | error =>
      constructor
      · intro receives
        exact absurd receives (not_receives_of_error pieces buf)
      · rintro ⟨⟩

/-- The connection is reset behind one byte. -/
theorem reset_not_received :
    ¬ Receives ⟨[⟨[1#8], by decide, by decide⟩], .error⟩ (CArray.replicate BUF_SIZE 0#8) :=
  not_receives_of_error _ _

/-! ## The client of the transfer -/

def ClientPoint.receivePoint : ClientPoint → ReceivePoint
  | .read => .read
  | .fwrite read_cnt => .fwrite read_cnt
  | .done => .done

/-- The client of a transfer that is going to read these pieces. -/
def System.receiver (s : System) (pieces : List Piece) : Receiver where
  point := s.client.receivePoint
  buf := s.clientBuf
  pieces := pieces
  fp := UpdateStream.behind s.copy

theorem run_done {ending : Ending} {s final : Receiver} {actions : List ReceiveAction}
    (done : s.point = .done) (ran : run (receive ending) s actions = some final) :
    s = final := by
  cases actions with
  | nil => exact Option.some.inj ran
  | cons action actions =>
      obtain ⟨next, taken, _⟩ := run_cons_eq_some.mp ran
      cases receive_moves taken with
      | piece piece pieces point | endOfStream point | error point | fwrite read_cnt point =>
          rw [done] at point
          cases point

/-- In every run of the transfer the client runs this loop, on the pieces in which it
gets the stream. -/
theorem transfer_receives {s final : System} {actions : List Action}
    (reached : run step s actions = some final) :
    ∃ pieces later, run (receive .endOfStream) (s.receiver pieces) later =
      some (final.receiver []) := by
  induction actions generalizing s with
  | nil =>
      cases reached
      exact ⟨[], [], rfl⟩
  | cons action actions induction =>
      obtain ⟨next, taken, rest⟩ := run_cons_eq_some.mp reached
      obtain ⟨pieces, later, ran⟩ := induction rest
      cases step_moves taken with
      | fread | writeLast | writeBlock | shutdown => exact ⟨pieces, later, ran⟩
      | read read_cnt point size =>
          have length : (s.stream.take read_cnt).length = read_cnt := by
            rw [List.length_take]
            omega
          let piece : Piece := ⟨s.stream.take read_cnt, by omega, by omega⟩
          have reads := @receive_piece .endOfStream (s.receiver (piece :: pieces)) piece
            pieces (by simp [System.receiver, point, ClientPoint.receivePoint]) rfl
          refine ⟨piece :: pieces, .read :: later, run_cons_eq_some.mpr ⟨_, reads, ?_⟩⟩
          rw [← ran]
          simp [System.receiver, ClientPoint.receivePoint, piece, length]
      | endOfStream point sent drained =>
          have ended := run_done rfl ran
          obtain rfl : pieces = [] := congrArg Receiver.pieces ended
          have reads := @receive_endOfStream (s.receiver [])
            (by simp [System.receiver, point, ClientPoint.receivePoint]) rfl
          exact ⟨[], .read :: later, run_cons_eq_some.mpr ⟨_, reads, ran⟩⟩
      | fwrite read_cnt point =>
          have inside : read_cnt ≤ BUF_SIZE := by
            simp only [step, point, Option.bind_eq_bind, Option.bind_eq_some_iff] at taken
            obtain ⟨bytes, copied, _⟩ := taken
            have fits := (CArray.read?_eq_some.mp copied).1
            omega
          have size : BUF_SIZE = 1024 := rfl
          have length : sizeT read_cnt = read_cnt := sizeT_natCast (by omega)
          have writes := @receive_fwrite .endOfStream (s.receiver pieces) read_cnt
            (by simp [System.receiver, point, ClientPoint.receivePoint]) (by omega)
          refine ⟨pieces, .fwrite :: later, run_cons_eq_some.mpr ⟨_, writes, ?_⟩⟩
          rw [← ran, length, System.receiver, UpdateStream.fwrite_behind]
          rfl

end NetworkProgramming.Hw4
