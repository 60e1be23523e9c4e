import NetworkProgramming.Foundation.Stdio
import NetworkProgramming.Hw4

/-!
# What `hw4_client` sends back

Behind its receive loop the client reads `copy.txt` from the stream it has written
it to, and sends what it gets.  The position of the stream is then behind the last
byte, so it gets nothing.  The server prints the buffer from which it sent the end of
its own file.
-/

namespace NetworkProgramming.Hw4

open MachineInt Stdio Transition

/-- Where the client is in its second loop, once the first has ended. -/
inductive EchoPoint where
  | fread
  | write (read_cnt : Nat)
  /-- Behind `close(sd)`. -/
  | closed
deriving DecidableEq

/-- Both programs in both directions of the transfer. -/
structure Session where
  /-- The two first loops and the buffers. -/
  transfer : System
  /-- The stream of `copy.txt`. -/
  fp : UpdateStream
  echo : EchoPoint
  /-- Written by the client and not yet read by the server. -/
  reply : List Byte
  /-- All that the second loop has written. -/
  echoed : List Byte
  /-- What the server's `read` has put into its `buf`; it prints `buf` behind it. -/
  got : Option (List Byte)

def Session.initial (test : List Byte) (serverBuf clientBuf : CArray Byte BUF_SIZE) :
    Session where
  transfer := System.initial test serverBuf clientBuf
  fp := UpdateStream.truncated
  echo := .fread
  reply := []
  echoed := []
  got := none

/-- A step of the first loops, or of those that send the file back. -/
inductive EchoAction where
  | transfer (action : Action)
  | fread
  | write
  /-- The server's `read` returns this many bytes. -/
  | receive (read_cnt : Nat)
  | endOfReply

/-- The stream behind a step of the first loops, of which `fwrite` moves it. -/
def Session.written (s : Session) : Action → Option UpdateStream
  | .fwrite =>
      match s.transfer.client with
      | .fwrite read_cnt => (s.transfer.clientBuf.read? 0 read_cnt).map s.fp.fwrite
      | _ => none
  | _ => some s.fp

def echoStep (s : Session) : EchoAction → Option Session
  | .transfer action => do
      let transfer ← step s.transfer action
      let fp ← s.written action
      return { s with transfer := transfer, fp := fp }
  | .fread =>
      match s.transfer.client, s.echo with
      | .done, .fread =>
          let bytes := (s.fp.fread BUF_SIZE).1
          let next := { s with
            fp := (s.fp.fread BUF_SIZE).2
            transfer := { s.transfer with clientBuf := s.transfer.clientBuf.fill bytes } }
          if 0 < bytes.length then some { next with echo := .write bytes.length }
          else some { next with echo := .closed }
      | _, _ => none
  | .write =>
      match s.echo with
      | .write read_cnt => do
          let bytes ← s.transfer.clientBuf.read? 0 read_cnt
          return { s with
            reply := s.reply ++ bytes
            echoed := s.echoed ++ bytes
            echo := .fread }
      | _ => none
  | .receive read_cnt =>
      match s.transfer.server, s.got with
      | .done, none =>
          if 0 < read_cnt ∧ read_cnt ≤ BUF_SIZE ∧ read_cnt ≤ s.reply.length then
            some { s with
              transfer := { s.transfer with
                serverBuf := s.transfer.serverBuf.fill (s.reply.take read_cnt) }
              reply := s.reply.drop read_cnt
              got := some (s.reply.take read_cnt) }
          else none
      | _, _ => none
  | .endOfReply =>
      match s.transfer.server, s.got, s.echo with
      | .done, none, .closed =>
          if s.reply = [] then some { s with got := some [] } else none
      | _, _, _ => none

/-- The client has closed its side and the server has read. -/
def Session.Finished (s : Session) : Prop :=
  s.echo = .closed ∧ s.got ≠ none

/-! ## What a step does -/

/-- A step, by its action and what it finds. -/
inductive EchoMoves (s : Session) : EchoAction → Session → Prop where
  | transfer (action : Action) (transfer : System) (fp : UpdateStream)
      (taken : step s.transfer action = some transfer) (written : s.written action = some fp) :
      EchoMoves s (.transfer action) { s with transfer := transfer, fp := fp }
  | fread (received : s.transfer.client = .done) (point : s.echo = .fread)
      (more : 0 < (s.fp.fread BUF_SIZE).1.length) :
      EchoMoves s .fread { s with
        fp := (s.fp.fread BUF_SIZE).2
        transfer := { s.transfer with
          clientBuf := s.transfer.clientBuf.fill (s.fp.fread BUF_SIZE).1 }
        echo := .write (s.fp.fread BUF_SIZE).1.length }
  | close (received : s.transfer.client = .done) (point : s.echo = .fread)
      (ended : ¬ 0 < (s.fp.fread BUF_SIZE).1.length) :
      EchoMoves s .fread { s with
        fp := (s.fp.fread BUF_SIZE).2
        transfer := { s.transfer with
          clientBuf := s.transfer.clientBuf.fill (s.fp.fread BUF_SIZE).1 }
        echo := .closed }
  | write (read_cnt : Nat) (point : s.echo = .write read_cnt) :
      EchoMoves s .write { s with
        reply := s.reply ++ s.transfer.clientBuf.cells.take read_cnt
        echoed := s.echoed ++ s.transfer.clientBuf.cells.take read_cnt
        echo := .fread }
  | receive (read_cnt : Nat) (sent : s.transfer.server = .done) (waiting : s.got = none)
      (size : 0 < read_cnt ∧ read_cnt ≤ BUF_SIZE ∧ read_cnt ≤ s.reply.length) :
      EchoMoves s (.receive read_cnt) { s with
        transfer := { s.transfer with
          serverBuf := s.transfer.serverBuf.fill (s.reply.take read_cnt) }
        reply := s.reply.drop read_cnt
        got := some (s.reply.take read_cnt) }
  | endOfReply (sent : s.transfer.server = .done) (waiting : s.got = none)
      (closed : s.echo = .closed) (drained : s.reply = []) :
      EchoMoves s .endOfReply { s with got := some [] }

theorem echoStep_moves {s next : Session} {action : EchoAction}
    (taken : echoStep s action = some next) : EchoMoves s action next := by
  cases action with
  | transfer action =>
      simp only [echoStep, Option.bind_eq_bind, Option.bind_eq_some_iff] at taken
      obtain ⟨transfer, moved, fp, written, result⟩ := taken
      cases result
      exact .transfer action transfer fp moved written
  | fread =>
      simp only [echoStep] at taken
      split at taken <;> rename_i received point
      · split at taken <;> rename_i more
        · cases taken
          exact .fread received point more
        · cases taken
          exact .close received point more
      · cases taken
  | write =>
      simp only [echoStep] at taken
      split at taken <;> rename_i read_cnt point
      · simp only [Option.bind_eq_bind, Option.bind_eq_some_iff] at taken
        obtain ⟨bytes, copied, result⟩ := taken
        cases result
        obtain ⟨_, rfl⟩ := CArray.read?_eq_some.mp copied
        exact .write read_cnt point
      · cases taken
  | receive read_cnt =>
      simp only [echoStep] at taken
      split at taken <;> rename_i sent waiting
      · split at taken <;> rename_i size
        · cases taken
          exact .receive read_cnt sent waiting size
        · cases taken
      · cases taken
  | endOfReply =>
      simp only [echoStep] at taken
      split at taken <;> rename_i sent waiting closed
      · split at taken <;> rename_i drained
        · cases taken
          exact .endOfReply sent waiting closed drained
        · cases taken
      · cases taken

/-! ## What is kept -/

/-- The end of a file, behind its whole blocks. -/
def lastBlock (contents : List Byte) : List Byte :=
  contents.drop (contents.length - contents.length % BUF_SIZE)

/-- Whole blocks of the file have been read, and behind the loop `buf` begins with what
is left of it. -/
def System.Blocks (contents : List Byte) (s : System) : Prop :=
  match s.server with
  | .fread => ∃ blocks, s.test = contents.drop (BUF_SIZE * blocks) ∧
      BUF_SIZE * blocks ≤ contents.length
  | .write read_cnt =>
      (read_cnt < BUF_SIZE ∧
        s.serverBuf.cells.take (lastBlock contents).length = lastBlock contents) ∨
      (read_cnt = BUF_SIZE ∧ ∃ blocks, s.test = contents.drop (BUF_SIZE * blocks) ∧
        BUF_SIZE * blocks ≤ contents.length)
  | .shutdown | .done =>
      s.serverBuf.cells.take (lastBlock contents).length = lastBlock contents

theorem blocks_step {contents : List Byte} {s next : System} {action : Action}
    (held : s.Blocks contents) (taken : step s action = some next) :
    next.Blocks contents := by
  have size : BUF_SIZE = 1024 := rfl
  cases step_moves taken with
  | fread point =>
      simp only [System.Blocks, point] at held
      obtain ⟨blocks, test, inside⟩ := held
      have length : s.test.length = contents.length - BUF_SIZE * blocks := by
        rw [test, List.length_drop]
      rw [size] at length inside
      by_cases short : s.test.length < BUF_SIZE
      · have whole : s.test.take BUF_SIZE = lastBlock contents := by
          have front : contents.length - contents.length % BUF_SIZE = BUF_SIZE * blocks := by
            rw [size] at short ⊢
            omega
          rw [List.take_of_length_le (by omega), test, lastBlock, front]
        have fits : (lastBlock contents).length ≤ BUF_SIZE := by
          rw [← whole, List.length_take]
          omega
        refine .inl ⟨by rw [List.length_take]; omega, ?_⟩
        rw [whole, CArray.cells_fill _ fits, List.take_left']
        rfl
      · refine .inr ⟨by rw [List.length_take]; omega, blocks + 1, ?_, ?_⟩
        · rw [test, List.drop_drop, Nat.mul_add_one]
        · rw [size] at short ⊢
          omega
  | writeLast read_cnt point short =>
      simp only [System.Blocks, point] at held
      rcases held with ⟨_, block⟩ | ⟨full, _⟩
      · exact block
      · omega
  | writeBlock read_cnt point full =>
      simp only [System.Blocks, point] at held
      rcases held with ⟨short, _⟩ | ⟨_, blocks⟩
      · omega
      · exact blocks
  | shutdown point =>
      simp only [System.Blocks, point] at held
      exact held
  | read | endOfStream | fwrite => exact held

/-- The stream stands behind the copy, so nothing is ever sent back. -/
structure Silent (contents : List Byte) (s : Session) : Prop where
  transferred : Transferred contents s.transfer
  blocks : s.transfer.Blocks contents
  file : s.fp = UpdateStream.behind s.transfer.copy
  echoed : s.echoed = []
  reply : s.reply = []
  point : ∀ read_cnt, s.echo ≠ .write read_cnt
  got : ∀ bytes, s.got = some bytes → bytes = []
  closed : s.echo = .closed → s.transfer.client = .done

theorem Transferred.fillClientBuf {contents : List Byte} {s : System}
    (held : Transferred contents s) (done : s.client = .done)
    (clientBuf : CArray Byte BUF_SIZE) :
    Transferred contents { s with clientBuf := clientBuf } := by
  have bytes := held.bytes
  simp only [System.received, done] at bytes
  exact ⟨by simpa [System.sending, System.received, done] using bytes, held.server,
    held.client, held.ended⟩

theorem written_behind {s : Session} {action : Action} {transfer : System}
    {fp : UpdateStream} (file : s.fp = UpdateStream.behind s.transfer.copy)
    (taken : step s.transfer action = some transfer) (written : s.written action = some fp) :
    fp = UpdateStream.behind transfer.copy := by
  cases step_moves taken with
  | fwrite read_cnt point =>
      simp only [Session.written, point, Option.map_eq_some_iff] at written
      obtain ⟨bytes, copied, rfl⟩ := written
      obtain ⟨_, rfl⟩ := CArray.read?_eq_some.mp copied
      rw [file, UpdateStream.fwrite_behind, List.drop_zero]
  | fread | writeLast | writeBlock | shutdown | read | endOfStream =>
      cases written
      exact file

theorem silent_step {contents : List Byte} {s next : Session} {action : EchoAction}
    (held : Silent contents s) (taken : echoStep s action = some next) :
    Silent contents next := by
  cases echoStep_moves taken with
  | transfer action transfer fp moved written =>
      refine ⟨transferred_step held.transferred moved, blocks_step held.blocks moved,
        written_behind held.file moved written, held.echoed, held.reply, held.point,
        held.got, fun closed => ?_⟩
      have done := held.closed closed
      cases step_moves moved with
      | fread | writeLast | writeBlock | shutdown => exact done
      | endOfStream => rfl
      | read read_cnt point | fwrite read_cnt point =>
          rw [point] at done
          cases done
  | fread received point more =>
      rw [held.file, UpdateStream.fread_behind] at more
      exact absurd more (Nat.lt_irrefl 0)
  | close received point ended =>
      rw [held.file, UpdateStream.fread_behind]
      exact ⟨held.transferred.fillClientBuf received _, held.blocks, rfl, held.echoed,
        held.reply, by simp, held.got, fun _ => received⟩
  | write read_cnt point => exact absurd point (held.point read_cnt)
  | receive read_cnt sent waiting size =>
      rw [held.reply] at size
      exact absurd (Nat.lt_of_lt_of_le size.1 size.2.2) (Nat.lt_irrefl 0)
  | endOfReply sent waiting closed drained =>
      refine ⟨held.transferred, held.blocks, held.file, held.echoed, held.reply, held.point, ?_,
        held.closed⟩
      rintro bytes ⟨⟩
      rfl

theorem silent_initial (contents : List Byte) (serverBuf clientBuf : CArray Byte BUF_SIZE) :
    Silent contents (Session.initial contents serverBuf clientBuf) where
  transferred := transferred_initial contents serverBuf clientBuf
  blocks := ⟨0, rfl, Nat.zero_le _⟩
  file := rfl
  echoed := rfl
  reply := rfl
  point := by simp [Session.initial]
  got := by simp [Session.initial]
  closed := by simp [Session.initial]

/-! ## Both programs end -/

def EchoPoint.work : EchoPoint → Nat
  | .fread => 1
  | .write _ => 2
  | .closed => 0

/-- What is still to be done; every step lowers it. -/
def Session.work (s : Session) : Nat :=
  s.transfer.work + 2 * s.fp.remaining + s.echo.work + if s.got = none then 1 else 0

theorem remaining_written_le {s : Session} {action : Action} {fp : UpdateStream}
    (written : s.written action = some fp) : fp.remaining ≤ s.fp.remaining := by
  unfold Session.written at written
  split at written
  · split at written
    · obtain ⟨bytes, _, rfl⟩ := Option.map_eq_some_iff.mp written
      exact UpdateStream.remaining_fwrite_le bytes s.fp
    · cases written
  · cases written
    exact Nat.le_refl _

theorem echo_work_lowers {s next : Session} {action : EchoAction}
    (taken : echoStep s action = some next) : next.work < s.work := by
  have fread := UpdateStream.remaining_fread BUF_SIZE s.fp
  cases echoStep_moves taken with
  | transfer action transfer fp moved written =>
      have lowers := work_lowers moved
      have shrinks := remaining_written_le written
      simp only [Session.work]
      omega
  | fread received point more =>
      simp only [Session.work, System.work, point, EchoPoint.work]
      omega
  | close received point ended =>
      simp only [Session.work, System.work, point, EchoPoint.work]
      omega
  | write read_cnt point =>
      simp only [Session.work, point, EchoPoint.work]
      omega
  | receive read_cnt sent waiting size =>
      simp [Session.work, System.work, waiting]
  | endOfReply sent waiting closed drained =>
      simp [Session.work, waiting]

theorem echo_progress {contents : List Byte} {s : Session} (held : Silent contents s)
    (unfinished : ¬ s.Finished) : ∃ action next, echoStep s action = some next := by
  by_cases transferred : s.transfer.Finished
  · obtain ⟨sent, received⟩ := transferred
    cases point : s.echo with
    | fread =>
        refine ⟨.fread, ?_⟩
        simp only [echoStep, received, point]
        split <;> exact ⟨_, rfl⟩
    | write read_cnt => exact absurd point (held.point read_cnt)
    | closed =>
        have waiting : s.got = none := by
          by_contra read
          exact unfinished ⟨point, read⟩
        exact ⟨.endOfReply, by simp [echoStep, sent, waiting, point, held.reply]⟩
  · obtain ⟨action, transfer, moved⟩ := progress held.transferred transferred
    obtain ⟨fp, written⟩ : ∃ fp, s.written action = some fp := by
      cases step_moves moved with
      | fwrite read_cnt point =>
          have fits := held.transferred.client read_cnt point
          simp [Session.written, point, CArray.read?, fits]
      | fread | writeLast | writeBlock | shutdown | read | endOfStream => exact ⟨_, rfl⟩
    exact ⟨.transfer action, by simp [echoStep, moved, written]⟩

/-! ## What comes back -/

/-- The client sends back what it has received, and what the server's `read` puts
into the buffer that it prints comes from there and begins the file. -/
structure EchoesBack (contents : List Byte) (s : Session) : Prop where
  bytes : s.echoed = contents
  message : ∃ got, s.got = some got ∧ got ≠ [] ∧ got <+: contents

theorem Silent.transferFinished {contents : List Byte} {s : Session}
    (held : Silent contents s) (finished : s.Finished) : s.transfer.Finished := by
  have client := held.closed finished.1
  exact ⟨(held.transferred.ended client).1, client⟩

theorem silent_of_reached {contents : List Byte} {serverBuf clientBuf : CArray Byte BUF_SIZE}
    {actions : List EchoAction} {s : Session}
    (reached : run echoStep (Session.initial contents serverBuf clientBuf) actions =
      some s) : Silent contents s :=
  run_invariant_of_step (Silent contents) (fun held taken => silent_step held taken)
    (silent_initial contents serverBuf clientBuf) reached

/-- For every file and every way in which the stream is cut, both programs end, the
client has sent nothing back, which is what it received only for an empty file, and the
server prints nothing that it has read. -/
theorem nothing_echoed {contents : List Byte} {serverBuf clientBuf : CArray Byte BUF_SIZE}
    {actions : List EchoAction} {s : Session}
    (reached : run echoStep (Session.initial contents serverBuf clientBuf) actions =
      some s) :
    actions.length ≤ 3 * contents.length + 6 ∧
      (s.Finished ∨ ∃ action next, echoStep s action = some next) ∧
      (s.Finished → ¬ EchoesBack contents s ∧ (s.echoed = contents ↔ contents = [])) := by
  have held := silent_of_reached reached
  obtain ⟨bound, goesOn⟩ := ends_of_measure echo_work_lowers echo_progress held reached
  refine ⟨?_, goesOn, fun _ => ⟨?_, ?_⟩⟩
  · simp only [Session.work, Session.initial, System.work, System.initial,
      ServerPoint.work, ClientPoint.work, EchoPoint.work, UpdateStream.remaining,
      UpdateStream.truncated, List.length_nil, if_true] at bound
    omega
  · intro echoes
    obtain ⟨got, read, nonempty, _⟩ := echoes.message
    exact nonempty (held.got got read)
  · rw [held.echoed]
    exact eq_comm

/-- The file of three bytes is received in two pieces, and both programs go on to their
ends. -/
def threeBytesEcho : List EchoAction :=
  twoPieces.map .transfer ++ [.fread, .endOfReply]

def threeBytesSession : Session :=
  Session.initial [1#8, 2#8, 3#8] (CArray.replicate BUF_SIZE 0#8)
    (CArray.replicate BUF_SIZE 0#8)

theorem threeBytes_finished :
    ∃ s, run echoStep threeBytesSession threeBytesEcho = some s ∧ s.Finished := by
  have shape : (run echoStep threeBytesSession threeBytesEcho).any (fun s =>
      s.echo = .closed ∧ s.got ≠ none) = true := by
    decide +kernel
  obtain ⟨s, reached, shaped⟩ := (Option.any_eq_true _ _).mp shape
  have finished : s.echo = .closed ∧ s.got ≠ none := of_decide_eq_true shaped
  exact ⟨s, reached, finished⟩

theorem nothing_echoed_threeBytes :
    ∃ s, run echoStep threeBytesSession threeBytesEcho = some s ∧ s.Finished ∧
      ¬ EchoesBack [1#8, 2#8, 3#8] s := by
  obtain ⟨s, reached, finished⟩ := threeBytes_finished
  exact ⟨s, reached, finished, ((nothing_echoed reached).2.2 finished).1⟩

/-- The client has received three bytes and sent none, and the server has read none. -/
theorem three_bytes_kept :
    ∃ s, run echoStep threeBytesSession threeBytesEcho = some s ∧ s.Finished ∧
      s.transfer.copy = [1#8, 2#8, 3#8] ∧ s.echoed = [] ∧ s.got = some [] ∧
      ¬ EchoesBack [1#8, 2#8, 3#8] s := by
  obtain ⟨s, reached, finished⟩ := threeBytes_finished
  have held := silent_of_reached reached
  obtain ⟨bytes, got⟩ := Option.ne_none_iff_exists'.mp finished.2
  obtain rfl := held.got bytes got
  refine ⟨s, reached, finished, held.transferred.copied (held.transferFinished finished),
    held.echoed, got, fun echoes => ?_⟩
  exact absurd (held.echoed.symm.trans echoes.bytes) (by decide)

/-- What is printed begins with the last block of the file, from which the server has
sent it: for a file of less than a block that is the whole file. -/
theorem own_block_printed {contents : List Byte} {serverBuf clientBuf : CArray Byte BUF_SIZE}
    {actions : List EchoAction} {s : Session}
    (reached : run echoStep (Session.initial contents serverBuf clientBuf) actions =
      some s) (finished : s.Finished) :
    s.transfer.serverBuf.cells.take (lastBlock contents).length = lastBlock contents := by
  have held := silent_of_reached reached
  have sent := (held.transferFinished finished).1
  have blocks := held.blocks
  simp only [System.Blocks, sent] at blocks
  exact blocks

end NetworkProgramming.Hw4
