import NetworkProgramming.Hw6.System

/-!
# What is in the pipes

Every message for the child is a mode word and a body, written by two calls of
the parent and read by two calls of the child.  `ChildAt` describes the whole
pipe `fdsA` from the child's place in `store_loop` on, including a message
whose body is still to be written.  `Protocol` adds the second pipe and relates
the records of the two processes; it survives every step of a run in which no
save or load is read after a quit was served.
-/

namespace NetworkProgramming.Hw6

open MachineInt

/-- What the parent sends through `fdsA` for one request. -/
inductive Message where
  | save (record : Data)
  | load (id : CArray Byte ID_SIZE)
  | quit

namespace Message

def mode : Message → Mode
  | .save _ => .save
  | .load _ => .load
  | .quit => .quit

def word : Message → List Byte
  | .save _ => saveWord
  | .load _ => loadWord
  | .quit => quitWord

def body : Message → List Byte
  | .save record => record.bytes
  | .load id => id.cells
  | .quit => []

def bytes (message : Message) : List Byte := message.word ++ message.body

theorem length_word (message : Message) : message.word.length = MOD_SIZE := by
  cases message <;> rfl

theorem branch_word (message : Message) : branch message.word = message.mode := by
  cases message with
  | save => exact branch_eq_save.mpr rfl
  | load => exact branch_eq_load.mpr rfl
  | quit => exact branch_eq_quit.mpr rfl

end Message

/-- The mode word that stands alone in the pipe while its body is not yet
written. -/
def ParentPoint.openWord : ParentPoint → List Byte
  | .saveReply | .saveRecord => saveWord
  | .loadId => loadWord
  | _ => []

/-- Where the child waits for a body that is not yet written. -/
def ParentPoint.openPoint : ParentPoint → Option ChildPoint
  | .saveReply | .saveRecord => some .readRecord
  | .loadId => some .readId
  | _ => none

/-- The child's point and the bytes in `fdsA` agree: what the child has not
consumed is the listed messages and, while the parent is inside a message, its
mode word. -/
inductive ChildAt (parent : ParentPoint) :
    ChildPoint → List Byte → List Message → Prop where
  | boundary (pending : List Message) :
      ChildAt parent .readMode
        (pending.flatMap Message.bytes ++ parent.openWord) pending
  | body (message : Message) (pending : List Message)
      (hasBody : message ≠ .quit) :
      ChildAt parent (childEntry message.mode)
        (message.body ++ (pending.flatMap Message.bytes ++ parent.openWord))
        (message :: pending)
  | opened (point : ChildPoint) (waits : parent.openPoint = some point) :
      ChildAt parent point [] []

namespace ChildAt

variable {parent : ParentPoint} {point : ChildPoint}
  {pipe : List Byte} {pending : List Message}

theorem congr {after : ParentPoint} (view : ChildAt parent point pipe pending)
    (word : after.openWord = parent.openWord)
    (waits : after.openPoint = parent.openPoint) :
    ChildAt after point pipe pending := by
  cases view with
  | boundary => exact word ▸ .boundary pending
  | body message pending hasBody => exact word ▸ .body message pending hasBody
  | opened _ opened => exact .opened point (waits.trans opened)

theorem openMessage (after : ParentPoint) (view : ChildAt parent point pipe pending)
    (closed : parent.openWord = []) (noBody : parent.openPoint = none) :
    ChildAt after point (pipe ++ after.openWord) pending := by
  cases view with
  | boundary => simpa [closed] using ChildAt.boundary pending
  | body message pending hasBody =>
      simpa [closed] using ChildAt.body message pending hasBody
  | opened _ opened => simp [noBody] at opened

theorem closeMessage (after : ParentPoint) (message : Message)
    (view : ChildAt parent point pipe pending) (hasBody : message ≠ .quit)
    (word : parent.openWord = message.word)
    (waits : parent.openPoint = some (childEntry message.mode))
    (closed : after.openWord = []) :
    ChildAt after point (pipe ++ message.body) (pending ++ [message]) := by
  cases view with
  | boundary =>
      have view := @ChildAt.boundary after (pending ++ [message])
      simpa [closed, word, Message.bytes] using view
  | body first pending firstBody =>
      have view := @ChildAt.body after first (pending ++ [message])
        firstBody
      simpa [closed, word, Message.bytes] using view
  | opened _ opened =>
      have same : childEntry message.mode = point := by
        simpa [waits] using opened
      have view := @ChildAt.body after message [] hasBody
      simpa [closed, same] using view

theorem addQuit (after : ParentPoint) (view : ChildAt parent point pipe pending)
    (closed : parent.openWord = []) (noBody : parent.openPoint = none)
    (afterClosed : after.openWord = []) :
    ChildAt after point (pipe ++ quitWord) (pending ++ [.quit]) := by
  cases view with
  | boundary =>
      have view := @ChildAt.boundary after (pending ++ [.quit])
      simpa [closed, afterClosed, Message.bytes, Message.word, Message.body]
        using view
  | body first pending firstBody =>
      have view := @ChildAt.body after first (pending ++ [.quit])
        firstBody
      simpa [closed, afterClosed, Message.bytes, Message.word, Message.body]
        using view
  | opened _ opened => simp [noBody] at opened

theorem record_underway {records : List Data} {others : List Message}
    (noSave : ∀ record, .save record ∉ others)
    (view : ChildAt parent .readRecord pipe (records.map .save ++ others)) :
    records ≠ [] ∨ parent.openPoint = some .readRecord := by
  generalize pointEq : ChildPoint.readRecord = waiting at view
  generalize pendingEq : records.map Message.save ++ others = unread at view
  cases view with
  | boundary => cases pointEq
  | opened _ waits => exact .inr (pointEq ▸ waits)
  | body message rest hasBody =>
      refine .inl ?_
      rintro rfl
      cases message with
      | save record => exact noSave record (by simp [show others = _ from pendingEq])
      | load id => cases pointEq
      | quit => cases pointEq

theorem load_underway {received rest : List Byte}
    (view : ChildAt parent .readId pipe pending)
    (read : Channel.read ID_SIZE pipe = some (received, rest)) :
    ∃ id later, pending = .load id :: later ∧ received = id.cells := by
  generalize pointEq : ChildPoint.readId = waiting at view
  cases view with
  | boundary => cases pointEq
  | opened => cases read
  | body message later hasBody =>
      cases message with
      | save record => cases pointEq
      | quit => cases pointEq
      | load id =>
          rw [Message.body, Channel.read_message id.length_cells (by decide)] at read
          cases read
          exact ⟨id, later, rfl, rfl⟩

end ChildAt

/-! ## One step of the child -/

/-- What a step of the child does to a pipe whose contents are known. -/
inductive ChildMoves (s : System) (pending : List Message) : System → Prop where
  | readWord (message : Message) (rest : List Message) (mode : CArray Byte MOD_SIZE)
      (isFirst : pending = message :: rest) (hasBody : message ≠ .quit) :
      ChildMoves s pending { s with
        fdsA := message.body ++ (rest.flatMap Message.bytes ++ s.point.openWord)
        child := { s.child with
          mode := mode, point := childEntry message.mode } }
  /-- It reads the mode word of the message the parent is writing. -/
  | readOpen (point : ChildPoint) (mode : CArray Byte MOD_SIZE)
      (none : pending = []) (waits : s.point.openPoint = some point) :
      ChildMoves s pending { s with
        fdsA := []
        child := { s.child with mode := mode, point := point } }
  /-- It reads a quit and leaves `store_loop`. -/
  | readQuit (rest : List Message) (mode : CArray Byte MOD_SIZE)
      (isFirst : pending = .quit :: rest) :
      ChildMoves s pending { s with
        fdsA := rest.flatMap Message.bytes ++ s.point.openWord
        child := { s.child with mode := mode, point := .returned } }
  | storeRecord (record : Data) (rest : List Message)
      (isFirst : pending = .save record :: rest) :
      ChildMoves s pending { s with
        fdsA := rest.flatMap Message.bytes ++ s.point.openWord
        child := { s.child with
          dataArray := s.child.dataArray ++ [record], point := .readMode } }
  | answer (id : CArray Byte ID_SIZE) (rest : List Message) (reply : List Byte)
      (isFirst : pending = .load id :: rest)
      (replied : loadReply id s.child.dataArray = some reply) :
      ChildMoves s pending { s with
        fdsA := rest.flatMap Message.bytes ++ s.point.openWord
        child := { s.child with id := id, point := .sendReply reply } }

private theorem childStep_word {s next : System} {message : Message}
    {rest : List Byte} (point : s.child.point = .readMode)
    (pipe : s.fdsA = message.word ++ rest) (taken : childStep s = some next) :
    ∃ mode, next = { s with
      fdsA := rest
      child := { s.child with
        mode := mode, point := childEntry message.mode } } := by
  have read : Channel.read MOD_SIZE s.fdsA = some (message.word, rest) := by
    rw [pipe]
    exact Channel.read_message message.length_word (by decide)
  have cells : (s.child.mode.fill message.word).cells = message.word :=
    CArray.cells_fill_full _ message.length_word
  simp only [childStep, point, read, Option.bind_eq_bind, Option.bind_some,
    modeOf_eq, cells, message.branch_word] at taken
  cases taken
  exact ⟨_, rfl⟩

private theorem childStep_waits {s : System} (pipe : s.fdsA = [])
    (point : s.child.point = .readMode ∨ s.child.point = .readRecord ∨
      s.child.point = .readId) : childStep s = none := by
  rcases point with point | point | point <;>
    simp [childStep, point, pipe, Channel.read]

/-- Inversion of the child's steps while `fdsA` is described by `ChildAt`. -/
theorem childStep_moves {s next : System} {pending : List Message}
    (view : ChildAt s.point s.child.point s.fdsA pending)
    (taken : childStep s = some next) : ChildMoves s pending next := by
  generalize pointEq : s.child.point = point at view
  generalize pipeEq : s.fdsA = pipe at view
  cases view with
  | boundary =>
      cases pending with
      | nil =>
          cases waits : s.point.openPoint with
          | none =>
              have word : s.point.openWord = [] := by
                cases parent : s.point <;>
                  simp_all [ParentPoint.openPoint, ParentPoint.openWord]
              rw [childStep_waits (by simpa [word] using pipeEq) (.inl pointEq)] at taken
              cases taken
          | some opened =>
              obtain ⟨message, word, entry⟩ : ∃ message : Message,
                  s.point.openWord = message.word ∧
                    childEntry message.mode = opened := by
                cases parent : s.point <;>
                  simp_all [ParentPoint.openPoint, ParentPoint.openWord]
                · exact ⟨.save Data.zero, rfl, waits⟩
                · exact ⟨.save Data.zero, rfl, waits⟩
                · exact ⟨.load s.child.id, rfl, waits⟩
              have front : s.fdsA = message.word ++ [] := by
                simpa [word] using pipeEq
              obtain ⟨mode, rfl⟩ := childStep_word pointEq front taken
              rw [entry]
              exact .readOpen opened mode rfl waits
      | cons message rest =>
          have front : s.fdsA = message.word ++ (message.body ++
              (rest.flatMap Message.bytes ++ s.point.openWord)) := by
            simpa [Message.bytes] using pipeEq
          obtain ⟨mode, rfl⟩ := childStep_word pointEq front taken
          by_cases isQuit : message = .quit
          · subst message
            exact .readQuit rest mode rfl
          · exact .readWord message rest mode rfl isQuit
  | body message rest hasBody =>
      cases message with
      | quit => exact absurd rfl hasBody
      | save record =>
          have read : Channel.read Data.SIZE s.fdsA = some (record.bytes,
              rest.flatMap Message.bytes ++ s.point.openWord) := by
            rw [pipeEq]
            exact Channel.read_message record.length_bytes (by decide)
          have point : s.child.point = .readRecord := pointEq
          simp only [childStep, point, read, Option.bind_eq_bind,
            Option.bind_some, Data.receive_bytes] at taken
          split at taken
          · cases taken
            exact .storeRecord record rest rfl
          · cases taken
      | load id =>
          have read : Channel.read ID_SIZE s.fdsA = some (id.cells,
              rest.flatMap Message.bytes ++ s.point.openWord) := by
            rw [pipeEq]
            exact Channel.read_message id.length_cells (by decide)
          have point : s.child.point = .readId := pointEq
          have filled : s.child.id.fill id.cells = id :=
            CArray.ext (CArray.cells_fill_full _ id.length_cells)
          simp only [childStep, point, read, Option.bind_eq_bind,
            Option.bind_some, filled] at taken
          cases replied : loadReply id s.child.dataArray with
          | none => simp [replied] at taken
          | some reply =>
              simp only [replied, Option.bind_some] at taken
              cases taken
              exact .answer id rest reply rfl replied
  | opened _ waits =>
      have reading : s.child.point = .readMode ∨ s.child.point = .readRecord ∨
          s.child.point = .readId := by
        cases parent : s.point <;> simp_all [ParentPoint.openPoint]
      rw [childStep_waits pipeEq reading] at taken
      cases taken

/-! ## The steps of the scan -/

/-- A step of the loop that reads no request. -/
structure Scans (serv_sock : Nat) (s next : System) : Prop where
  globals : next.globals = s.globals
  child : next.child = s.child
  fdsA : next.fdsA = s.fdsA
  fdsB : next.fdsB = s.fdsB
  trace : next.trace = s.trace
  before : s.Idle
  after : next.Idle
  listening : serv_sock ∈ next.sockets ↔ serv_sock ∈ s.sockets

/-- A step of the loop that reads a request or an error. -/
structure Reads (serv_sock : Nat) (s : System) (result : ReadResult)
    (next : System) : Prop where
  before : s.point = .scan
  notListening : s.i ≠ serv_sock
  globals : next.globals = s.globals.receive result
  point : next.point = entry (s.servedMode result)
  child : next.child = s.child
  fdsA : next.fdsA = s.fdsA
  fdsB : next.fdsB = s.fdsB
  trace : next.trace = s.trace ++ [.received s.i result]
  listening : serv_sock ∈ next.sockets ↔ serv_sock ∈ s.sockets
  socket : s.servedMode result ≠ .unknown → next.i = s.i

/-- The four kinds of steps that the pipes tell apart. -/
inductive Stage (serv_sock : Nat) (s : System) : Action → System → Prop where
  | scans {action : Action} {next : System}
      (notRead : ∀ result, action ≠ .readv result)
      (scans : Scans serv_sock s next) : Stage serv_sock s action next
  | reads {result : ReadResult} {next : System}
      (reads : Reads serv_sock s result next) :
      Stage serv_sock s (.readv result) next
  | parent {next : System} (moved : parentStep serv_sock s = some next) :
      Stage serv_sock s .parent next
  | child {next : System} (moved : childStep s = some next) :
      Stage serv_sock s .child next

theorem step_stage {serv_sock : Nat} {s next : System} {action : Action}
    (taken : step serv_sock s action = some next) :
    Stage serv_sock s action next := by
  cases step_moves taken with
  | select _ point | selectFails _ point =>
      exact .scans (by simp)
        ⟨rfl, rfl, rfl, rfl, rfl, .inl point, by simp [System.Idle], Iff.rfl⟩
  | skip point | nextRound point =>
      exact .scans (by simp) ⟨rfl, rfl, rfl, rfl, rfl, .inr (.inl point),
        by simp [System.Idle, point], Iff.rfl⟩
  | accept _ point _ isOpen =>
      exact .scans (by simp) ⟨rfl, rfl, rfl, rfl, rfl, .inr (.inl point),
        by simp [System.Idle, point], by simp [isOpen]⟩
  | closed point _ isClient =>
      refine .reads ⟨point, isClient, rfl,
        by simp [System.closeClient, System.servedMode, entry, point],
        rfl, rfl, rfl, rfl, ?_, fun served => absurd rfl served⟩
      simp [System.closeClient, Ne.symm isClient]
  | readv _ point _ isClient =>
      exact .reads ⟨point, isClient, rfl, rfl, rfl, rfl, rfl, rfl, Iff.rfl,
        fun served => if_neg served⟩
  | parent => exact .parent taken
  | child => exact .child taken

/-! ## The protocol -/

def ParentPoint.Quiet : ParentPoint → Prop
  | .select | .scan | .quitMode | .closeServer | .exited => True
  | _ => False

/-- Which requests are on their way to the child, and what it still owes. -/
inductive Protocol (serv_sock : Nat) (s : System) : Prop where
  | storing (records : List Data)
      (stored : s.globals.dataArray = s.child.dataArray ++ records)
      (view : ChildAt s.point s.child.point s.fdsA (records.map .save))
      (noReply : s.fdsB = []) (notLoading : s.point ≠ .loadWait)
  /-- The parent waits for a load that the child has not read whole. -/
  | loading (records : List Data)
      (stored : s.globals.dataArray = s.child.dataArray ++ records)
      (waiting : s.point = .loadWait)
      (view : ChildAt s.point s.child.point s.fdsA
        (records.map .save ++ [.load s.globals.id]))
      (noReply : s.fdsB = [])
  /-- The parent waits for a reply that the child has computed. -/
  | replying (reply : List Byte)
      (stored : s.globals.dataArray = s.child.dataArray)
      (waiting : s.point = .loadWait)
      (computed : loadReply s.globals.id s.globals.dataArray = some reply)
      (drained : s.fdsA = [])
      (underway : (s.child.point = .sendReply reply ∧ s.fdsB = []) ∨
        (s.child.point = .readMode ∧ s.fdsB = reply))
  /-- A quit has been written; the child has not read it. -/
  | quitting (records : List Data) (quits : Nat)
      (stored : s.globals.dataArray = s.child.dataArray ++ records)
      (view : ChildAt s.point s.child.point s.fdsA
        (records.map .save ++ List.replicate quits .quit))
      (noReply : s.fdsB = []) (quiet : s.point.Quiet)
      (closing : s.point = .closeServer ∨ serv_sock ∉ s.sockets)
  | returned (stored : s.globals.dataArray = s.child.dataArray)
      (left : s.child.point = .returned)
      (noReply : s.fdsB = []) (quiet : s.point.Quiet)
      (closing : s.point = .closeServer ∨ serv_sock ∉ s.sockets)

/-- Inside a request `mode` still holds the word of its branch. -/
def ModeKept (s : System) : Prop :=
  match s.point with
  | .saveMode => s.globals.mode.cells = saveWord
  | .loadMode => s.globals.mode.cells = loadWord
  | .quitMode => s.globals.mode.cells = quitWord
  | _ => True

theorem System.Idle.quiet {s : System} (idle : s.Idle) : s.point.Quiet := by
  rcases idle with point | point | point <;> simp [point, ParentPoint.Quiet]

theorem System.Idle.openWord {s : System} (idle : s.Idle) :
    s.point.openWord = [] ∧ s.point.openPoint = none ∧ s.point ≠ .loadWait := by
  rcases idle with point | point | point <;>
    simp [point, ParentPoint.openWord, ParentPoint.openPoint]

theorem entry_openWord (mode : Mode) :
    (entry mode).openWord = [] ∧ (entry mode).openPoint = none ∧
      entry mode ≠ .loadWait := by
  cases mode <;> simp [entry, ParentPoint.openWord, ParentPoint.openPoint]

/-- A save or a load is read only while the server still listens, which is
until a quit has been served. -/
def ServedBeforeQuit (serv_sock : Nat) (s : System) (action : Action) : Prop :=
  ∀ result, action = .readv result →
    s.servedMode result = .save ∨ s.servedMode result = .load →
      serv_sock ∈ s.sockets

/-- The protocol does not look at a step that leaves the pipes, the child and
the records alone and opens or closes no message. -/
theorem Protocol.move {serv_sock : Nat} {s next : System}
    (held : Protocol serv_sock s)
    (word : next.point.openWord = s.point.openWord)
    (waits : next.point.openPoint = s.point.openPoint)
    (before : s.point ≠ .loadWait) (after : next.point ≠ .loadWait)
    (dataArray : next.globals.dataArray = s.globals.dataArray)
    (child : next.child = s.child) (fdsA : next.fdsA = s.fdsA)
    (fdsB : next.fdsB = s.fdsB)
    (quiet : s.point.Quiet → (s.point = .closeServer ∨ serv_sock ∉ s.sockets) →
      next.point.Quiet ∧
        (next.point = .closeServer ∨ serv_sock ∉ next.sockets)) :
    Protocol serv_sock next := by
  cases held with
  | storing records stored view noReply notLoading =>
      refine .storing records ?_ ?_ ?_ after
      · rw [dataArray, child, stored]
      · rw [child, fdsA]
        exact view.congr word waits
      · rw [fdsB, noReply]
  | loading _ _ waiting => exact absurd waiting before
  | replying _ _ waiting => exact absurd waiting before
  | quitting records quits stored view noReply quietBefore closing =>
      obtain ⟨quietAfter, closingAfter⟩ := quiet quietBefore closing
      refine .quitting records quits ?_ ?_ ?_ quietAfter closingAfter
      · rw [dataArray, child, stored]
      · rw [child, fdsA]
        exact view.congr word waits
      · rw [fdsB, noReply]
  | returned stored left noReply quietBefore closing =>
      obtain ⟨quietAfter, closingAfter⟩ := quiet quietBefore closing
      refine .returned ?_ ?_ ?_ quietAfter closingAfter
      · rw [dataArray, child, stored]
      · rw [child, left]
      · rw [fdsB, noReply]

section preservation

variable {serv_sock : Nat} {s next : System}

theorem protocol_scans (held : Protocol serv_sock s)
    (scans : Scans serv_sock s next) : Protocol serv_sock next := by
  obtain ⟨word, waits, before⟩ := scans.before.openWord
  obtain ⟨nextWord, nextWaits, after⟩ := scans.after.openWord
  refine held.move (nextWord.trans word.symm) (nextWaits.trans waits.symm)
    before after (by rw [scans.globals]) scans.child scans.fdsA scans.fdsB ?_
  intro quiet closing
  refine ⟨scans.after.quiet, .inr ?_⟩
  rw [scans.listening]
  rcases closing with point | closed
  · rcases scans.before with idle | idle | idle <;> simp [point] at idle
  · exact closed

theorem globals_receive_dataArray (globals : Globals) (result : ReadResult) :
    (globals.receive result).dataArray = globals.dataArray := by
  cases result <;> rfl

theorem protocol_reads {result : ReadResult} (held : Protocol serv_sock s)
    (permitted : ServedBeforeQuit serv_sock s (.readv result))
    (reads : Reads serv_sock s result next) : Protocol serv_sock next := by
  obtain ⟨word, waits, before⟩ :=
    System.Idle.openWord (.inr (.inl reads.before) : s.Idle)
  obtain ⟨nextWord, nextWaits, after⟩ := entry_openWord (s.servedMode result)
  rw [← reads.point] at nextWord nextWaits after
  refine held.move (nextWord.trans word.symm) (nextWaits.trans waits.symm)
    before after (by rw [reads.globals, globals_receive_dataArray])
    reads.child reads.fdsA reads.fdsB ?_
  intro _ closing
  have closed : serv_sock ∉ s.sockets := by
    rcases closing with point | closed
    · rw [reads.before] at point
      cases point
    · exact closed
  refine ⟨?_, .inr (by rwa [reads.listening])⟩
  have notServed := permitted result rfl
  rw [reads.point]
  cases mode : s.servedMode result with
  | save => exact absurd (notServed (.inl mode)) closed
  | load => exact absurd (notServed (.inr mode)) closed
  | quit => simp [entry, ParentPoint.Quiet]
  | unknown => simp [entry, ParentPoint.Quiet]

/-- Inside a save, and inside a load up to its wait, only saves are under way. -/
theorem Protocol.inside (held : Protocol serv_sock s)
    (notLoading : s.point ≠ .loadWait) (busy : ¬ s.point.Quiet) :
    ∃ records, s.globals.dataArray = s.child.dataArray ++ records ∧
      ChildAt s.point s.child.point s.fdsA (records.map .save) ∧
      s.fdsB = [] := by
  cases held with
  | storing records stored view noReply =>
      exact ⟨records, stored, view, noReply⟩
  | loading _ _ waiting => exact absurd waiting notLoading
  | replying _ _ waiting => exact absurd waiting notLoading
  | quitting _ _ _ _ _ quiet => exact absurd quiet busy
  | returned _ _ _ quiet => exact absurd quiet busy

/-- The read of a waiting load gets the whole reply, and the child is back in
front of its loop with nothing left to do. -/
theorem Protocol.reply_arrived (held : Protocol serv_sock s)
    {received : List Byte × List Byte}
    (read : Channel.read BUF_SIZE s.fdsB = some received) :
    loadReply s.globals.id s.globals.dataArray = some received.1 ∧
      received.2 = [] ∧ s.child.point = .readMode ∧ s.fdsA = [] ∧
      s.globals.dataArray = s.child.dataArray := by
  obtain ⟨nonempty, front, rest⟩ := Channel.read_eq_some.mp read
  cases held with
  | storing _ _ _ noReply => exact absurd noReply nonempty
  | loading _ _ _ _ noReply => exact absurd noReply nonempty
  | quitting _ _ _ _ noReply => exact absurd noReply nonempty
  | returned _ _ noReply => exact absurd noReply nonempty
  | replying reply stored _ computed drained underway =>
      rcases underway with ⟨_, noReply⟩ | ⟨childPoint, replied⟩
      · exact absurd noReply nonempty
      · have short := (length_loadReply computed).2
        rw [replied, List.take_of_length_le short] at front
        rw [replied, List.drop_of_length_le short] at rest
        exact ⟨by rw [computed, front], rest, childPoint, drained, stored⟩

theorem protocol_parent (held : Protocol serv_sock s) (mode : ModeKept s)
    (taken : parentStep serv_sock s = some next) : Protocol serv_sock next := by
  cases parentStep_moves taken with
  | saveMode point =>
      have word : s.globals.mode.cells = saveWord := by
        simpa [ModeKept, point] using mode
      obtain ⟨records, stored, view, noReply⟩ :=
        held.inside (by simp [point]) (by simp [point, ParentPoint.Quiet])
      refine .storing records stored ?_ noReply (by simp)
      have opened := view.openMessage .saveReply
        (by simp [point, ParentPoint.openWord])
        (by simp [point, ParentPoint.openPoint])
      simpa [word, ParentPoint.openWord] using opened
  | saveReply computed point ran =>
      refine held.move ?_ ?_ (by simp [point]) (by simp)
        (calculator_frame ran).2.2.2 rfl rfl rfl ?_
      · simp [point, ParentPoint.openWord]
      · simp [point, ParentPoint.openPoint]
      · intro quiet
        simp [point, ParentPoint.Quiet] at quiet
  | saveRecord stored record point ran =>
      obtain ⟨_, _, dataArray, _⟩ := storeRecord_frame ran
      obtain ⟨records, kept, view, noReply⟩ :=
        held.inside (by simp [point]) (by simp [point, ParentPoint.Quiet])
      refine .storing (records ++ [record]) ?_ ?_ noReply (by simp)
      · simp only [dataArray, kept, List.append_assoc]
      · have closed := view.closeMessage .closeClient
          (.save record) (by simp)
          (by simp [point, ParentPoint.openWord, Message.word])
          (by simp [point, ParentPoint.openPoint, childEntry, Message.mode])
          rfl
        simpa [Message.body] using closed
  | loadMode name point =>
      have word : s.globals.mode.cells = loadWord := by
        simpa [ModeKept, point] using mode
      obtain ⟨records, stored, view, noReply⟩ :=
        held.inside (by simp [point]) (by simp [point, ParentPoint.Quiet])
      refine .storing records stored ?_ noReply (by simp)
      have opened := view.openMessage .loadId
        (by simp [point, ParentPoint.openWord])
        (by simp [point, ParentPoint.openPoint])
      simpa [word, ParentPoint.openWord] using opened
  | loadId point =>
      obtain ⟨records, stored, view, noReply⟩ :=
        held.inside (by simp [point]) (by simp [point, ParentPoint.Quiet])
      refine .loading records stored rfl ?_ noReply
      have closed := view.closeMessage .loadWait
        (.load s.globals.id) (by simp)
        (by simp [point, ParentPoint.openWord, Message.word])
        (by simp [point, ParentPoint.openPoint, childEntry, Message.mode])
        rfl
      simpa [Message.body] using closed
  | loadWait reply rest point read =>
      obtain ⟨_, emptied, childPoint, drained, stored⟩ := held.reply_arrived read
      refine .storing [] (by simpa using stored) ?_ emptied (by simp)
      have view := @ChildAt.boundary (.loadSend reply) []
      simpa [childPoint, drained, ParentPoint.openWord] using view
  | loadSend reply point =>
      refine held.move ?_ ?_ (by simp [point]) (by simp) rfl rfl rfl rfl ?_
      · simp [point, ParentPoint.openWord]
      · simp [point, ParentPoint.openPoint]
      · intro quiet
        simp [point, ParentPoint.Quiet] at quiet
  | quitMode point =>
      have word : s.globals.mode.cells = quitWord := by
        simpa [ModeKept, point] using mode
      cases held with
      | storing records stored view noReply notLoading =>
          refine .quitting records 1 stored ?_ noReply trivial (.inl rfl)
          have added := view.addQuit .closeServer
            (by simp [point, ParentPoint.openWord])
            (by simp [point, ParentPoint.openPoint]) rfl
          simpa [word] using added
      | loading _ _ waiting => simp [point] at waiting
      | replying _ _ waiting => simp [point] at waiting
      | quitting records quits stored view noReply quiet closing =>
          refine .quitting records (quits + 1) stored ?_ noReply trivial (.inl rfl)
          have added := view.addQuit .closeServer
            (by simp [point, ParentPoint.openWord])
            (by simp [point, ParentPoint.openPoint]) rfl
          simpa [word, List.replicate_succ'] using added
      | returned stored left noReply quiet closing =>
          exact .returned stored left noReply trivial (.inl rfl)
  | closeClient point =>
      refine held.move ?_ ?_ (by simp [point]) (by simp) rfl rfl rfl rfl ?_
      · simp [point, ParentPoint.openWord]
      · simp [point, ParentPoint.openPoint]
      · intro quiet
        simp [point, ParentPoint.Quiet] at quiet
  | closeServer point =>
      refine held.move ?_ ?_ (by simp [point]) (by simp) rfl rfl rfl rfl ?_
      · simp [point, ParentPoint.openWord]
      · simp [point, ParentPoint.openPoint]
      · intro _ _
        exact ⟨trivial, .inr (by simp)⟩

theorem protocol_child (held : Protocol serv_sock s)
    (taken : childStep s = some next) : Protocol serv_sock next := by
  cases held with
  | storing records stored view noReply notLoading =>
      cases childStep_moves view taken with
      | readWord message rest mode isFirst hasBody =>
          refine .storing records stored ?_ noReply notLoading
          rw [isFirst]
          exact .body message rest hasBody
      | readOpen point mode none waits =>
          refine .storing records stored ?_ noReply notLoading
          rw [none]
          exact .opened point waits
      | readQuit rest mode isFirst => cases records <;> simp at isFirst
      | storeRecord record rest isFirst =>
          obtain ⟨head, tail, rfl, same, rfl⟩ := List.map_eq_cons_iff.mp isFirst
          cases same
          exact .storing tail (by simpa using stored) (.boundary _) noReply
            notLoading
      | answer id rest reply isFirst => cases records <;> simp at isFirst
  | loading records stored waiting view noReply =>
      cases childStep_moves view taken with
      | readWord message rest mode isFirst hasBody =>
          refine .loading records stored waiting ?_ noReply
          rw [isFirst]
          exact .body message rest hasBody
      | readOpen point mode none => simp at none
      | readQuit rest mode isFirst => cases records <;> simp at isFirst
      | storeRecord record rest isFirst =>
          cases records with
          | nil => simp at isFirst
          | cons head tail =>
              obtain ⟨same, rfl⟩ : head = record ∧
                  tail.map .save ++ [.load s.globals.id] = rest := by
                simpa using isFirst
              subst head
              exact .loading tail (by simpa using stored) waiting (.boundary _)
                noReply
      | answer id rest reply isFirst replied =>
          cases records with
          | cons head tail => simp at isFirst
          | nil =>
              obtain ⟨same, rfl⟩ : s.globals.id = id ∧ rest = [] := by
                simpa using isFirst
              have equal : s.globals.dataArray = s.child.dataArray := by
                simpa using stored
              refine .replying reply equal waiting ?_ ?_ (.inl ⟨rfl, noReply⟩)
              · rw [same, equal, replied]
              · simp [waiting, ParentPoint.openWord]
  | replying reply stored waiting computed drained underway =>
      rcases underway with ⟨point, noReply⟩ | ⟨point, _⟩
      · simp only [childStep, point] at taken
        cases taken
        exact .replying reply stored waiting computed drained
          (.inr ⟨rfl, by simp [noReply]⟩)
      · rw [childStep_waits drained (.inl point)] at taken
        cases taken
  | quitting records quits stored view noReply quiet closing =>
      cases childStep_moves view taken with
      | readWord message rest mode isFirst hasBody =>
          refine .quitting records quits stored ?_ noReply quiet closing
          rw [isFirst]
          exact .body message rest hasBody
      | readOpen point mode none waits =>
          cases parent : s.point <;>
            simp [parent, ParentPoint.Quiet, ParentPoint.openPoint] at quiet waits
      | readQuit rest mode isFirst =>
          cases records with
          | cons head tail => simp at isFirst
          | nil => exact .returned (by simpa using stored) rfl noReply quiet closing
      | storeRecord record rest isFirst =>
          cases records with
          | nil =>
              have member : Message.save record ∈
                  List.replicate quits Message.quit := by
                simp only [List.map_nil, List.nil_append] at isFirst
                rw [isFirst]
                exact List.mem_cons_self
              simp at member
          | cons head tail =>
              obtain ⟨same, rfl⟩ : head = record ∧
                  tail.map .save ++ List.replicate quits .quit = rest := by
                simpa using isFirst
              subst head
              exact .quitting tail quits (by simpa using stored) (.boundary _)
                noReply quiet closing
      | answer id rest reply isFirst =>
          have member : Message.load id ∈
              records.map .save ++ List.replicate quits .quit := by
            simp [isFirst]
          simp at member
  | returned stored left =>
      simp [childStep, left] at taken

theorem modeKept_child (kept : ModeKept s) (taken : childStep s = some next) :
    ModeKept next := by
  rw [childStep_frame taken]
  exact kept

theorem modeKept_parent (taken : parentStep serv_sock s = some next) :
    ModeKept next := by
  cases parentStep_moves taken <;> trivial

theorem modeKept_reads {result : ReadResult}
    (reads : Reads serv_sock s result next) : ModeKept next := by
  unfold ModeKept
  rw [reads.point, reads.globals]
  cases result with
  | closed => simp [System.servedMode, entry]
  | data bytes =>
      simp only [System.servedMode]
      cases mode : branch (s.globals.receive (.data bytes)).mode.cells with
      | save => exact branch_eq_save.mp mode
      | load => exact branch_eq_load.mp mode
      | quit => exact branch_eq_quit.mp mode
      | unknown => trivial
  | failed =>
      simp only [System.servedMode]
      cases mode : branch (s.globals.receive .failed).mode.cells with
      | save => exact branch_eq_save.mp mode
      | load => exact branch_eq_load.mp mode
      | quit => exact branch_eq_quit.mp mode
      | unknown => trivial

theorem modeKept_step {action : Action} (kept : ModeKept s)
    (taken : step serv_sock s action = some next) : ModeKept next := by
  have idle {state : System} (quiet : state.Idle) : ModeKept state := by
    rcases quiet with point | point | point <;> simp [ModeKept, point]
  cases step_stage taken with
  | scans _ scans => exact idle scans.after
  | reads reads => exact modeKept_reads reads
  | parent moved => exact modeKept_parent moved
  | child moved => exact modeKept_child kept moved

/-- Every step keeps the protocol unless it reads a save or a load after a
quit. -/
theorem protocol_step {action : Action} (held : Protocol serv_sock s)
    (kept : ModeKept s) (permitted : ServedBeforeQuit serv_sock s action)
    (taken : step serv_sock s action = some next) : Protocol serv_sock next := by
  cases step_stage taken with
  | scans _ scans => exact protocol_scans held scans
  | reads reads => exact protocol_reads held permitted reads
  | parent moved => exact protocol_parent held kept moved
  | child moved => exact protocol_child held moved

end preservation

theorem protocol_initial (serv_sock : Nat) :
    Protocol serv_sock (System.initial serv_sock) :=
  .storing [] rfl (.boundary []) rfl (by simp [System.initial])

/-- Both pipes are in order at the end of every run that reads no save or load
after a quit. -/
theorem protocol_run {serv_sock : Nat} {s : System} {actions : List Action}
    (guarded : Transition.Guarded (step serv_sock) (ServedBeforeQuit serv_sock)
      (System.initial serv_sock) actions)
    (reached : Transition.run (step serv_sock) (System.initial serv_sock) actions =
      some s) : Protocol serv_sock s := by
  have both : Protocol serv_sock s ∧ ModeKept s := by
    refine Transition.run_invariant
      (fun s => Protocol serv_sock s ∧ ModeKept s) ?_
      ⟨protocol_initial serv_sock, trivial⟩ guarded reached
    intro state action next held permitted taken
    exact ⟨protocol_step held.1 held.2 permitted taken,
      modeKept_step held.2 taken⟩
  exact both.1

end NetworkProgramming.Hw6
