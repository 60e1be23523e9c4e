import NetworkProgramming.Hw6.Pipes

/-!
# The server as a sequential service

`serveAll` serves the requests one after another, each to its end and with the
child caught up.  `resume` is what is still to be done for the request the
parent is in the middle of.  Whatever the child's lag, the requests read so far
served sequentially give the events seen so far followed by those of `resume`.
-/

namespace NetworkProgramming.Hw6

open MachineInt Transition

def received (trace : List Event) : List (Nat × ReadResult) :=
  trace.filterMap fun
    | .received socket result => some (socket, result)
    | .sent _ _ => none

/-- The event in which a response reaches the client. -/
def Response.events (response : Response) (socket : Nat) : List Event :=
  (response.reply.map (Event.sent socket)).toList

def serveNext (served : Globals × List Event) (request : Nat × ReadResult) :
    Option (Globals × List Event) := do
  let next ← serve served.1 request.2
  return (next.1,
    served.2 ++ .received request.1 request.2 :: next.2.events request.1)

def serveAll (requests : List (Nat × ReadResult)) :
    Option (Globals × List Event) :=
  requests.foldlM serveNext (Globals.initial, [])

/-- The rest of the current request, done at once. -/
def resume (point : ParentPoint) (socket : Nat) (globals : Globals) :
    Option (Globals × List Event) :=
  match point with
  | .saveMode | .saveReply => do
      let computed ← calculator globals
      let stored ← storeRecord computed
      return (stored.1, [.sent socket (Word.toBytes computed.opResult)])
  | .saveRecord => do
      let stored ← storeRecord globals
      return (stored.1, [])
  | .loadMode => do
      let _ ← globals.id.cString?
      let reply ← loadReply globals.id globals.dataArray
      return (globals, [.sent socket reply])
  | .loadId | .loadWait => do
      let reply ← loadReply globals.id globals.dataArray
      return (globals, [.sent socket reply])
  | .loadSend reply => some (globals, [.sent socket reply])
  | .select | .scan | .quitMode | .closeClient | .closeServer | .exited =>
      some (globals, [])

@[simp] theorem received_append (front back : List Event) :
    received (front ++ back) = received front ++ received back := by
  simp [received]

@[simp] theorem received_received (socket : Nat) (result : ReadResult) :
    received [.received socket result] = [(socket, result)] := rfl

@[simp] theorem received_sent (socket : Nat) (bytes : List Byte) :
    received [.sent socket bytes] = [] := rfl

theorem System.Idle.resume {s : System} (idle : s.Idle) (socket : Nat)
    (globals : Globals) : resume s.point socket globals = some (globals, []) := by
  rcases idle with point | point | point <;> rw [point] <;> rfl

theorem mode_check_events (globals : Globals) (socket : Nat) :
    (mode_check globals).map (fun served => (served.1, served.2.events socket)) =
      resume (entry (branch globals.mode.cells)) socket globals := by
  simp only [mode_check, modeOf_eq, Option.bind_eq_bind, Option.bind_some]
  cases branch globals.mode.cells with
  | save =>
      simp only [entry, Hw6.resume, Option.bind_eq_bind]
      cases calculator globals with
      | none => rfl
      | some computed =>
          simp only [Option.bind_some]
          cases storeRecord computed <;> rfl
  | load =>
      simp only [entry, Hw6.resume, Option.bind_eq_bind]
      cases globals.id.cString? with
      | none => rfl
      | some text => cases loadReply globals.id globals.dataArray <;> rfl
  | quit => rfl
  | unknown => rfl

theorem serve_events (s : System) (result : ReadResult) :
    (serve s.globals result).map
        (fun served => (served.1, served.2.events s.i)) =
      resume (entry (s.servedMode result)) s.i (s.globals.receive result) := by
  cases result with
  | closed => rfl
  | data bytes => exact mode_check_events (s.globals.scatter bytes) s.i
  | failed => exact mode_check_events s.globals s.i

/-- The events so far and the rest of the current request are what the
sequential service does with the requests read so far. -/
def Sequential (s : System) : Prop :=
  serveAll (received s.trace) =
    (resume s.point s.i s.globals).map fun rest => (rest.1, s.trace ++ rest.2)

theorem sequential_initial (serv_sock : Nat) :
    Sequential (System.initial serv_sock) := rfl

theorem Sequential.isSome {s : System} (held : Sequential s) :
    (serveAll (received s.trace)).isSome =
      (resume s.point s.i s.globals).isSome := by
  rw [held, Option.isSome_map]

section preservation

variable {serv_sock : Nat} {s next : System}

theorem sequential_scans (held : Sequential s)
    (scans : Scans serv_sock s next) : Sequential next := by
  unfold Sequential at held ⊢
  rw [scans.before.resume] at held
  rw [scans.after.resume, scans.trace, scans.globals, held]

theorem Reads.resume {result : ReadResult} (reads : Reads serv_sock s result next) :
    resume next.point next.i next.globals =
      resume (entry (s.servedMode result)) s.i (s.globals.receive result) := by
  rw [reads.point, reads.globals]
  by_cases unknown : s.servedMode result = .unknown
  · rw [unknown]
    rfl
  · rw [reads.socket unknown]

theorem sequential_reads {result : ReadResult} (held : Sequential s)
    (reads : Reads serv_sock s result next) : Sequential next := by
  have idle : s.Idle := .inr (.inl reads.before)
  unfold Sequential at held ⊢
  rw [idle.resume] at held
  simp only [serveAll] at held
  rw [reads.resume, ← serve_events, reads.trace, serveAll, received_append,
    List.foldlM_append, held]
  simp only [Option.map_some, List.append_nil, received_received,
    List.foldlM_cons, List.foldlM_nil, Option.bind_eq_bind, Option.bind_some,
    serveNext, Option.pure_def, Option.map_map]
  cases serve s.globals result with
  | none => rfl
  | some served => simp

theorem resume_parent (held : Protocol serv_sock s)
    (taken : parentStep serv_sock s = some next) :
    ∃ sent, next.trace = s.trace ++ sent ∧ received sent = [] ∧
      resume s.point s.i s.globals =
        (resume next.point next.i next.globals).map fun rest =>
          (rest.1, sent ++ rest.2) := by
  cases parentStep_moves taken with
  | saveReply computed point ran =>
      refine ⟨[.sent s.i (Word.toBytes computed.opResult)], rfl, rfl, ?_⟩
      simp [Hw6.resume, point, ran]
  | saveRecord stored record point ran =>
      exact ⟨[], by simp, rfl, by simp [Hw6.resume, point, ran]⟩
  | loadMode name point isName =>
      exact ⟨[], by simp, rfl, by simp [Hw6.resume, point, isName]⟩
  | loadWait reply rest point read =>
      obtain ⟨replied, _⟩ := held.reply_arrived read
      exact ⟨[], by simp, rfl, by simp [Hw6.resume, point, replied]⟩
  | loadSend reply point =>
      exact ⟨[.sent s.i reply], rfl, rfl, by simp [Hw6.resume, point]⟩
  | saveMode point | loadId point | quitMode point | closeClient point
  | closeServer point =>
      exact ⟨[], by simp [System.closeClient], rfl,
        by simp [Hw6.resume, System.closeClient, point]⟩

theorem sequential_parent (held : Sequential s) (protocol : Protocol serv_sock s)
    (taken : parentStep serv_sock s = some next) : Sequential next := by
  obtain ⟨sent, trace, noRequest, rest⟩ := resume_parent protocol taken
  unfold Sequential at held ⊢
  rw [trace, received_append, noRequest, List.append_nil, held, rest,
    Option.map_map]
  simp [Function.comp_def]

theorem sequential_step {action : Action} (held : Sequential s)
    (protocol : Protocol serv_sock s)
    (taken : step serv_sock s action = some next) : Sequential next := by
  cases step_stage taken with
  | scans _ scans => exact sequential_scans held scans
  | reads reads => exact sequential_reads held reads
  | parent moved => exact sequential_parent held protocol moved
  | child moved =>
      rw [childStep_frame moved]
      exact held

end preservation

/-! ## Runs -/

/-- What holds as long as the requests come one at a time. -/
structure Served (serv_sock : Nat) (s : System) : Prop where
  protocol : Protocol serv_sock s
  modeKept : ModeKept s
  sequential : Sequential s
  room : s.globals.dataArray.length ≤ DATA_MAX

section runs

variable {serv_sock : Nat} {s next : System}

theorem room_parent (room : s.globals.dataArray.length ≤ DATA_MAX)
    (taken : parentStep serv_sock s = some next) :
    next.globals.dataArray.length ≤ DATA_MAX := by
  cases parentStep_moves taken with
  | saveReply computed point ran =>
      simpa [(calculator_frame ran).2.2.2] using room
  | saveRecord stored record point ran =>
      obtain ⟨_, _, dataArray, free⟩ := storeRecord_frame ran
      simp only [dataArray, List.length_append, List.length_singleton]
      omega
  | _ => exact room

theorem room_step {action : Action} (room : s.globals.dataArray.length ≤ DATA_MAX)
    (taken : step serv_sock s action = some next) :
    next.globals.dataArray.length ≤ DATA_MAX := by
  cases step_stage taken with
  | scans _ scans => rwa [scans.globals]
  | reads reads => rwa [reads.globals, globals_receive_dataArray]
  | parent moved => exact room_parent room moved
  | child moved =>
      rw [childStep_frame moved]
      exact room

theorem served_step {action : Action} (held : Served serv_sock s)
    (permitted : ServedBeforeQuit serv_sock s action)
    (taken : step serv_sock s action = some next) : Served serv_sock next where
  protocol := protocol_step held.protocol held.modeKept permitted taken
  modeKept := modeKept_step held.modeKept taken
  sequential := sequential_step held.sequential held.protocol taken
  room := room_step held.room taken

theorem served_initial (serv_sock : Nat) :
    Served serv_sock (System.initial serv_sock) where
  protocol := protocol_initial serv_sock
  modeKept := trivial
  sequential := sequential_initial serv_sock
  room := Nat.zero_le _

/-- Until a quit, every run is a run of the sequential service. -/
theorem served_run {actions : List Action}
    (guarded : Guarded (step serv_sock) (ServedBeforeQuit serv_sock)
      (System.initial serv_sock) actions)
    (reached : run (step serv_sock) (System.initial serv_sock) actions =
      some s) : Served serv_sock s :=
  run_invariant (Served serv_sock)
    (fun held permitted taken => served_step held permitted taken)
    (served_initial serv_sock) guarded reached

/-! ## Runs without a quit -/

def NoQuit (s : System) (action : Action) : Prop :=
  ∀ result, action = .readv result → s.servedMode result ≠ .quit

/-- The server listens, and no client in service is the listening socket. -/
structure Listening (serv_sock : Nat) (s : System) : Prop where
  isOpen : serv_sock ∈ s.sockets
  noQuit : s.point ≠ .quitMode ∧ s.point ≠ .closeServer
  client : s.Idle ∨ s.i ≠ serv_sock

theorem listening_initial (serv_sock : Nat) :
    Listening serv_sock (System.initial serv_sock) :=
  ⟨by simp [System.initial], by simp [System.initial], .inl (.inl rfl)⟩

theorem listening_scans (held : Listening serv_sock s)
    (scans : Scans serv_sock s next) : Listening serv_sock next where
  isOpen := scans.listening.mpr held.isOpen
  noQuit := by
    rcases scans.after with point | point | point <;> simp [point]
  client := .inl scans.after

theorem listening_reads {result : ReadResult} (held : Listening serv_sock s)
    (noQuit : s.servedMode result ≠ .quit)
    (reads : Reads serv_sock s result next) : Listening serv_sock next where
  isOpen := reads.listening.mpr held.isOpen
  noQuit := by
    rw [reads.point]
    cases mode : s.servedMode result <;> simp_all [entry]
  client := by
    by_cases unknown : s.servedMode result = .unknown
    · exact .inl (.inr (.inl (by rw [reads.point, unknown, entry])))
    · exact .inr (by rw [reads.socket unknown]; exact reads.notListening)

theorem listening_parent (held : Listening serv_sock s)
    (taken : parentStep serv_sock s = some next) : Listening serv_sock next := by
  obtain ⟨isOpen, noQuit, client⟩ := held
  cases parentStep_moves taken with
  | quitMode point => exact absurd point noQuit.1
  | closeServer point => exact absurd point noQuit.2
  | closeClient point =>
      have different : s.i ≠ serv_sock := by
        simpa [System.Idle, point] using client
      exact ⟨by simpa [System.closeClient, different.symm] using isOpen, by simp,
        .inl (by simp [System.Idle])⟩
  | saveMode point | saveReply _ point | saveRecord _ _ point | loadMode _ point
  | loadId point | loadWait _ _ point | loadSend _ point =>
      exact ⟨isOpen, by simp, .inr (by simpa [System.Idle, point] using client)⟩

theorem listening_step {action : Action} (held : Listening serv_sock s)
    (noQuit : NoQuit s action) (taken : step serv_sock s action = some next) :
    Listening serv_sock next := by
  cases step_stage taken with
  | scans _ scans => exact listening_scans held scans
  | reads reads => exact listening_reads held (noQuit _ rfl) reads
  | parent moved => exact listening_parent held moved
  | child moved =>
      rw [childStep_frame moved]
      exact ⟨held.isOpen, held.noQuit, held.client⟩

theorem guarded_of_noQuit {actions : List Action}
    (guarded : Guarded (step serv_sock) NoQuit (System.initial serv_sock)
      actions) :
    Guarded (step serv_sock) (ServedBeforeQuit serv_sock)
      (System.initial serv_sock) actions :=
  Guarded.of_invariant (Listening serv_sock) listening_step
    (fun held _ _ _ _ => held.isOpen) (listening_initial serv_sock) guarded

theorem received_parent (taken : parentStep serv_sock s = some next) :
    received next.trace = received s.trace := by
  cases parentStep_moves taken <;> simp [System.closeClient]

theorem received_step {action : Action}
    (taken : step serv_sock s action = some next) :
    (∀ request ∈ received s.trace, request ∈ received next.trace) ∧
      ∀ result, action = .readv result →
        ∃ socket, (socket, result) ∈ received next.trace := by
  cases step_stage taken with
  | scans notRead scans =>
      rw [scans.trace]
      exact ⟨fun _ member => member, fun result isRead => absurd isRead (notRead result)⟩
  | reads reads =>
      rw [reads.trace]
      refine ⟨fun request member => by simp [member], ?_⟩
      rintro _ ⟨⟩
      exact ⟨s.i, by simp⟩
  | parent moved => simp [received_parent moved]
  | child moved =>
      rw [childStep_frame moved]
      simp

theorem received_run {actions : List Action}
    (reached : run (step serv_sock) s actions = some next) :
    (∀ request ∈ received s.trace, request ∈ received next.trace) ∧
      ∀ result, .readv result ∈ actions →
        ∃ socket, (socket, result) ∈ received next.trace := by
  induction actions generalizing s with
  | nil =>
      cases reached
      simp
  | cons action actions induction =>
      obtain ⟨middle, taken, rest⟩ := run_cons_eq_some.mp reached
      obtain ⟨keeps, gains⟩ := received_step taken
      obtain ⟨restKeeps, restGains⟩ := induction rest
      refine ⟨fun request member => restKeeps request (keeps request member), ?_⟩
      intro result member
      rcases List.mem_cons.mp member with first | later
      · obtain ⟨socket, read⟩ := gains result first.symm
        exact ⟨socket, restKeeps _ read⟩
      · exact restGains result later

/-! ## Progress -/

private theorem exists_of_readMode (point : s.child.point = .readMode)
    (waiting : s.fdsA ≠ []) : ∃ next, childStep s = some next := by
  obtain ⟨head, tail, pipe⟩ := List.exists_cons_of_ne_nil waiting
  simp [childStep, point, pipe, Channel.read, modeOf_eq]

/-- The load that the child reads last is the one that the parent waits for. -/
theorem answered_of_replied {records : List Data}
    (stored : s.globals.dataArray = s.child.dataArray ++ records)
    (view : ChildAt s.point s.child.point s.fdsA
      (records.map .save ++ [.load s.globals.id])) {reply : List Byte}
    (replied : loadReply s.globals.id s.globals.dataArray = some reply)
    {received rest : List Byte} (waits : s.child.point = .readId)
    (read : Channel.read ID_SIZE s.fdsA = some (received, rest)) :
    loadReply (s.child.id.fill received) s.child.dataArray = some reply := by
  rw [waits] at view
  obtain ⟨id, later, isLoad, rfl⟩ := view.load_underway read
  cases records with
  | cons record records => cases isLoad
  | nil =>
      cases isLoad
      have filled : s.child.id.fill s.globals.id.cells = s.globals.id :=
        CArray.ext (CArray.cells_fill_full _ s.globals.id.length_cells)
      have equal : s.child.dataArray = s.globals.dataArray := by
        simpa using stored.symm
      rw [filled, equal, replied]

/-- While the parent waits for a load, the child can move, unless the reply is
not defined. -/
theorem exists_of_loading {records : List Data}
    (stored : s.globals.dataArray = s.child.dataArray ++ records)
    (view : ChildAt s.point s.child.point s.fdsA
      (records.map .save ++ [.load s.globals.id]))
    (room : s.globals.dataArray.length ≤ DATA_MAX)
    (answered : ∀ received rest, s.child.point = .readId →
      Channel.read ID_SIZE s.fdsA = some (received, rest) →
        ∃ reply, loadReply (s.child.id.fill received) s.child.dataArray =
          some reply) :
    ∃ next, childStep s = some next := by
  generalize pointEq : s.child.point = point at view
  generalize pipeEq : s.fdsA = pipe at view
  generalize pendingEq : records.map Message.save ++ [.load s.globals.id] =
    pending at view
  cases view with
  | boundary =>
      apply exists_of_readMode pointEq
      rw [pipeEq, ← pendingEq]
      cases records <;> simp [Message.bytes, Message.word, saveWord, loadWord]
  | opened => simp at pendingEq
  | body message rest hasBody =>
      cases records with
      | cons record records =>
          obtain ⟨rfl, _⟩ : Message.save record = message ∧ _ := by
            simpa using pendingEq
          have read : Channel.read Data.SIZE s.fdsA = some (record.bytes,
              rest.flatMap Message.bytes ++ s.point.openWord) := by
            rw [pipeEq]
            exact Channel.read_message record.length_bytes (by decide)
          have free : s.child.dataArray.length < DATA_MAX := by
            have length := congrArg List.length stored
            simp only [List.length_append, List.length_cons] at length
            omega
          have childPoint : s.child.point = .readRecord := pointEq
          simp [childStep, childPoint, read, free]
      | nil =>
          obtain ⟨rfl, rfl⟩ : Message.load s.globals.id = message ∧ [] = rest := by
            simpa using pendingEq
          have read : Channel.read ID_SIZE s.fdsA = some (s.globals.id.cells,
              List.flatMap Message.bytes [] ++ s.point.openWord) := by
            rw [pipeEq]
            exact Channel.read_message s.globals.id.length_cells (by decide)
          have childPoint : s.child.point = .readId := pointEq
          obtain ⟨reply, replied⟩ := answered _ _ childPoint read
          simp [childStep, childPoint, read, replied]

/-- In the middle of a request whose rest is defined, a process can move. -/
theorem internal_progress (held : Served serv_sock s)
    (defined : (resume s.point s.i s.globals).isSome) (busy : ¬ s.Idle) :
    ∃ action next, Internal action ∧ step serv_sock s action = some next := by
  have parent (possible : ∃ next, parentStep serv_sock s = some next) :
      ∃ action next, Internal action ∧ step serv_sock s action = some next := by
    obtain ⟨next, taken⟩ := possible
    exact ⟨.parent, next, .inl rfl, taken⟩
  have child (possible : ∃ next, childStep s = some next) :
      ∃ action next, Internal action ∧ step serv_sock s action = some next := by
    obtain ⟨next, taken⟩ := possible
    exact ⟨.child, next, .inr rfl, taken⟩
  cases point : s.point with
  | select => exact absurd (.inl point) busy
  | scan => exact absurd (.inr (.inl point)) busy
  | exited => exact absurd (.inr (.inr point)) busy
  | saveMode | loadId | quitMode | closeClient | closeServer | loadSend =>
      exact parent (by simp [parentStep, point])
  | saveReply =>
      apply parent
      cases computed : calculator s.globals with
      | none => simp [point, Hw6.resume, computed] at defined
      | some globals => simp [parentStep, point, computed]
  | saveRecord =>
      apply parent
      cases stored : storeRecord s.globals with
      | none => simp [point, Hw6.resume, stored] at defined
      | some globals => simp [parentStep, point, stored]
  | loadMode =>
      apply parent
      cases terminated : s.globals.id.cString? with
      | none => simp [point, Hw6.resume, terminated] at defined
      | some text => simp [parentStep, point, terminated]
  | loadWait =>
      cases held.protocol with
      | storing _ _ _ _ notLoading => exact absurd point notLoading
      | quitting _ _ _ _ _ quiet => simp [point, ParentPoint.Quiet] at quiet
      | returned _ _ _ quiet => simp [point, ParentPoint.Quiet] at quiet
      | loading records stored _ view _ =>
          cases replied : loadReply s.globals.id s.globals.dataArray with
          | none => simp [point, Hw6.resume, replied] at defined
          | some reply =>
              exact child (exists_of_loading stored view held.room
                fun _ _ waits read =>
                  ⟨reply, answered_of_replied stored view replied waits read⟩)
      | replying reply _ _ computed _ underway =>
          rcases underway with ⟨childPoint, _⟩ | ⟨_, replied⟩
          · exact child (by simp [childStep, childPoint])
          · apply parent
            obtain ⟨head, tail, pipe⟩ :=
              List.exists_cons_of_ne_nil (length_loadReply computed).1
            simp [parentStep, point, replied, pipe, Channel.read]

theorem Internal.servedBeforeQuit {action : Action} (isInternal : Internal action) :
    ServedBeforeQuit serv_sock s action := by
  rintro result rfl
  rcases isInternal with impossible | impossible <;> cases impossible

theorem received_internal {action : Action} (isInternal : Internal action)
    (taken : step serv_sock s action = some next) :
    received next.trace = received s.trace := by
  rcases isInternal with rfl | rfl
  · exact received_parent taken
  · rw [childStep_frame taken]

theorem internal_step {action : Action} (held : Served serv_sock s)
    (defined : (resume s.point s.i s.globals).isSome)
    (isInternal : Internal action)
    (taken : step serv_sock s action = some next) :
    Served serv_sock next ∧ received next.trace = received s.trace ∧
      (resume next.point next.i next.globals).isSome := by
  refine ⟨served_step held isInternal.servedBeforeQuit taken,
    received_internal isInternal taken, ?_⟩
  rcases isInternal with rfl | rfl
  · obtain ⟨_, _, _, rest⟩ := resume_parent held.protocol taken
    simpa [rest] using defined
  · rw [childStep_frame taken]
    exact defined

theorem request_completes (held : Served serv_sock s)
    (defined : (resume s.point s.i s.globals).isSome) :
    ∃ actions final, (∀ action ∈ actions, Internal action) ∧
      run (step serv_sock) s actions = some final ∧ Served serv_sock final ∧
        received final.trace = received s.trace ∧ final.Idle := by
  obtain ⟨actions, final, allInternal, reached, kept, idle⟩ :
      ∃ actions final, (∀ action ∈ actions, Internal action) ∧
        run (step serv_sock) s actions = some final ∧
        (Served serv_sock final ∧ received final.trace = received s.trace ∧
          (resume final.point final.i final.globals).isSome) ∧ final.Idle :=
    @exists_run_of_measure _ _ (step serv_sock) Internal System.work
      (fun state => Served serv_sock state ∧
        received state.trace = received s.trace ∧
          (resume state.point state.i state.globals).isSome)
      System.Idle (fun isInternal taken => internal_work isInternal taken)
      (by
        intro state kept busy
        obtain ⟨served, same, rest⟩ := kept
        obtain ⟨action, next, isInternal, taken⟩ :=
          internal_progress served rest busy
        obtain ⟨servedNext, sameNext, restNext⟩ :=
          internal_step served rest isInternal taken
        exact ⟨action, next, isInternal, taken, servedNext,
          sameNext.trans same, restNext⟩)
      s ⟨held, rfl, defined⟩
  exact ⟨actions, final, allInternal, reached, kept.1, kept.2.1, idle⟩

end runs

end NetworkProgramming.Hw6
