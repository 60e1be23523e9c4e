import NetworkProgramming.Hw6.Pipes

/-!
# The select set of `hw6_server`

`reads` and the open sockets change together, in the accept, at the end of a
stream and behind a request, while the scan goes through a snapshot of
ready descriptors from below.  Since every client has a larger descriptor than
the listening socket, nothing has been closed in a round when `accept` returns
in it, and since the scan never goes back, no descriptor is served or closed
twice in a round.
-/

namespace NetworkProgramming.Hw6

open MachineInt Transition

/-- `accept` returns a descriptor above the listening socket, and no request is
a quit. -/
def NoQuitAbove (serv_sock : Nat) (s : System) : Action → Prop
  | .accept socket => serv_sock < socket
  | .readv result => s.servedMode result ≠ .quit
  | _ => True

/-- The descriptor that a step gives to `readv`. -/
def System.reading (s : System) : Action → Option Nat
  | .readv _ => some s.i
  | _ => none

/-- The client descriptor that a step closes. -/
def System.closing (s : System) : Action → Option Nat
  | .readv .closed => some s.i
  | .parent =>
      if s.point = .closeClient ∨ s.point = .closeServer then some s.i else none
  | _ => none

/-- The parent serves a request without quit. -/
def ParentPoint.Serving : ParentPoint → Prop
  | .saveMode | .saveReply | .saveRecord | .loadMode | .loadId | .loadWait
  | .loadSend _ | .closeClient => True
  | .select | .scan | .quitMode | .closeServer | .exited => False

def ParentPoint.Looping : ParentPoint → Prop
  | .select | .scan => True
  | _ => False

/-- The set that `select` watches has the open sockets, up to `fd_max`. -/
structure SelectSet (serv_sock : Nat) (s : System) : Prop where
  same : s.reads = s.sockets
  listening : serv_sock ∈ s.sockets
  above : ∀ socket ∈ s.sockets, serv_sock ≤ socket
  bounded : ∀ socket ∈ s.sockets, socket ≤ s.fd_max
  /-- What the scan has still to serve is open. -/
  snapshot : s.point = .select ∨
    ∀ socket ∈ s.cpy_reads, s.i ≤ socket → socket ∈ s.sockets
  point : s.point.Looping ∨
    s.point.Serving ∧ s.i ∈ s.sockets ∧ s.i ≠ serv_sock

section step

variable {serv_sock : Nat} {s next : System}

theorem SelectSet.ahead (held : SelectSet serv_sock s) (scans : s.point ≠ .select) :
    ∀ socket ∈ s.cpy_reads, s.i ≤ socket → socket ∈ s.sockets :=
  held.snapshot.resolve_left scans

theorem selectSet_accept {socket : Nat} (held : SelectSet serv_sock s)
    (above : serv_sock < socket) (point : s.point = .scan) :
    SelectSet serv_sock { s with
      reads := insert socket s.reads
      fd_max := max s.fd_max socket
      sockets := insert socket s.sockets
      i := s.i + 1 } := by
  constructor
  · simp [held.same]
  · simp [held.listening]
  · intro other member
    rcases Finset.mem_insert.mp member with rfl | member
    · omega
    · exact held.above other member
  · intro other member
    rcases Finset.mem_insert.mp member with rfl | member
    · exact Nat.le_max_right _ _
    · exact (held.bounded other member).trans (Nat.le_max_left _ _)
  · right
    intro other member behind
    exact Finset.mem_insert_of_mem
      (held.ahead (by simp [point]) other member (Nat.le_of_succ_le behind))
  · simp [point, ParentPoint.Looping]

theorem selectSet_closeClient (held : SelectSet serv_sock s)
    (isClient : s.i ≠ serv_sock) (scans : s.point ≠ .select) (trace : List Event) :
    SelectSet serv_sock
      { s.closeClient with trace := trace, i := s.i + 1, point := .scan } := by
  constructor
  · simp [System.closeClient, held.same]
  · simp [System.closeClient, held.listening, isClient.symm]
  · intro socket member
    exact held.above socket (Finset.mem_of_mem_erase member)
  · intro socket member
    exact held.bounded socket (Finset.mem_of_mem_erase member)
  · right
    intro socket member behind
    simp only [System.closeClient] at member behind ⊢
    exact Finset.mem_erase.mpr ⟨by omega, held.ahead scans socket member (by omega)⟩
  · exact .inl trivial

theorem SelectSet.ready (held : SelectSet serv_sock s) (point : s.point = .scan)
    (ready : s.Ready) : s.i ∈ s.sockets :=
  held.ahead (by simp [point]) s.i ready.2 (Nat.le_refl _)

/-- A request other than a quit is served on the descriptor it came from, or
the scan goes on. -/
theorem selectSet_served (held : SelectSet serv_sock s) (point : s.point = .scan)
    (ready : s.Ready) (isClient : s.i ≠ serv_sock) {mode : Mode}
    (noQuit : mode ≠ .quit) (globals : Globals) (trace : List Event) :
    SelectSet serv_sock { s with
      globals := globals
      trace := trace
      point := entry mode
      i := if mode = .unknown then s.i + 1 else s.i } := by
  have isOpen := held.ready point ready
  refine ⟨held.same, held.listening, held.above, held.bounded, .inr ?_, ?_⟩
  · intro socket member behind
    apply held.ahead (by simp [point]) socket member
    simp only at behind
    split at behind <;> omega
  · cases mode with
    | save => exact .inr ⟨trivial, isOpen, isClient⟩
    | load => exact .inr ⟨trivial, isOpen, isClient⟩
    | quit => exact absurd rfl noQuit
    | unknown => exact .inl trivial

theorem SelectSet.advance (held : SelectSet serv_sock s) {point : ParentPoint}
    (serves : s.i ∈ s.sockets ∧ s.i ≠ serv_sock) (serving : point.Serving)
    (notSelect : s.point ≠ .select) (globals : Globals) (fdsA fdsB : List Byte)
    (trace : List Event) :
    SelectSet serv_sock { s with
      globals := globals
      fdsA := fdsA
      fdsB := fdsB
      trace := trace
      point := point } :=
  ⟨held.same, held.listening, held.above, held.bounded,
    .inr (held.ahead notSelect), .inr ⟨serving, serves⟩⟩

theorem selectSet_parent (held : SelectSet serv_sock s)
    (taken : parentStep serv_sock s = some next) : SelectSet serv_sock next := by
  have serves {point : ParentPoint} (here : s.point = point)
      (busy : ¬ point.Looping) :
      point.Serving ∧ s.i ∈ s.sockets ∧ s.i ≠ serv_sock := by
    rw [← here] at busy ⊢
    exact held.point.resolve_left busy
  cases parentStep_moves taken with
  | quitMode point => exact absurd (serves point id).1 id
  | closeServer point => exact absurd (serves point id).1 id
  | closeClient point =>
      exact selectSet_closeClient held (serves point id).2.2 (by simp [point]) s.trace
  | saveMode point | saveReply _ point | saveRecord _ _ point | loadMode _ point
  | loadId point | loadWait _ _ point | loadSend _ point =>
      exact held.advance (serves point id).2 (by trivial) (by simp [point]) _ _ _ _

theorem selectSet_step {action : Action} (held : SelectSet serv_sock s)
    (permitted : NoQuitAbove serv_sock s action)
    (taken : step serv_sock s action = some next) : SelectSet serv_sock next := by
  cases step_moves taken with
  | select ready point alive registered =>
      refine ⟨held.same, held.listening, held.above, held.bounded, .inr ?_, .inl trivial⟩
      intro socket member _
      exact alive (registered member)
  | selectFails ready point stale => exact absurd held.same.subset stale
  | skip point =>
      refine ⟨held.same, held.listening, held.above, held.bounded, .inr ?_, ?_⟩
      · intro socket member behind
        exact held.ahead (by simp [point]) socket member (Nat.le_of_succ_le behind)
      · simp [point, ParentPoint.Looping]
  | nextRound point =>
      exact ⟨held.same, held.listening, held.above, held.bounded, .inl rfl, .inl trivial⟩
  | accept socket point =>
      exact selectSet_accept held permitted point
  | closed point ready isClient =>
      have closed := selectSet_closeClient held isClient (by simp [point])
        (s.trace ++ [.received s.i .closed])
      simpa only [System.closeClient, point] using closed
  | readv result point ready isClient =>
      exact selectSet_served held point ready isClient permitted _ _
  | parent => exact selectSet_parent held taken
  | child moved =>
      rw [childStep_frame moved]
      exact ⟨held.same, held.listening, held.above, held.bounded, held.snapshot,
        held.point⟩

end step

theorem selectSet_initial (serv_sock : Nat) :
    SelectSet serv_sock (System.initial serv_sock) where
  same := rfl
  listening := by simp [System.initial]
  above := by simp [System.initial]
  bounded := by simp [System.initial]
  snapshot := .inl rfl
  point := .inl trivial

/-! ## The order of a round -/

/-- Steps of one scan: no `select` is among them. -/
def InRound (action : Action) : Prop := ∀ ready, action ≠ .select ready

/-- The next descriptor that can be given to `readv`. -/
def System.nextRead (s : System) : Nat :=
  match s.point with
  | .select | .scan | .exited => s.i
  | _ => s.i + 1

section round

variable {serv_sock : Nat} {s next : System}

theorem readv_order {result : ReadResult}
    (taken : step serv_sock s (.readv result) = some next) :
    s.nextRead = s.i ∧ s.i < next.nextRead ∧ s.i ≤ next.i ∧
      (result = .closed → next.i = s.i + 1) := by
  cases step_moves taken with
  | closed point =>
      refine ⟨by simp [System.nextRead, point], ?_, Nat.le_succ _, fun _ => rfl⟩
      simp [System.nextRead, System.closeClient, point]
  | readv _ point _ _ _ notClosed =>
      refine ⟨by simp [System.nextRead, point], ?_, ?_, fun closed =>
        absurd closed notClosed⟩
      · cases mode : s.servedMode result <;> simp [System.nextRead, entry]
      · dsimp only
        split <;> omega

theorem parent_order (taken : parentStep serv_sock s = some next) :
    s.nextRead ≤ next.nextRead ∧ s.i ≤ next.i ∧
      (s.point = .closeClient ∨ s.point = .closeServer → next.i = s.i + 1) := by
  cases parentStep_moves taken with
  | saveMode point | saveReply _ point | saveRecord _ _ point | loadMode _ point
  | loadId point | loadWait _ _ point | loadSend _ point | quitMode point
  | closeClient point | closeServer point =>
      simp [System.nextRead, point]

theorem round_order {action : Action} (inRound : InRound action)
    (taken : step serv_sock s action = some next) :
    s.nextRead ≤ next.nextRead ∧ s.i ≤ next.i := by
  cases action with
  | select ready => exact absurd rfl (inRound ready)
  | skip =>
      cases step_moves taken with
      | skip point | nextRound point => simp [System.nextRead, point]
  | accept socket =>
      cases step_moves taken with
      | accept _ point => simp [System.nextRead, point]
  | readv result =>
      obtain ⟨before, after, order, _⟩ := readv_order taken
      exact ⟨by omega, order⟩
  | parent => exact ⟨(parent_order taken).1, (parent_order taken).2.1⟩
  | child =>
      rw [childStep_frame taken]
      exact ⟨Nat.le_refl _, Nat.le_refl _⟩

theorem reading_order {action : Action} {socket : Nat}
    (taken : step serv_sock s action = some next)
    (reads : s.reading action = some socket) :
    s.nextRead ≤ socket ∧ socket < next.nextRead := by
  cases action with
  | readv result =>
      cases reads
      obtain ⟨before, after, _⟩ := readv_order taken
      exact ⟨Nat.le_of_eq before, after⟩
  | _ => cases reads

theorem closing_order {action : Action} {socket : Nat}
    (taken : step serv_sock s action = some next)
    (closes : s.closing action = some socket) : s.i ≤ socket ∧ socket < next.i := by
  cases action with
  | readv result =>
      cases result with
      | closed =>
          cases closes
          have after := (readv_order taken).2.2.2 rfl
          omega
      | _ => cases closes
  | parent =>
      simp only [System.closing] at closes
      split at closes <;> rename_i point
      · cases closes
        have after := (parent_order taken).2.2 point
        omega
      · cases closes
  | _ => cases closes

end round

section selectSet

variable {serv_sock : Nat} {s next : System}

theorem SelectSet.reading (held : SelectSet serv_sock s) {action : Action} {socket : Nat}
    (taken : step serv_sock s action = some next)
    (reads : s.reading action = some socket) :
    socket ∈ s.reads ∧ socket ∈ s.sockets ∧ socket ≠ serv_sock := by
  cases action with
  | readv result =>
      cases reads
      cases step_moves taken with
      | closed point ready isClient | readv _ point ready isClient =>
          have isOpen := held.ready point ready
          exact ⟨held.same ▸ isOpen, isOpen, isClient⟩
  | _ => cases reads

theorem SelectSet.closing (held : SelectSet serv_sock s) {action : Action} {socket : Nat}
    (taken : step serv_sock s action = some next)
    (closes : s.closing action = some socket) :
    socket ∈ s.sockets ∧ socket ≠ serv_sock := by
  cases action with
  | readv result =>
      cases result with
      | closed =>
          cases closes
          exact (held.reading taken rfl).2
      | _ => cases closes
  | parent =>
      simp only [System.closing] at closes
      split at closes <;> rename_i point
      · cases closes
        rcases held.point with looping | ⟨_, serves⟩
        · rcases point with point | point <;>
            simp [point, ParentPoint.Looping] at looping
        · exact serves
      · cases closes
  | _ => cases closes

theorem SelectSet.accepting (held : SelectSet serv_sock s) {socket : Nat}
    (above : serv_sock < socket)
    (taken : step serv_sock s (.accept socket) = some next) :
    socket ∉ s.cpy_reads := by
  cases step_moves taken with
  | accept _ point isListening _ fresh =>
      intro ready
      exact fresh (held.ahead (by simp [point]) socket ready (by omega))

end selectSet

/-- In every run without a quit whose accepted descriptors are above the
listening socket: `reads` holds the listening socket and the open clients, up to
`fd_max`; what is read or closed is an open client; what is accepted is not in
the snapshot; and in a round the descriptors read and those closed increase. -/
theorem select_set_kept {serv_sock : Nat} {actions : List Action} {s : System}
    (guarded : Guarded (step serv_sock) (NoQuitAbove serv_sock)
      (System.initial serv_sock) actions)
    (reached : run (step serv_sock) (System.initial serv_sock) actions = some s) :
    (s.reads = s.sockets ∧ serv_sock ∈ s.reads ∧ ∀ socket ∈ s.reads, socket ≤ s.fd_max) ∧
      (∀ action next socket, step serv_sock s action = some next →
        s.reading action = some socket →
          socket ∈ s.reads ∧ socket ∈ s.sockets ∧ socket ≠ serv_sock) ∧
      (∀ action next socket, step serv_sock s action = some next →
        s.closing action = some socket →
          socket ∈ s.sockets ∧ socket ≠ serv_sock) ∧
      (∀ socket next, serv_sock < socket →
        step serv_sock s (.accept socket) = some next → socket ∉ s.cpy_reads) ∧
      ∀ round, (∀ action ∈ round, InRound action) →
        (observed (step serv_sock) System.reading s round).Pairwise (· < ·) ∧
        (observed (step serv_sock) System.closing s round).Pairwise (· < ·) := by
  have held : SelectSet serv_sock s :=
    run_invariant (SelectSet serv_sock)
      (fun held permitted taken => selectSet_step held permitted taken)
      (selectSet_initial serv_sock) guarded reached
  refine ⟨⟨held.same, held.same ▸ held.listening, ?_⟩, ?_, ?_, ?_, ?_⟩
  · rw [held.same]
    exact held.bounded
  · intro action next socket taken reads
    exact held.reading taken reads
  · intro action next socket taken closes
    exact held.closing taken closes
  · intro socket next above taken
    exact held.accepting above taken
  · intro round inRound
    constructor
    · exact (observed_pairwise (fun allowed taken => (round_order allowed taken).1)
        (fun _ taken reads => reading_order taken reads) inRound).2
    · exact (observed_pairwise (fun allowed taken => (round_order allowed taken).2)
        (fun _ taken closes => closing_order taken closes) inRound).2

instance (serv_sock : Nat) (s : System) :
    (action : Action) → Decidable (NoQuitAbove serv_sock s action)
  | .accept socket => inferInstanceAs (Decidable (serv_sock < socket))
  | .readv result => inferInstanceAs (Decidable (s.servedMode result ≠ .quit))
  | .select _ | .skip | .parent | .child => isTrue trivial

/-- In one round client 10 connects and clients 8 and 9 leave. -/
def acceptAndClose : List Action :=
  connectTwice ++ .select {3, 8, 9} :: List.replicate 3 .skip ++ .accept 10 ::
    List.replicate 4 .skip ++ [.readv .closed, .readv .closed, .skip, .skip]

theorem select_set_kept_acceptAndClose :
    ∃ s, run (step 3) (System.initial 3) acceptAndClose = some s ∧
      s.reads = {3, 10} ∧ s.reads = s.sockets := by
  have shape : (run (step 3) (System.initial 3) acceptAndClose).any (fun s =>
      s.reads = {3, 10}) = true := by
    decide +kernel
  have guarded : Guarded (step 3) (NoQuitAbove 3) (System.initial 3) acceptAndClose := by
    decide +kernel
  obtain ⟨s, reached, shaped⟩ := (Option.any_eq_true _ _).mp shape
  exact ⟨s, reached, of_decide_eq_true shaped, (select_set_kept guarded reached).1.1⟩

end NetworkProgramming.Hw6
