import NetworkProgramming.TestServ.Delivery

/-!
# Who is registered in `test_serv`

The registry against the program points of the threads: it holds the sockets of
the handlers that have not yet removed theirs, in the order in which the
handlers were made, and behind them the socket that the main loop has appended
and has no handler yet.  A descriptor that was closed and accepted again is
registered for its newer connection only, so a removal takes out the entry of
its own connection.
-/

namespace NetworkProgramming.TestServ

open MachineInt Broadcast Transition

/-- The sockets accepted and appended whose handler has not yet removed its own,
in the order in which they were registered. -/
def System.live (s : System) : List Nat :=
  (s.handlers.filter fun handler => handler.phase.status = .registered).map
      Handler.clnt_sock ++
    if s.point = .create then [s.clnt_sock] else []

def registeredSockets (places : List (Nat × Status)) : List Nat :=
  (places.filter fun place => place.2 = .registered).map Prod.fst

def View.live (v : View) : List Nat :=
  registeredSockets v.places ++ if v.point = .create then [v.clnt_sock] else []

@[simp] theorem registeredSockets_append (front back : List (Nat × Status)) :
    registeredSockets (front ++ back) =
      registeredSockets front ++ registeredSockets back := by
  simp [registeredSockets]

@[simp] theorem registeredSockets_cons (socket : Nat) (status : Status)
    (places : List (Nat × Status)) :
    registeredSockets ((socket, status) :: places) =
      if status = .registered then socket :: registeredSockets places
      else registeredSockets places := by
  simp only [registeredSockets, List.filter_cons, decide_eq_true_eq]
  split <;> simp

@[simp] theorem registeredSockets_nil : registeredSockets [] = [] := rfl

theorem live_view (s : System) : s.view.live = s.live := by
  simp only [View.live, System.live, System.view, registeredSockets, List.filter_map,
    List.map_map]
  rfl

section places

variable {places : List (Nat × Status)} {thread socket : Nat} {status other : Status}

theorem split_places (found : places[thread]? = some (socket, status)) :
    ∃ front back, places = front ++ (socket, status) :: back ∧
      ∀ moved, places.set thread (socket, moved) = front ++ (socket, moved) :: back := by
  obtain ⟨inside, isPlace⟩ := List.getElem?_eq_some_iff.mp found
  refine ⟨places.take thread, places.drop (thread + 1), ?_, ?_⟩
  · rw [← isPlace, List.getElem_cons_drop, List.take_append_drop]
  · intro moved
    exact List.set_eq_take_append_cons_drop.trans (if_pos inside)

theorem registeredSockets_set (found : places[thread]? = some (socket, status))
    (before : status ≠ .registered) (after : other ≠ .registered) :
    registeredSockets (places.set thread (socket, other)) =
      registeredSockets places := by
  obtain ⟨front, back, split, moved⟩ := split_places found
  rw [moved, split]
  simp [before, after]

theorem registeredSockets_remove
    (found : places[thread]? = some (socket, .registered))
    (once : (registeredSockets places).Nodup) :
    registeredSockets (places.set thread (socket, .removed)) =
      (registeredSockets places).erase socket := by
  obtain ⟨front, back, split, moved⟩ := split_places found
  rw [split] at once
  simp only [registeredSockets_append, registeredSockets_cons, if_true] at once
  have absent : socket ∉ registeredSockets front := by
    intro member
    exact List.disjoint_of_nodup_append once member (by simp)
  rw [moved, split]
  simp [List.erase_append_right _ absent]

theorem mem_registeredSockets
    (found : places[thread]? = some (socket, .registered)) :
    socket ∈ registeredSockets places := by
  obtain ⟨front, back, split, _⟩ := split_places found
  simp [split]

end places

/-! ## The registry of a consistent view -/

section view

variable {v next : View}

theorem Consistent.nodup (held : Consistent v) : v.registered.Nodup := by
  exact List.Nodup.of_map v.connection held.once_registered

theorem registered_eq_live_step (held : Consistent v) (same : v.registered = v.live)
    (taken : View.Step v next) : next.registered = next.live := by
  have once := held.nodup
  cases taken with
  | work => exact same
  | accept waits fresh =>
      rw [same]
      simp [View.live, waits]
  | append accepted =>
      rw [same]
      simp [View.live, accepted]
  | create appended =>
      rw [same]
      simp [View.live, appended]
  | broadcast text => exact same
  | remove found =>
      rw [same, View.live] at once
      have own := registeredSockets_remove found (List.Nodup.of_append_left once)
      have member := mem_registeredSockets found
      rw [same]
      simp [View.live, own, List.erase_append_left _ member]
  | close found =>
      have kept := @registeredSockets_set _ _ _ _ .closed found (by decide) (by decide)
      rw [same]
      simp [View.live, kept]

end view

/-! ## Every reachable state -/

theorem remove_possible {s : System} (bound : s.clnt_count ≤ MAX_CLNT)
    (clnt_sock : Nat) :
    ∃ clnt_socks clnt_count, s.remove clnt_sock = some (clnt_socks, clnt_count) ∧
      clnt_count ≤ MAX_CLNT := by
  unfold System.remove
  cases s.registered.idxOf? clnt_sock with
  | none => exact ⟨_, _, rfl, bound⟩
  | some i =>
      have inside : s.clnt_count - 1 - i = 0 ∨
          i + (s.clnt_count - 1 - i) < MAX_CLNT := by
        omega
      obtain ⟨shifted, ran, _⟩ := s.clnt_socks.exists_moveDown inside
      refine ⟨shifted, s.clnt_count - 1, ?_, by omega⟩
      exact congrArg (Option.map fun clnt_socks => (clnt_socks, s.clnt_count - 1)) ran

theorem clnt_count_step {atoi : List Byte → Word} {s next : System} {action : Action}
    (bound : s.clnt_count ≤ MAX_CLNT) (taken : step atoi s action = some next) :
    next.clnt_count ≤ MAX_CLNT := by
  cases taken_of_step taken with
  | append clnt_socks accepted stored => exact (CArray.set?_eq_some.mp stored).1
  | strtok thread next called =>
      obtain ⟨_, _, _, _, _, _, _, _, _, _, _, _, _, _, _, _, _, _, _, rfl⟩ :=
        System.strtok_eq_some called
      exact bound
  | remove thread handler clnt_socks clnt_count found phase removed =>
      obtain ⟨_, _, possible, small⟩ := remove_possible bound handler.clnt_sock
      rw [removed] at possible
      cases possible
      exact small
  | _ => exact bound

/-- The registered sockets are the live connections, and the array has room for them. -/
structure Registered (s : System) : Prop where
  consistent : Consistent s.view
  live : s.view.registered = s.view.live
  bound : s.clnt_count ≤ MAX_CLNT

section registered

variable {atoi : List Byte → Word} {s next : System}

theorem registered_step {action : Action} (held : Registered s)
    (taken : step atoi s action = some next) : Registered next := by
  have view := step_view taken
  exact ⟨consistent_step held.consistent view,
    registered_eq_live_step held.consistent held.live view,
    clnt_count_step held.bound taken⟩

theorem registered_of_reached {actions : List Action}
    (reached : run (step atoi) System.initial actions = some s) : Registered s :=
  run_invariant_of_step Registered (fun held taken => registered_step held taken)
    ⟨consistent_initial, rfl, Nat.zero_le _⟩ reached

theorem Registered.registered_eq (held : Registered s) : s.registered = s.live :=
  held.live.trans (live_view s)

theorem remove_step {thread : Nat} {handler : Handler}
    {clnt_socks : CArray Nat MAX_CLNT} {clnt_count : Nat}
    (found : s.handler? thread = some handler) (phase : handler.phase = .cleanup)
    (removed : s.remove handler.clnt_sock = some (clnt_socks, clnt_count)) :
    step atoi s (.remove thread) = some
      { s.put thread { handler with phase := .closing } with
        clnt_socks := clnt_socks
        clnt_count := clnt_count
        history := s.history ++ [.leave thread] } := by
  simp [step, found, phase, removed]

theorem Registered.remove {thread : Nat} {handler : Handler} (held : Registered s)
    (found : s.handler? thread = some handler) (phase : handler.phase = .cleanup) :
    s.connection handler.clnt_sock = some thread ∧
      ∃ next, step atoi s (.remove thread) = some next ∧
        next.live = s.live.erase handler.clnt_sock ∧
        next.live.map next.connection =
          (s.live.map s.connection).erase (some thread) := by
  have place := place_of_handler found
  rw [Handler.place, phase] at place
  obtain ⟨clnt_socks, clnt_count, removed, _⟩ :=
    remove_possible held.bound handler.clnt_sock
  have taken := @remove_step atoi _ _ _ _ _ found phase removed
  have erased := registered_remove removed
  have after := (registered_step held taken).registered_eq
  rw [System.registered, erased, held.registered_eq] at after
  have own := (held.consistent.map_erase place).2
  rw [show s.view.registered = s.live from held.registered_eq] at own
  refine ⟨held.consistent.handled place (by decide), _, taken, after.symm, ?_⟩
  rw [← after]
  exact own

end registered

/-- In every reachable state `clnt_socks[0..clnt_count)` lists the sockets that
are registered and not yet removed, in order, each once and each open.  A
handler can always remove its own, and takes out no other connection. -/
theorem registry_is_live {atoi : List Byte → Word} {actions : List Action} {s : System}
    (reached : run (step atoi) System.initial actions = some s) :
    s.clnt_socks.cells.take s.clnt_count = s.live ∧ s.clnt_count = s.live.length ∧
      s.live.Nodup ∧ (∀ socket ∈ s.live, s.connection socket ≠ none) ∧
      ∀ thread handler, s.handler? thread = some handler → handler.phase = .cleanup →
        s.connection handler.clnt_sock = some thread ∧
        ∃ next, step atoi s (.remove thread) = some next ∧
          next.live = s.live.erase handler.clnt_sock ∧
          next.live.map next.connection =
            (s.live.map s.connection).erase (some thread) := by
  have held := registered_of_reached reached
  have live := held.registered_eq
  refine ⟨live, ?_, live ▸ held.consistent.nodup, ?_, ?_⟩
  · rw [← live, System.registered, List.length_take, s.clnt_socks.length_cells,
      Nat.min_eq_left held.bound]
  · intro socket member
    rw [← live] at member
    obtain ⟨client, _, isOpen⟩ := held.consistent.member_of_registered member
    exact Option.ne_none_iff_exists'.mpr ⟨client, isOpen⟩
  · intro thread handler found phase
    exact held.remove found phase

/-- A client leaves, its handler removes the socket and closes it, and the next
connection gets the same descriptor. -/
def descriptorReused : List Action :=
  let cleared := CArray.replicate BUF_SIZE 0#8
  let id := CArray.replicate (NAME_SIZE + 1) 0#8
  [.accept 4, .append, .create id cleared cleared, .accept 5, .append,
    .create id cleared cleared, .leave 0, .remove 0, .close 0, .accept 4, .append]

theorem registry_is_live_descriptorReused :
    ∃ s, run (step atoi) System.initial descriptorReused = some s ∧
      s.clnt_socks.cells.take s.clnt_count = s.live ∧ s.live = [5, 4] := by
  have shape : (run (step atoi) System.initial descriptorReused).any (fun s =>
      s.live = [5, 4]) = true := by
    decide +kernel
  obtain ⟨s, reached, shaped⟩ := (Option.any_eq_true _ _).mp shape
  exact ⟨s, reached, (registry_is_live reached).1, of_decide_eq_true shaped⟩

end NetworkProgramming.TestServ
