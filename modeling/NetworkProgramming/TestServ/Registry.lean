import NetworkProgramming.TestServ.System

/-!
# The registry of `test_serv`

What the registry depends on: the next step of the main loop, the sockets of
the handlers and how far each has come, the open descriptors and the history.
`View.Step` says how the server changes that, with `clnt_socks` as a list, and
`step_view` that each step of the server does this or leaves it alone.  In
every reachable view the registered descriptors are those of the members of the
history, in order.
-/

namespace NetworkProgramming.TestServ

open MachineInt Strtok Broadcast

/-- A socket is registered before its handler starts, is removed in the cleanup
and closed behind it. -/
inductive Status where
  | registered
  | removed
  | closed
deriving DecidableEq

def Phase.status : Phase → Status
  | .reading | .calculating _ _ _ | .calculated _ _ | .cleanup => .registered
  | .closing => .removed
  | .ended => .closed

def Handler.place (handler : Handler) : Nat × Status :=
  (handler.clnt_sock, handler.phase.status)

/-- What the registry has to do with, without buffers and requests. -/
structure View where
  point : MainPoint
  clnt_sock : Nat
  registered : List Nat
  places : List (Nat × Status)
  connection : Nat → Option Nat
  results : List (Nat × Result)
  history : List (Event Nat Result)

/-- A broadcast result, not the answer to a count out of range. -/
def Message.result? : Message → Option Result
  | .result sent => some sent
  | .overflow _ => none

def System.view (s : System) : View where
  point := s.point
  clnt_sock := s.clnt_sock
  registered := s.registered
  places := s.handlers.map Handler.place
  connection := s.connection
  results := s.sent.filterMap fun entry =>
    entry.2.result?.map fun result => (entry.1, result)
  history := s.history

def View.received (v : View) (client : Nat) : List Result :=
  (v.results.filter (·.1 = client)).map Prod.snd

/-- What a step of the system does to its view. -/
inductive View.Step (v : View) : View → Prop where
  | work : Step v v
  | accept {socket : Nat} (waits : v.point = .accept)
      (fresh : v.connection socket = none) :
      Step v { v with
        clnt_sock := socket
        connection := Function.update v.connection socket (some v.places.length)
        point := .append }
  | append (accepted : v.point = .append) :
      Step v { v with
        registered := v.registered ++ [v.clnt_sock]
        history := v.history ++ [.join v.places.length]
        point := .create }
  | create (appended : v.point = .create) :
      Step v { v with
        places := v.places ++ [(v.clnt_sock, .registered)]
        point := .accept }
  | broadcast (text : List Byte) :
      Step v { v with
        results := v.results ++ v.registered.filterMap fun socket =>
          (v.connection socket).map fun client =>
            (client, ⟨(sends v.history).length, text⟩)
        history := v.history ++ [.send ⟨(sends v.history).length, text⟩] }
  | remove {thread socket : Nat}
      (found : v.places[thread]? = some (socket, .registered)) :
      Step v { v with
        registered := v.registered.erase socket
        places := v.places.set thread (socket, .removed)
        history := v.history ++ [.leave thread] }
  | close {thread socket : Nat}
      (found : v.places[thread]? = some (socket, .removed)) :
      Step v { v with
        connection := Function.update v.connection socket none
        places := v.places.set thread (socket, .closed) }

/-! ## Removing from the array -/

/-- The section removes the socket from the used part and keeps the order of
the others. -/
theorem registered_remove {s : System} {clnt_sock clnt_count : Nat}
    {clnt_socks : CArray Nat MAX_CLNT}
    (ran : s.remove clnt_sock = some (clnt_socks, clnt_count)) :
    clnt_socks.cells.take clnt_count = s.registered.erase clnt_sock := by
  unfold System.remove at ran
  rw [List.erase_eq_eraseIdx]
  cases found : s.registered.idxOf? clnt_sock with
  | none =>
      simp only [found, Option.some.injEq, Prod.mk.injEq] at ran
      obtain ⟨rfl, rfl⟩ := ran
      rfl
  | some i =>
      simp only [found] at ran
      obtain ⟨shifted, moved, same⟩ := Option.map_eq_some_iff.mp ran
      cases same
      obtain ⟨inside, _⟩ := List.idxOf?_eq_some_iff.mp found
      simp only [System.registered, List.length_take] at inside
      have used : s.clnt_count - 1 + 1 = s.clnt_count := by omega
      have kept : clnt_socks.cells.take (s.clnt_count - 1) =
          (s.clnt_socks.cells.take (s.clnt_count - 1 + 1)).eraseIdx i :=
        CArray.take_moveDown moved (by omega) (by omega)
      rw [kept, used, System.registered]

/-! ## The steps of the server in the view -/

section view

variable {s next : System} {thread : Nat} {handler : Handler}

theorem view_put (s : System) (thread : Nat) (handler : Handler) :
    (s.put thread handler).view =
      { s.view with places := s.view.places.set thread handler.place } := by
  simp [System.view, System.put, System.registered, List.map_set]

theorem place_of_handler (found : s.handler? thread = some handler) :
    s.view.places[thread]? = some handler.place := by
  simp only [System.view, List.getElem?_map]
  rw [System.handler?] at found
  rw [found, Option.map_some]

theorem view_put_same {moved : Handler} (found : s.handler? thread = some handler)
    (same : moved.place = handler.place) : (s.put thread moved).view = s.view := by
  have place := place_of_handler found
  obtain ⟨bound, isPlace⟩ := List.getElem?_eq_some_iff.mp place
  have kept : s.view.places.set thread moved.place = s.view.places := by
    rw [same, ← isPlace, List.set_getElem_self]
  rw [view_put, kept]

theorem place_progress {evaluation : Evaluation} (progress : Progress) :
    (progress.phase evaluation).status = .registered := by
  cases progress <;> rfl

theorem view_strtok {atoi : List Byte → Word}
    (taken : s.strtok atoi thread = some next) : next.view = s.view := by
  obtain ⟨handler, evaluation, point, call, owner, position, scanned, token, cut,
    stopped, again, progress, found, phase, _, ownerFound, _, refound, _, rfl⟩ :=
    System.strtok_eq_some taken
  have first : (s.put owner { scanned with expr_copy := cut }).view = s.view :=
    view_put_same ownerFound rfl
  have place : again.place = handler.place := by
    have before := place_of_handler found
    have after := place_of_handler refound
    rw [first, before] at after
    exact (Option.some.inj after).symm
  have status : again.phase.status = .registered := by
    rw [show again.phase.status = handler.phase.status from congrArg Prod.snd place,
      phase]
    rfl
  refine (view_put_same refound ?_).trans first
  simp only [Handler.place, place_progress, status]

theorem results_broadcast (s : System) (result : Result) :
    (s.broadcast (.result result)).filterMap (fun entry =>
        entry.2.result?.map fun result => (entry.1, result)) =
      s.registered.filterMap fun socket =>
        (s.connection socket).map fun client => (client, result) := by
  rw [System.broadcast, List.filterMap_filterMap]
  congr 1
  funext socket
  cases s.connection socket <;> rfl

theorem no_result (text : List Byte) (client : Option Nat) :
    (client.toList.map fun client => (client, Message.overflow text)).filterMap
      (fun entry => entry.2.result?.map fun result => (entry.1, result)) = [] := by
  cases client <;> rfl

theorem step_view {atoi : List Byte → Word} {action : Action}
    (taken : step atoi s action = some next) : View.Step s.view next.view := by
  cases taken_of_step taken with
  | accept socket waits fresh =>
      have step := @View.Step.accept s.view socket waits fresh
      simpa [System.view, System.registered] using step
  | append clnt_socks accepted stored =>
      obtain ⟨inside, cells⟩ := CArray.set?_eq_some.mp stored
      have longer : clnt_socks.cells.take (s.clnt_count + 1) =
          s.registered ++ [s.clnt_sock] := by
        rw [cells, List.take_succ_eq_append_getElem (by
          rw [List.length_set, s.clnt_socks.length_cells]
          exact inside)]
        simp [System.registered, List.take_set_of_le]
      have step := @View.Step.append s.view accepted
      simpa [System.view, System.registered, longer] using step
  | create id expr expr_copy appended =>
      have step := @View.Step.create s.view appended
      simpa [System.view, System.registered, Handler.place, Phase.status] using step
  | request thread received locals handler scattered found phase _ filled =>
      simp only [Handler.scatter, Option.bind_eq_bind,
        Option.bind_eq_some_iff] at filled
      obtain ⟨id, _, expr, _, isScattered⟩ := filled
      cases isScattered
      rw [view_put_same found (by simp [Handler.place, phase, Phase.status])]
      exact .work
  | strtok thread next called =>
      rw [view_strtok called]
      exact .work
  | broadcast thread handler _ _ text found phase =>
      have kept := @view_put_same s _ _ { handler with phase := .reading } found
        (by simp [Handler.place, phase, Phase.status])
      have places := congrArg View.places kept
      have step := @View.Step.broadcast s.view text
      simp only [System.view, System.put] at places step ⊢
      rw [List.filterMap_append, results_broadcast, places]
      exact step
  | overflow thread handler _ _ text found phase =>
      have kept := @view_put_same s _ _ { handler with phase := .cleanup } found
        (by simp [Handler.place, phase, Phase.status])
      have places := congrArg View.places kept
      have step := @View.Step.work s.view
      simp only [System.view, System.put] at places step ⊢
      rw [List.filterMap_append, no_result, List.append_nil, places]
      exact step
  | leave thread handler found phase =>
      rw [view_put_same found (by simp [Handler.place, phase, Phase.status])]
      exact .work
  | remove thread handler clnt_socks clnt_count found phase removed =>
      have place := place_of_handler found
      rw [Handler.place, phase] at place
      have step := @View.Step.remove s.view _ _ place
      simpa [System.view, System.registered, System.put, registered_remove removed,
        List.map_set, Handler.place, Phase.status] using step
  | close thread handler found phase =>
      have place := place_of_handler found
      rw [Handler.place, phase] at place
      have step := @View.Step.close s.view _ _ place
      simpa [System.view, System.registered, System.put, List.map_set,
        Handler.place, Phase.status] using step

end view

/-! ## What the registry contains -/

/-- An open descriptor belongs to the handler that has not closed it, or to the
main loop between `accept` and `pthread_create`. -/
def View.Owns (v : View) (client socket : Nat) : Prop :=
  (∃ status, v.places[client]? = some (socket, status) ∧ status ≠ .closed) ∨
    (v.point ≠ .accept ∧ client = v.places.length ∧ socket = v.clnt_sock)

/-- A connection is registered until its handler has run the removal. -/
def View.Listed (v : View) (client : Nat) : Prop :=
  (∃ socket, v.places[client]? = some (socket, .registered)) ∨
    (v.point = .create ∧ client = v.places.length)

/-- The list of sockets has the current members, each once and in order. -/
structure Consistent (v : View) : Prop where
  connected : ∀ socket client, v.connection socket = some client ↔ v.Owns client socket
  current : ∀ client, client ∈ members v.history ↔ v.Listed client
  once : (members v.history).Nodup
  registry : v.registered.map v.connection = (members v.history).map some

theorem map_erase_of_nodup {α β : Type*} [DecidableEq α] [BEq β] [LawfulBEq β]
    {f : α → β} {items : List α} {item : α} (once : (items.map f).Nodup)
    (member : item ∈ items) :
    (items.erase item).map f = (items.map f).erase (f item) := by
  induction items with
  | nil => cases member
  | cons first items induction =>
      obtain ⟨new, once⟩ := List.nodup_cons.mp once
      by_cases same : first = item
      · subst same
        simp
      · have later : item ∈ items := by
          simpa [Ne.symm same] using member
        have different : f first ≠ f item := by
          intro equal
          exact new (equal ▸ List.mem_map_of_mem later)
        rw [List.erase_cons_tail (by simpa using same), List.map_cons, List.map_cons,
          List.erase_cons_tail (by simpa using different), induction once later]

section consistent

variable {v : View} {socket client : Nat}

theorem Consistent.member_of_registered (held : Consistent v)
    (member : socket ∈ v.registered) :
    ∃ client ∈ members v.history, v.connection socket = some client := by
  have mapped := List.mem_map_of_mem (f := v.connection) member
  rw [held.registry, List.mem_map] at mapped
  obtain ⟨client, isMember, isOpen⟩ := mapped
  exact ⟨client, isMember, isOpen.symm⟩

theorem Consistent.registered_of_member (held : Consistent v)
    (isMember : client ∈ members v.history) :
    ∃ socket ∈ v.registered, v.connection socket = some client := by
  have mapped := List.mem_map_of_mem (f := some) isMember
  rw [← held.registry, List.mem_map] at mapped
  obtain ⟨socket, member, isOpen⟩ := mapped
  exact ⟨socket, member, isOpen⟩

theorem Consistent.pending (held : Consistent v) (accepted : v.point ≠ .accept) :
    v.connection v.clnt_sock = some v.places.length :=
  (held.connected _ _).mpr (.inr ⟨accepted, rfl, rfl⟩)

theorem Consistent.handled (held : Consistent v) {status : Status}
    (found : v.places[client]? = some (socket, status)) (isOpen : status ≠ .closed) :
    v.connection socket = some client :=
  (held.connected _ _).mpr (.inl ⟨status, found, isOpen⟩)

theorem Consistent.unique (held : Consistent v) {other : Nat} {status : Status}
    (found : v.places[client]? = some (socket, status))
    (isOpen : v.connection other = some client) : other = socket := by
  have bound := (List.getElem?_eq_some_iff.mp found).1
  rcases (held.connected _ _).mp isOpen with ⟨_, same, _⟩ | ⟨_, isLast, _⟩
  · rw [found] at same
    cases same
    rfl
  · omega

theorem Consistent.once_registered (held : Consistent v) :
    (v.registered.map v.connection).Nodup := by
  rw [held.registry]
  exact held.once.map (Option.some_injective _)

/-- Removing the socket of a handler takes the entry of its own connection out. -/
theorem Consistent.map_erase {thread : Nat} (held : Consistent v)
    (found : v.places[thread]? = some (socket, .registered)) :
    socket ∈ v.registered ∧ (v.registered.erase socket).map v.connection =
      (v.registered.map v.connection).erase (some thread) := by
  have isOpen := held.handled found (by decide)
  have isMember : thread ∈ members v.history :=
    (held.current thread).mpr (.inl ⟨socket, found⟩)
  obtain ⟨other, member, otherOpen⟩ := held.registered_of_member isMember
  obtain rfl := held.unique found otherOpen
  exact ⟨member, isOpen ▸ map_erase_of_nodup held.once_registered member⟩

theorem consistent_accept (held : Consistent v) (waits : v.point = .accept)
    (fresh : v.connection socket = none) :
    Consistent { v with
      clnt_sock := socket
      connection := Function.update v.connection socket (some v.places.length)
      point := .append } where
  connected := by
    intro other client
    by_cases same : other = socket
    · subst same
      simp only [Function.update_self, Option.some.injEq, View.Owns, ne_eq,
        reduceCtorEq, not_false_eq_true, true_and, and_true]
      constructor
      · rintro rfl
        exact .inr rfl
      · intro given
        rcases given with ⟨status, found, isOpen⟩ | rfl
        · rw [held.handled found isOpen] at fresh
          cases fresh
        · rfl
    · have kept : Function.update v.connection socket (some v.places.length) other =
          v.connection other := Function.update_of_ne same _ _
      simp only [kept, held.connected]
      simp [View.Owns, waits, same]
  current := by
    intro client
    rw [held.current]
    simp [View.Listed, waits]
  once := held.once
  registry := by
    rw [← held.registry]
    refine List.map_congr_left fun other member => ?_
    obtain ⟨client, _, isOpen⟩ := held.member_of_registered member
    refine Function.update_of_ne ?_ _ _
    rintro rfl
    rw [fresh] at isOpen
    cases isOpen

theorem consistent_append (held : Consistent v) (accepted : v.point = .append) :
    Consistent { v with
      registered := v.registered ++ [v.clnt_sock]
      history := v.history ++ [.join v.places.length]
      point := .create } where
  connected := by
    intro socket client
    rw [held.connected]
    simp [View.Owns, accepted]
  current := by
    intro client
    rw [members_snoc, Event.members, List.mem_append, List.mem_singleton,
      held.current]
    simp [View.Listed, accepted]
  once := by
    rw [members_snoc, Event.members, List.nodup_append]
    refine ⟨held.once, by simp, ?_⟩
    rintro client isMember _ isNew rfl
    rw [List.mem_singleton] at isNew
    have listed := (held.current client).mp isMember
    simp [View.Listed, accepted, isNew] at listed
  registry := by
    have pending := held.pending (by rw [accepted]; decide)
    rw [members_snoc, Event.members, List.map_append, List.map_append, held.registry]
    simp [pending]

theorem consistent_create (held : Consistent v) (appended : v.point = .create) :
    Consistent { v with
      places := v.places ++ [(v.clnt_sock, .registered)]
      point := .accept } where
  connected := by
    intro socket client
    rw [held.connected]
    simp only [View.Owns, appended, getElem?_snoc_eq_some, Prod.mk.injEq]
    constructor
    · intro given
      rcases given with ⟨status, found, isOpen⟩ | ⟨_, rfl, rfl⟩
      · exact .inl ⟨status, .inl found, isOpen⟩
      · exact .inl ⟨.registered, .inr ⟨rfl, rfl, rfl⟩, by decide⟩
    · intro given
      rcases given with ⟨status, found | ⟨rfl, rfl, rfl⟩, isOpen⟩ | ⟨waits, _⟩
      · exact .inl ⟨status, found, isOpen⟩
      · exact .inr ⟨by decide, rfl, rfl⟩
      · exact absurd rfl waits
  current := by
    intro client
    rw [held.current]
    simp only [View.Listed, appended, getElem?_snoc_eq_some, Prod.mk.injEq]
    constructor
    · intro given
      rcases given with ⟨socket, found⟩ | ⟨_, rfl⟩
      · exact .inl ⟨socket, .inl found⟩
      · exact .inl ⟨v.clnt_sock, .inr ⟨rfl, rfl, trivial⟩⟩
    · intro given
      rcases given with ⟨socket, found | ⟨rfl, _, _⟩⟩ | ⟨waits, _⟩
      · exact .inl ⟨socket, found⟩
      · exact .inr ⟨trivial, rfl⟩
      · cases waits
  once := held.once
  registry := held.registry

theorem consistent_broadcast (held : Consistent v) (message : Result)
    (results : List (Nat × Result)) :
    Consistent { v with
      results := results
      history := v.history ++ [.send message] } where
  connected := held.connected
  current := by
    intro client
    rw [members_snoc]
    exact held.current client
  once := by
    rw [members_snoc]
    exact held.once
  registry := by
    rw [members_snoc]
    exact held.registry

theorem consistent_remove {thread : Nat} (held : Consistent v)
    (found : v.places[thread]? = some (socket, .registered)) :
    Consistent { v with
      registered := v.registered.erase socket
      places := v.places.set thread (socket, .removed)
      history := v.history ++ [.leave thread] } where
  connected := by
    intro other client
    rw [held.connected]
    simp only [View.Owns, getElem?_set_eq_some found, List.length_set, Prod.mk.injEq]
    constructor
    · intro given
      rcases given with ⟨status, other, isOpen⟩ | pending
      · by_cases same : client = thread
        · subst same
          rw [found] at other
          cases other
          exact .inl ⟨.removed, .inl ⟨rfl, rfl, rfl⟩, by decide⟩
        · exact .inl ⟨status, .inr ⟨same, other⟩, isOpen⟩
      · exact .inr pending
    · intro given
      rcases given with ⟨status, ⟨rfl, rfl, rfl⟩ | ⟨_, other⟩, isOpen⟩ | pending
      · exact .inl ⟨.registered, found, by decide⟩
      · exact .inl ⟨status, other, isOpen⟩
      · exact .inr pending
  current := by
    intro client
    have bound := (List.getElem?_eq_some_iff.mp found).1
    rw [members_snoc, Event.members, held.once.mem_erase_iff, held.current]
    simp only [View.Listed, getElem?_set_eq_some found, List.length_set, Prod.mk.injEq]
    constructor
    · intro given
      rcases given with ⟨different, ⟨other, listed⟩ | pending⟩
      · exact .inl ⟨other, .inr ⟨different, listed⟩⟩
      · exact .inr pending
    · intro given
      rcases given with ⟨other, ⟨_, _, isRemoved⟩ | ⟨different, listed⟩⟩ | ⟨point, rfl⟩
      · cases isRemoved
      · exact ⟨different, .inl ⟨other, listed⟩⟩
      · exact ⟨Nat.ne_of_gt bound, .inr ⟨point, rfl⟩⟩
  once := by
    rw [members_snoc]
    exact held.once.erase thread
  registry := by
    have isMember : thread ∈ members v.history :=
      (held.current thread).mpr (.inl ⟨socket, found⟩)
    have someOnce : ((members v.history).map some).Nodup :=
      held.once.map (Option.some_injective _)
    rw [members_snoc, Event.members, (held.map_erase found).2, held.registry,
      map_erase_of_nodup someOnce isMember]

theorem consistent_close {thread : Nat} (held : Consistent v)
    (found : v.places[thread]? = some (socket, .removed)) :
    Consistent { v with
      connection := Function.update v.connection socket none
      places := v.places.set thread (socket, .closed) } where
  connected := by
    intro other client
    have isOpen := held.handled found (by decide)
    by_cases same : other = socket
    · subst same
      simp only [Function.update_self, View.Owns, getElem?_set_eq_some found,
        List.length_set, Prod.mk.injEq]
      constructor
      · rintro ⟨⟩
      · intro given
        rcases given with ⟨status, ⟨_, _, rfl⟩ | ⟨different, listed⟩, notClosed⟩ | pending
        · exact absurd rfl notClosed
        · rw [held.handled listed notClosed] at isOpen
          exact absurd (Option.some.inj isOpen) different
        · have last := (held.connected _ _).mpr (.inr pending)
          rw [isOpen] at last
          have bound := (List.getElem?_eq_some_iff.mp found).1
          obtain ⟨_, isLast, _⟩ := pending
          have equal := Option.some.inj last
          omega
    · have kept : Function.update v.connection socket none other =
          v.connection other := Function.update_of_ne same _ _
      simp only [kept, held.connected, View.Owns, getElem?_set_eq_some found,
        List.length_set, Prod.mk.injEq]
      constructor
      · intro given
        rcases given with ⟨status, listed, notClosed⟩ | pending
        · refine .inl ⟨status, .inr ⟨?_, listed⟩, notClosed⟩
          rintro rfl
          rw [found] at listed
          cases listed
          exact same rfl
        · exact .inr pending
      · intro given
        rcases given with ⟨status, ⟨_, isSocket, _⟩ | ⟨_, listed⟩, notClosed⟩ | pending
        · exact absurd isSocket.symm same
        · exact .inl ⟨status, listed, notClosed⟩
        · exact .inr pending
  current := by
    intro client
    rw [held.current]
    simp only [View.Listed, getElem?_set_eq_some found, List.length_set, Prod.mk.injEq]
    constructor
    · intro given
      rcases given with ⟨other, listed⟩ | pending
      · refine .inl ⟨other, .inr ⟨?_, listed⟩⟩
        rintro rfl
        rw [found] at listed
        cases listed
      · exact .inr pending
    · intro given
      rcases given with ⟨other, ⟨_, _, isClosed⟩ | ⟨_, listed⟩⟩ | pending
      · cases isClosed
      · exact .inl ⟨other, listed⟩
      · exact .inr pending
  once := held.once
  registry := by
    rw [← held.registry]
    refine List.map_congr_left fun other member => Function.update_of_ne ?_ _ _
    rintro rfl
    obtain ⟨client, isMember, otherOpen⟩ := held.member_of_registered member
    rw [held.handled found (by decide)] at otherOpen
    cases otherOpen
    have bound := (List.getElem?_eq_some_iff.mp found).1
    rcases (held.current _).mp isMember with ⟨_, listed⟩ | ⟨_, isLast⟩
    · rw [found] at listed
      cases listed
    · omega

theorem consistent_step {next : View} (held : Consistent v) (taken : View.Step v next) :
    Consistent next := by
  cases taken with
  | work => exact held
  | accept waits fresh => exact consistent_accept held waits fresh
  | append accepted => exact consistent_append held accepted
  | create appended => exact consistent_create held appended
  | broadcast text => exact consistent_broadcast held _ _
  | remove found => exact consistent_remove held found
  | close found => exact consistent_close held found

end consistent

theorem consistent_initial : Consistent System.initial.view where
  connected := by simp [System.initial, System.view, View.Owns]
  current := by simp [System.initial, System.view, View.Listed]
  once := by simp [System.initial, System.view]
  registry := by simp [System.initial, System.view, System.registered]

end NetworkProgramming.TestServ
