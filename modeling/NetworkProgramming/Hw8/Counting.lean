import NetworkProgramming.Hw8.Handlers
import NetworkProgramming.Hw8.Removal

/-!
# What survives of the list of clients

Threads take the wrong sockets and the removal leaves the wrong cell, but in whatever
order clients come and go the count is that of the threads that have not left, and every
cell below it holds a socket that was accepted.  So nothing is written to a descriptor
that was never one of a client, and the list is left exactly when it is full.
-/

namespace NetworkProgramming.Hw8

open MachineInt Transition

/-- What an action accepts. -/
def Action.accepted : Action → Option Nat
  | .accept socket => some socket
  | _ => none

/-- Its thread has not run the disconnect block. -/
def Handler.isListed : Handler → Bool
  | .created | .serving _ _ | .sending _ _ _ | .leaving _ => true
  | .closing _ | .returned => false

/-- How many connections were registered and not removed. -/
def System.listed (s : System) : Nat :=
  s.handlers.countP Handler.isListed + if s.point = .create then 1 else 0

def System.list (s : System) : List Nat := s.clnt_socks.cells.take s.listed

/-- The counter agrees with the threads, and the list has known sockets only. -/
structure Counted (known : Nat → Prop) (s : System) : Prop where
  count : s.clnt_cnt = s.listed
  fits : s.listed ≤ MAX_CLNT
  newest : s.point ≠ .accept → known s.clnt_sock
  list : ∀ socket ∈ s.list, known socket
  sent : ∀ message ∈ s.sent, known message.1

section counted

variable {known : Nat → Prop} {s next : System}

theorem Counted.mono {wider : Nat → Prop} (held : Counted known s)
    (weaker : ∀ socket, known socket → wider socket) : Counted wider s where
  count := held.count
  fits := held.fits
  newest point := weaker _ (held.newest point)
  list socket inside := weaker socket (held.list socket inside)
  sent message inside := weaker _ (held.sent message inside)

theorem Counted.of_set (held : Counted known s) {thread : Nat} {old new : Handler}
    (found : s.handlers[thread]? = some old) (listed : new.isListed = old.isListed)
    {sockets : Finset Nat} {sent : List (Nat × List Byte)}
    (reaches : ∀ message ∈ sent, known message.1) :
    Counted known { s with
      handlers := s.handlers.set thread new
      sockets := sockets
      sent := sent } := by
  obtain ⟨rest, before, after⟩ := exists_perm_set found new
  have same : System.listed { s with
      handlers := s.handlers.set thread new
      sockets := sockets
      sent := sent } = s.listed := by
    simp only [System.listed, after.countP_eq, before.countP_eq, List.countP_cons, listed]
  constructor
  · rw [same]
    exact held.count
  · rw [same]
    exact held.fits
  · exact held.newest
  · unfold System.list
    rw [same]
    exact held.list
  · exact reaches

theorem counted_append {clnt_socks : CArray Nat MAX_CLNT} (held : Counted known s)
    (point : s.point = .append)
    (stored : s.clnt_socks.set? s.clnt_cnt.toNat s.clnt_sock = some clnt_socks) :
    Counted known { s with
      clnt_socks := clnt_socks
      clnt_cnt := s.clnt_cnt + 1
      point := .create } := by
  obtain ⟨inside, cells⟩ := CArray.set?_eq_some.mp stored
  rw [held.count, Int.toNat_natCast] at inside cells
  have one : System.listed { s with
      clnt_socks := clnt_socks
      clnt_cnt := s.clnt_cnt + 1
      point := .create } = s.listed + 1 := by
    simp [System.listed, point]
  have room : s.listed < s.clnt_socks.cells.length := by
    rwa [s.clnt_socks.length_cells]
  constructor
  · rw [one, held.count]
    rfl
  · rw [one]
    exact inside
  · exact fun _ => held.newest (by simp [point])
  · unfold System.list
    rw [one, cells, List.take_succ_eq_append_getElem (by simpa using room),
      List.take_set_of_le (Nat.le_refl _), List.getElem_set_self]
    intro socket member
    rcases List.mem_append.mp member with earlier | newest
    · exact held.list socket earlier
    · rw [List.mem_singleton.mp newest]
      exact held.newest (by simp [point])
  · exact held.sent

/-- The cells below the new count held a socket of the list before. -/
theorem disconnect_subset {listed clnt_sock : Nat} {clnt_socks result : CArray Nat MAX_CLNT}
    {clnt_cnt : Int}
    (ran : disconnect clnt_socks listed clnt_sock = some (result, clnt_cnt)) :
    clnt_cnt = listed - 1 ∧
      ∀ socket ∈ result.cells.take (listed - 1), socket ∈ clnt_socks.cells.take listed := by
  have kept : ∀ socket ∈ clnt_socks.cells.take (listed - 1),
      socket ∈ clnt_socks.cells.take listed :=
    List.take_subset_take_left _ (by omega)
  simp only [disconnect, Int.toNat_natCast] at ran
  split at ran
  · rename_i found isFound
    obtain ⟨moved, shifted, final⟩ := Option.bind_eq_some_iff.mp ran
    cases final
    refine ⟨rfl, ?_⟩
    have inside : found < listed := by
      have bound := (List.findIdx?_eq_some_iff_getElem.mp isFound).1
      rw [List.length_take] at bound
      omega
    by_cases last : found + 1 = listed
    · rw [shift_last last] at shifted
      cases shifted
      exact kept
    · intro socket member
      rw [take_shift (by omega) shifted] at member
      exact List.mem_of_mem_eraseIdx member
  · cases ran
    exact ⟨rfl, kept⟩

theorem counted_disconnect {thread clnt_sock : Nat} {clnt_socks : CArray Nat MAX_CLNT}
    {clnt_cnt : Int} (held : Counted known s)
    (found : s.handlers[thread]? = some (.leaving clnt_sock))
    (removed : disconnect s.clnt_socks s.clnt_cnt clnt_sock = some (clnt_socks, clnt_cnt)) :
    Counted known { s with
      clnt_socks := clnt_socks
      clnt_cnt := clnt_cnt
      handlers := s.handlers.set thread (.closing clnt_sock) } := by
  rw [held.count] at removed
  obtain ⟨rfl, subset⟩ := disconnect_subset removed
  obtain ⟨rest, before, after⟩ := exists_perm_set found (.closing clnt_sock)
  have one : s.listed = System.listed { s with
      clnt_socks := clnt_socks
      clnt_cnt := s.listed - 1
      handlers := s.handlers.set thread (.closing clnt_sock) } + 1 := by
    simp only [System.listed, after.countP_eq, before.countP_eq, List.countP_cons,
      Handler.isListed, if_true, Bool.false_eq_true, if_false]
    omega
  have fits := held.fits
  constructor
  · simp only
    omega
  · omega
  · exact held.newest
  · intro socket member
    refine held.list socket (subset socket ?_)
    rw [one, Nat.add_sub_cancel]
    exact member
  · exact held.sent

theorem counted_step {action : Action} (held : Counted known s)
    (taken : step s action = some next) :
    Counted (fun socket => known socket ∨ action.accepted = some socket) next := by
  have wider {action : Action} (socket : Nat) (earlier : known socket) :
      known socket ∨ action.accepted = some socket := .inl earlier
  cases System.moves_of_step taken with
  | accept socket point fresh =>
      have same : System.listed { s with
          clnt_sock := socket
          sockets := insert socket s.sockets
          point := .append } = s.listed := by
        simp [System.listed, point]
      refine ⟨by rw [same, held.count], by rw [same]; exact held.fits, fun _ => .inr rfl, ?_,
        fun message inside => .inl (held.sent message inside)⟩
      unfold System.list
      rw [same]
      exact fun other inside => .inl (held.list other inside)
  | append point positive stored => exact (counted_append held point stored).mono wider
  | create point =>
      have same : System.listed { s with
          handlers := s.handlers ++ [.created]
          point := .accept } = s.listed := by
        simp [System.listed, point, Handler.isListed]
      refine ⟨by rw [same, held.count], by rw [same]; exact held.fits, fun busy => ?_, ?_,
        fun message inside => .inl (held.sent message inside)⟩
      · exact absurd rfl busy
      · unfold System.list
        rw [same]
        exact fun other inside => .inl (held.list other inside)
  | start thread locals found => exact (held.of_set found (by rfl) held.sent).mono wider
  | readv thread received found => exact (held.of_set found (by rfl) held.sent).mono wider
  | send_all thread found =>
      refine (held.of_set found (by rfl) ?_).mono wider
      intro message inside
      rw [System.send_all, held.count, Int.toNat_natCast, List.mem_append] at inside
      rcases inside with earlier | copy
      · exact held.sent message earlier
      · obtain ⟨socket, listed, rfl⟩ := List.mem_map.mp copy
        exact held.list socket listed
  | leave thread found => exact (held.of_set found (by rfl) held.sent).mono wider
  | disconnect thread found removed => exact (counted_disconnect held found removed).mono wider
  | close thread found => exact (held.of_set found (by rfl) held.sent).mono wider

end counted

theorem counted_run {actions : List Action} {s : System}
    (reached : run step System.initial actions = some s) :
    Counted (fun socket => .accept socket ∈ actions) s := by
  induction actions using List.reverseRecOn generalizing s with
  | nil =>
      cases reached
      exact ⟨rfl, by decide, by simp [System.initial], by simp [System.list, System.listed,
        System.initial], by simp [System.initial]⟩
  | append_singleton actions action induction =>
      rw [run_snoc] at reached
      obtain ⟨before, ran, taken⟩ := Option.bind_eq_some_iff.mp reached
      refine (counted_step (induction ran) taken).mono fun socket accepted => ?_
      rcases accepted with earlier | newest
      · exact List.mem_append_left _ earlier
      · cases action with
        | accept other =>
            cases newest
            exact List.mem_append_right _ List.mem_cons_self
        | _ => cases newest

/-- The disconnect block reads behind the array exactly for a full list and a client that
is not its last. -/
theorem disconnect_defined_iff {listed clnt_sock : Nat} {clnt_socks : CArray Nat MAX_CLNT}
    (fits : listed ≤ MAX_CLNT) :
    (∃ result, disconnect clnt_socks listed clnt_sock = some result) ↔
      listed < MAX_CLNT ∨ clnt_sock ∉ (clnt_socks.cells.take listed).dropLast := by
  have length : (clnt_socks.cells.take listed).length = listed := by
    rw [List.length_take, clnt_socks.length_cells]
    omega
  simp only [disconnect, Int.toNat_natCast]
  split
  · rename_i found isFound
    obtain ⟨inside, isSocket, first⟩ := List.findIdx?_eq_some_iff_getElem.mp isFound
    have front : clnt_sock ∈ (clnt_socks.cells.take listed).dropLast ↔
        found + 1 < listed := by
      rw [List.dropLast_eq_take, length, List.mem_take_iff_getElem]
      constructor
      · rintro ⟨place, bound, same⟩
        have notEarlier : ¬ place < found := by
          intro earlier
          have other := first place earlier
          simp [same] at other
        omega
      · intro before
        exact ⟨found, by omega, by simpa using isSocket⟩
    rw [front, shift_eq_moveDown]
    constructor
    · rintro ⟨result, ran⟩
      obtain ⟨moved, shifted, _⟩ := Option.bind_eq_some_iff.mp ran
      have bound := CArray.moveDown_bound shifted
      omega
    · intro room
      obtain ⟨moved, shifted, _⟩ := clnt_socks.exists_moveDown
        (show listed - 1 - found = 0 ∨ found + 1 + (listed - 1 - found) < MAX_CLNT by omega)
      rw [shifted]
      exact ⟨_, rfl⟩
  · rename_i absent
    have notThere : clnt_sock ∉ clnt_socks.cells.take listed := by
      intro member
      have all := List.findIdx?_eq_none_iff.mp absent clnt_sock member
      simp at all
    refine iff_of_true ⟨_, rfl⟩ (.inr fun member => notThere ?_)
    exact List.mem_of_mem_dropLast member

/-- In every order of the steps, with threads that took the wrong socket and clients that
left: the counter is right, no descriptor is written to that was not accepted, a client
can be registered while there are fewer than 256, and one can be removed unless the list is
full and holds it in front of its last cell. -/
theorem clients_counted {actions : List Action} {s : System}
    (reached : run step System.initial actions = some s) :
    (s.clnt_cnt = s.listed ∧ s.listed ≤ MAX_CLNT) ∧
      ((∀ socket ∈ s.list, .accept socket ∈ actions) ∧
        ∀ message ∈ s.sent, .accept message.1 ∈ actions) ∧
      (s.point = .append →
        ((∃ next, step s .append = some next) ↔ s.listed < MAX_CLNT)) ∧
      ∀ thread clnt_sock, s.handlers[thread]? = some (.leaving clnt_sock) →
        ((∃ next, step s (.disconnect thread) = some next) ↔
          s.listed < MAX_CLNT ∨ clnt_sock ∉ s.list.dropLast) := by
  have held := counted_run reached
  refine ⟨⟨held.count, held.fits⟩, ⟨held.list, held.sent⟩, ?_, ?_⟩
  · intro point
    have positive : (0 : Int) ≤ s.listed := Int.natCast_nonneg _
    simp only [step, point, held.count, positive, and_self, if_true, Int.toNat_natCast]
    by_cases room : s.listed < MAX_CLNT <;> simp [CArray.set?, room]
  · intro thread clnt_sock found
    have defined := @disconnect_defined_iff _ clnt_sock s.clnt_socks held.fits
    rw [System.list, ← defined]
    simp only [step, found, held.count]
    cases disconnect s.clnt_socks s.listed clnt_sock <;> simp

/-- Both threads take the socket of the second client; when one has left, the other's
removal finds no cell of its own. -/
theorem clients_counted_lateStart : ∃ s,
    run step System.initial (lateStart ++ [.leave 0, .disconnect 0, .close 0, .leave 1]) =
        some s ∧
      s.clnt_cnt = 1 ∧ s.list = [4] ∧
        ∃ next, step s (.disconnect 1) = some next := by
  have shape : (run step System.initial
      (lateStart ++ [.leave 0, .disconnect 0, .close 0, .leave 1])).any (fun s =>
        s.clnt_cnt = 1 ∧ s.listed = 1 ∧ s.list = [4]) = true := by
    decide +kernel
  have behindLoop : (run step System.initial
      (lateStart ++ [.leave 0, .disconnect 0, .close 0, .leave 1])).bind (·.handlers[1]?) =
        some (.leaving 5) := rfl
  obtain ⟨s, reached, shaped⟩ := (Option.any_eq_true _ _).mp shape
  obtain ⟨one, listed, list⟩ := of_decide_eq_true shaped
  have leaving : s.handlers[1]? = some (.leaving 5) := by
    rwa [reached, Option.bind_some] at behindLoop
  refine ⟨s, reached, one, list, ?_⟩
  exact ((clients_counted reached).2.2.2 1 5 leaving).mpr (.inl (by rw [listed]; decide))

end NetworkProgramming.Hw8
