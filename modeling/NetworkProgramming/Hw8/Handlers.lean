import Mathlib.Data.List.Perm.Basic
import NetworkProgramming.Hw8.System

/-!
# One handler for each connection

A thread learns its socket from a variable that the main loop goes on writing.
When `accept` returns before the thread created last has copied its argument,
two threads take the newer socket and none the older one.  When it does not,
each open socket belongs to exactly one thread, or to the main loop until its
thread has taken it.
-/

namespace NetworkProgramming.Hw8

open MachineInt Transition

/-- The sockets that handlers have taken and not yet closed. -/
def System.taken (s : System) : List Nat := s.handlers.filterMap Handler.socket

/-- How many threads will still copy main's variable: those created and the
one that the main loop is about to create. -/
def System.waiting (s : System) : Nat :=
  s.handlers.countP Handler.isCreated + if s.point = .accept then 0 else 1

/-- Every accepted socket that is still open is served by exactly one handler:
no two handlers hold the same one, and each is held or will be taken by the
next thread that copies main's variable. -/
structure System.OneHandlerEach (s : System) : Prop where
  distinct : s.taken.Nodup
  served : ∀ socket ∈ s.sockets,
    socket ∈ s.taken ∨ (s.clnt_sock = socket ∧ 0 < s.waiting)

/-- `accept` returns only when every created thread has copied its argument. -/
def Settled (s : System) (action : Action) : Prop :=
  ∀ socket, action = .accept socket → s.handlers.countP Handler.isCreated = 0

/-- The taken sockets and, once for each waiting thread, main's variable. -/
def System.owned (s : System) : List Nat :=
  s.taken ++ List.replicate s.waiting s.clnt_sock

/-- Every open socket has one owner, and only open sockets have. -/
structure Ownership (s : System) : Prop where
  once : s.owned.Nodup
  all : ∀ socket, socket ∈ s.owned ↔ socket ∈ s.sockets

theorem Ownership.oneHandlerEach {s : System} (held : Ownership s) :
    s.OneHandlerEach where
  distinct := (List.nodup_append.mp held.once).1
  served := by
    intro socket isOpen
    rcases List.mem_append.mp ((held.all socket).mpr isOpen) with taken | main
    · exact .inl taken
    · obtain ⟨waiting, same⟩ := List.mem_replicate.mp main
      exact .inr ⟨same.symm, Nat.pos_of_ne_zero waiting⟩

theorem Ownership.of_perm {s next : System} (held : Ownership s)
    (same : s.owned.Perm next.owned) (sockets : next.sockets = s.sockets) :
    Ownership next where
  once := same.nodup held.once
  all := by
    intro socket
    rw [← same.mem_iff, held.all, sockets]

theorem exists_perm_set {α : Type*} {items : List α} {index : Nat} {old : α}
    (found : items[index]? = some old) (new : α) :
    ∃ rest, items.Perm (old :: rest) ∧ (items.set index new).Perm (new :: rest) := by
  obtain ⟨bound, rfl⟩ := List.getElem?_eq_some_iff.mp found
  exact ⟨items.eraseIdx index, (List.getElem_cons_eraseIdx_perm bound).symm,
    List.set_perm_cons_eraseIdx bound new⟩

section preservation

variable {s next : System}

theorem owned_set {thread : Nat} {old new : Handler}
    (found : s.handlers[thread]? = some old)
    (handlers : next.handlers = s.handlers.set thread new)
    (socket : new.socket = old.socket) (created : new.isCreated = old.isCreated)
    (point : next.point = s.point) (clnt_sock : next.clnt_sock = s.clnt_sock) :
    s.owned.Perm next.owned := by
  obtain ⟨rest, before, after⟩ := exists_perm_set found new
  have taken : s.taken.Perm next.taken := by
    unfold System.taken
    rw [handlers]
    refine (before.filterMap Handler.socket).trans
      (.trans ?_ (after.filterMap Handler.socket).symm)
    simp only [List.filterMap_cons, socket]
    exact .refl _
  have waiting : next.waiting = s.waiting := by
    unfold System.waiting
    rw [handlers, point, after.countP_eq, before.countP_eq, List.countP_cons,
      List.countP_cons, created]
  unfold System.owned
  rw [waiting, clnt_sock]
  exact taken.append_right _

theorem ownership_accept {socket : Nat} (held : Ownership s)
    (settled : s.handlers.countP Handler.isCreated = 0) (point : s.point = .accept)
    (fresh : socket ∉ s.sockets) :
    Ownership { s with
      clnt_sock := socket
      sockets := insert socket s.sockets
      point := .append } := by
  have before : s.owned = s.taken := by
    simp [System.owned, System.waiting, settled, point]
  obtain ⟨once, all⟩ := held
  rw [before] at once
  have unowned : socket ∉ s.taken := by
    rw [← before, all]
    exact fresh
  have after : System.owned { s with
      clnt_sock := socket
      sockets := insert socket s.sockets
      point := .append } = s.taken ++ [socket] := by
    simp [System.owned, System.waiting, settled, System.taken]
  constructor
  · rw [after, List.nodup_append]
    refine ⟨once, by simp, ?_⟩
    intro other member newest isNewest equal
    rw [List.mem_singleton] at isNewest
    exact unowned (isNewest ▸ equal ▸ member)
  · intro other
    rw [after, List.mem_append, List.mem_singleton, ← before, all]
    simp [or_comm]

theorem ownership_start {thread : Nat} (held : Ownership s) (locals : Locals)
    (found : s.handlers[thread]? = some .created) :
    Ownership { s with
      handlers := s.handlers.set thread (.serving s.clnt_sock locals) } := by
  obtain ⟨rest, before, after⟩ :=
    exists_perm_set found (.serving s.clnt_sock locals)
  refine held.of_perm ?_ rfl
  have takenBefore : s.taken.Perm (rest.filterMap Handler.socket) :=
    before.filterMap Handler.socket
  have takenAfter := after.filterMap Handler.socket
  have waiting : s.waiting = (rest.countP Handler.isCreated +
      if s.point = .accept then 0 else 1) + 1 := by
    simp only [System.waiting, before.countP_eq, List.countP_cons,
      Handler.isCreated, if_true]
    omega
  have left : System.waiting { s with
      handlers := s.handlers.set thread (.serving s.clnt_sock locals) } =
        rest.countP Handler.isCreated + if s.point = .accept then 0 else 1 := by
    simp [System.waiting, after.countP_eq, Handler.isCreated]
  unfold System.owned
  rw [waiting, left, List.replicate_succ]
  refine (takenBefore.append_right _).trans (List.perm_middle.trans ?_)
  exact (takenAfter.append_right _).symm

theorem ownership_close {thread clnt_sock : Nat} (held : Ownership s)
    (found : s.handlers[thread]? = some (.closing clnt_sock)) :
    Ownership { s with
      sockets := s.sockets.erase clnt_sock
      handlers := s.handlers.set thread .returned } := by
  obtain ⟨rest, before, after⟩ := exists_perm_set found .returned
  have takenBefore : s.taken.Perm
      (clnt_sock :: rest.filterMap Handler.socket) :=
    before.filterMap Handler.socket
  have takenAfter := after.filterMap Handler.socket
  have same : s.owned.Perm (clnt_sock :: System.owned { s with
      sockets := s.sockets.erase clnt_sock
      handlers := s.handlers.set thread .returned }) := by
    have waiting : System.waiting { s with
        sockets := s.sockets.erase clnt_sock
        handlers := s.handlers.set thread .returned } = s.waiting := by
      simp [System.waiting, after.countP_eq, before.countP_eq,
        Handler.isCreated]
    unfold System.owned
    rw [waiting]
    exact (takenBefore.trans (takenAfter.symm.cons clnt_sock)).append_right _
  obtain ⟨once, all⟩ := held
  obtain ⟨notAgain, restOnce⟩ := List.nodup_cons.mp (same.nodup once)
  refine ⟨restOnce, ?_⟩
  intro socket
  have owned := same.mem_iff (a := socket)
  rw [all, List.mem_cons] at owned
  simp only [Finset.mem_erase, owned]
  constructor
  · intro member
    refine ⟨?_, .inr member⟩
    rintro rfl
    exact notAgain member
  · intro given
    rcases given with ⟨different, closed | member⟩
    · exact absurd closed different
    · exact member

theorem ownership_step {action : Action} (held : Ownership s)
    (settled : Settled s action) (taken : step s action = some next) :
    Ownership next := by
  cases System.moves_of_step taken with
  | accept socket point fresh => exact ownership_accept held (settled socket rfl) point fresh
  | append point positive stored =>
      refine held.of_perm (.of_eq ?_) rfl
      simp [System.owned, System.taken, System.waiting, point]
  | create point =>
      refine held.of_perm (.of_eq ?_) rfl
      simp [System.owned, System.taken, System.waiting, point,
        Handler.socket, Handler.isCreated]
  | start thread locals found => exact ownership_start held locals found
  | readv thread received found => exact held.of_perm (owned_set found rfl rfl rfl rfl rfl) rfl
  | send_all thread found => exact held.of_perm (owned_set found rfl rfl rfl rfl rfl) rfl
  | leave thread found => exact held.of_perm (owned_set found rfl rfl rfl rfl rfl) rfl
  | disconnect thread found removed =>
      exact held.of_perm (owned_set found rfl rfl rfl rfl rfl) rfl
  | close thread found => exact ownership_close held found

end preservation

theorem ownership_initial : Ownership System.initial :=
  ⟨by decide, by simp [System.initial, System.owned, System.taken, System.waiting]⟩

/-- In a run whose accepts all find the earlier threads started, every accepted
socket has exactly one handler. -/
theorem one_handler_each {actions : List Action} {s : System}
    (guarded : Guarded step Settled System.initial actions)
    (reached : run step System.initial actions = some s) : s.OneHandlerEach := by
  have held : Ownership s := run_invariant Ownership
    (fun held settled taken => ownership_step held settled taken)
    ownership_initial guarded reached
  exact held.oneHandlerEach

instance (s : System) : (action : Action) → Decidable (Settled s action)
  | .accept socket => decidable_of_iff (s.handlers.countP Handler.isCreated = 0)
      ⟨fun none _ _ => none, fun settled => settled socket rfl⟩
  | .append | .create | .start _ _ | .readv _ _ | .send_all _ | .leave _ | .disconnect _
  | .close _ => isTrue fun _ isAccept => by cases isAccept

/-- The second connection is accepted when the thread of the first has started. -/
def twoConnections : List Action :=
  [.accept 4, .append, .create, .start 0 Locals.zero, .accept 5, .append, .create,
    .start 1 Locals.zero]

theorem one_handler_each_twoConnections :
    ∃ s, run step System.initial twoConnections = some s ∧ s.taken = [4, 5] ∧
      s.OneHandlerEach := by
  have shape : (run step System.initial twoConnections).any (fun s => s.taken = [4, 5]) =
      true := by
    decide +kernel
  obtain ⟨s, reached, taken⟩ := (Option.any_eq_true _ _).mp shape
  have guarded : Guarded step Settled System.initial twoConnections := by
    decide +kernel
  exact ⟨s, reached, of_decide_eq_true taken, one_handler_each guarded reached⟩

/-- Two connections are accepted before the thread of the first starts. -/
def lateStart : List Action :=
  [.accept 4, .append, .create, .accept 5, .append, .create,
    .start 0 Locals.zero, .start 1 Locals.zero]

/-- Both threads serve the second connection. -/
theorem lateStart_shares :
    ¬ ∀ s, run step System.initial lateStart = some s → s.OneHandlerEach := by
  intro each
  have reached : (run step System.initial lateStart).any
      (fun s => s.taken = [5, 5]) = true := by
    decide +kernel
  obtain ⟨s, ran, shared⟩ := (Option.any_eq_true _ _).mp reached
  have distinct := (each s ran).distinct
  rw [of_decide_eq_true shared] at distinct
  exact absurd distinct (by decide)

end NetworkProgramming.Hw8
