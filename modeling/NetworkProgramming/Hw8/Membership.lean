import NetworkProgramming.Foundation.Pool
import NetworkProgramming.Hw8.Counting

/-!
# Who gets the messages

The disconnect block removes a client as it should only from the last place of the list.
Over whole runs this is exact: every message is for the clients that have not left, each
once, as long as the clients leave in the order opposite to that of their connections, and
the first to leave from another place ends it.
-/

namespace NetworkProgramming.Hw8

open MachineInt Transition

/-- The socket of a client whose thread has not run the disconnect block; `clnt_sock` is the
variable that a new thread copies. -/
def Handler.client (clnt_sock : Nat) : Handler → Option Nat
  | .created => some clnt_sock
  | .serving socket _ | .sending socket _ _ | .leaving socket => some socket
  | .closing _ | .returned => none

/-- The clients that were registered and have not left, in the order of their
connections. -/
def System.clients (s : System) : List Nat :=
  s.handlers.filterMap (Handler.client s.clnt_sock) ++
    if s.point = .create then [s.clnt_sock] else []

/-- A message that is sent now is written to every client once, and to nobody else. -/
def System.ReachesClients (s : System) : Prop :=
  ∀ msg, s.send_all msg = s.sent ++ s.clients.map fun socket => (socket, msg)

/-- The socket of a thread in front of the disconnect block. -/
def System.leaver (s : System) (thread : Nat) : Option Nat :=
  match s.handlers[thread]? with
  | some (.leaving clnt_sock) => some clnt_sock
  | _ => none

/-- Who leaves is the last of the list. -/
def LastLeaves (s : System) : Action → Prop
  | .disconnect thread => s.list.getLast? = s.leaver thread
  | _ => True

section membership

variable {s next : System}

theorem reachesClients_iff {known : Nat → Prop} (counted : Counted known s) :
    s.ReachesClients ↔ s.list = s.clients := by
  have sends (msg : List Byte) :
      s.send_all msg = s.sent ++ s.list.map fun socket => (socket, msg) := by
    rw [System.send_all, counted.count, Int.toNat_natCast, System.list]
  constructor
  · intro reaches
    have same := (sends []).symm.trans (reaches [])
    have injective : Function.Injective fun socket : Nat => (socket, ([] : List Byte)) :=
      fun first second equal => congrArg Prod.fst equal
    exact (List.map_injective_iff.mpr injective) (List.append_cancel_left same)
  · intro same msg
    rw [sends, same]

theorem clients_subperm (s : System) : s.clients.Subperm s.owned := by
  have threads : (s.handlers.filterMap (Handler.client s.clnt_sock)).Subperm
      (s.taken ++ List.replicate (s.handlers.countP Handler.isCreated) s.clnt_sock) := by
    unfold System.taken
    induction s.handlers with
    | nil => exact List.Subperm.refl _
    | cons handler handlers induction =>
        cases handler with
        | created =>
            simp only [List.filterMap_cons, Handler.client, Handler.socket, List.countP_cons,
              Handler.isCreated, if_true, List.replicate_succ]
            exact ((List.subperm_cons _).mpr induction).trans List.perm_middle.symm.subperm
        | serving socket locals => exact (List.subperm_cons socket).mpr induction
        | sending socket locals msg => exact (List.subperm_cons socket).mpr induction
        | leaving socket => exact (List.subperm_cons socket).mpr induction
        | closing socket => exact induction.trans (List.sublist_cons_self _ _).subperm
        | returned => exact induction
  rw [System.clients, System.owned, System.waiting, List.replicate_add, ← List.append_assoc]
  refine ((List.subperm_append_right _).mpr threads).trans ?_
  refine (List.subperm_append_left _).mpr ?_
  cases s.point with
  | accept => exact List.Subperm.refl _
  | append => exact List.nil_subperm
  | create => exact List.Subperm.refl _

theorem Ownership.clients_nodup (held : Ownership s) : s.clients.Nodup := by
  obtain ⟨part, same, isPart⟩ := clients_subperm s
  exact same.nodup (held.once.sublist isPart)

theorem clients_set {thread : Nat} {old new : Handler}
    (found : s.handlers[thread]? = some old)
    (same : new.client s.clnt_sock = old.client s.clnt_sock) :
    (s.handlers.set thread new).filterMap (Handler.client s.clnt_sock) =
      s.handlers.filterMap (Handler.client s.clnt_sock) := by
  obtain ⟨front, behind, split, moved⟩ := Pool.exists_split found
  rw [moved new, split, List.filterMap_append, List.filterMap_append, List.filterMap_cons,
    List.filterMap_cons, same]

theorem listed_set {thread : Nat} {old new : Handler} (found : s.handlers[thread]? = some old)
    (same : new.isListed = old.isListed) :
    (s.handlers.set thread new).countP Handler.isListed =
      s.handlers.countP Handler.isListed := by
  obtain ⟨front, behind, split, moved⟩ := Pool.exists_split found
  rw [moved new, split, List.countP_append, List.countP_append, List.countP_cons,
    List.countP_cons, same]

theorem list_set (sound : s.list = s.clients) {thread : Nat} {old new : Handler}
    {sockets : Finset Nat} {sent : List (Nat × List Byte)}
    (found : s.handlers[thread]? = some old) (listed : new.isListed = old.isListed)
    (client : new.client s.clnt_sock = old.client s.clnt_sock) :
    System.list { s with
        handlers := s.handlers.set thread new
        sockets := sockets
        sent := sent } =
      System.clients { s with
        handlers := s.handlers.set thread new
        sockets := sockets
        sent := sent } := by
  rw [System.list, System.listed, listed_set found listed, System.clients,
    clients_set found client]
  exact sound

/-- The block takes the socket out of the list exactly when nothing stands behind it. -/
theorem list_disconnect {clnt_socks result : CArray Nat MAX_CLNT} {listed clnt_sock : Nat}
    {clnt_cnt : Int} {front behind : List Nat} (fits : listed ≤ MAX_CLNT)
    (isList : clnt_socks.cells.take listed = front ++ clnt_sock :: behind)
    (distinct : (front ++ clnt_sock :: behind).Nodup)
    (ran : disconnect clnt_socks listed clnt_sock = some (result, clnt_cnt)) :
    result.cells.take (listed - 1) = front ++ behind ↔ behind = [] := by
  have length := congrArg List.length isList
  rw [List.length_take, clnt_socks.length_cells, Nat.min_eq_left fits, List.length_append,
    List.length_cons] at length
  have there : (clnt_socks.cells.take listed)[front.length]? = some clnt_sock := by
    rw [isList, List.getElem?_append_right (Nat.le_refl _), Nat.sub_self]
    rfl
  rw [disconnect_found (isList ▸ distinct) there] at ran
  obtain ⟨shifted, moved, final⟩ := Option.map_eq_some_iff.mp ran
  obtain ⟨rfl, _⟩ := Prod.mk.inj final
  cases behind with
  | nil =>
      have last : front.length + 1 = listed := by simpa using length.symm
      rw [shift_last last, Option.some.injEq] at moved
      subst moved
      have isFront : listed - 1 = front.length := by omega
      have kept := congrArg (List.take front.length) isList
      rw [List.take_take, Nat.min_eq_left (by omega), List.take_left' rfl] at kept
      simpa [isFront] using kept
  | cons next behind =>
      have more : front.length + 1 < listed := by
        rw [List.length_cons] at length
        omega
      have left : (front ++ clnt_sock :: next :: behind).eraseIdx (front.length + 1) =
          front ++ clnt_sock :: behind := by
        rw [List.eraseIdx_append_of_length_le (Nat.le_add_right _ 1), Nat.add_sub_cancel_left]
        rfl
      rw [take_shift more moved, isList, left]
      constructor
      · intro same
        have equal := (List.cons.inj (List.append_cancel_left same)).1
        rw [equal] at distinct
        exact absurd (List.nodup_append.mp distinct).2.1 (by simp)
      · intro none
        cases none

theorem getLast?_split {front behind : List Nat} {clnt_sock : Nat}
    (distinct : (front ++ clnt_sock :: behind).Nodup) :
    (front ++ clnt_sock :: behind).getLast? = some clnt_sock ↔ behind = [] := by
  constructor
  · intro last
    by_contra some
    rw [List.getLast?_append_of_ne_nil _ (List.cons_ne_nil _ _),
      List.getLast?_cons_of_ne_nil some] at last
    have inside := List.mem_of_getLast? last
    exact (List.nodup_cons.mp (List.nodup_append.mp distinct).2.1).1 inside
  · rintro rfl
    rw [List.getLast?_concat]

/-- Messages go on reaching the clients exactly when nobody leaves but the last of the
list. -/
theorem list_step {known : Nat → Prop} {action : Action} (owned : Ownership s)
    (counted : Counted known s) (sound : s.list = s.clients) (settled : Settled s action)
    (taken : step s action = some next) : next.list = next.clients ↔ LastLeaves s action := by
  cases System.moves_of_step taken with
  | accept socket point fresh =>
      refine iff_of_true ?_ trivial
      have none := List.countP_eq_zero.mp (settled socket rfl)
      have same : s.handlers.filterMap (Handler.client socket) =
          s.handlers.filterMap (Handler.client s.clnt_sock) := by
        refine List.filterMap_congr fun handler inside => ?_
        have old := none handler inside
        cases handler <;> simp_all [Handler.client, Handler.isCreated]
      simp only [System.list, System.listed, System.clients, point, reduceCtorEq,
        if_false] at sound ⊢
      rw [sound, same]
  | @append clnt_socks point positive stored =>
      refine iff_of_true ?_ trivial
      obtain ⟨inside, cells⟩ := CArray.set?_eq_some.mp stored
      have now : s.listed = s.handlers.countP Handler.isListed := by
        simp [System.listed, point]
      rw [counted.count, Int.toNat_natCast, now] at inside cells
      have room : s.handlers.countP Handler.isListed < s.clnt_socks.cells.length := by
        rwa [s.clnt_socks.length_cells]
      rw [System.list, now, System.clients, point, if_neg (by simp), List.append_nil]
        at sound
      simp only [System.list, System.listed, System.clients, if_true, cells]
      rw [List.take_succ_eq_append_getElem (by simpa using room),
        List.take_set_of_le (Nat.le_refl _), List.getElem_set_self, sound]
  | create point =>
      refine iff_of_true ?_ trivial
      rw [System.list, System.listed, System.clients, if_pos point, if_pos point] at sound
      simpa [System.list, System.listed, System.clients, Handler.isListed, Handler.client]
        using sound
  | start thread locals found => exact iff_of_true (list_set sound found rfl rfl) trivial
  | readv thread received found => exact iff_of_true (list_set sound found rfl rfl) trivial
  | send_all thread found => exact iff_of_true (list_set sound found rfl rfl) trivial
  | leave thread found => exact iff_of_true (list_set sound found rfl rfl) trivial
  | @disconnect thread clnt_sock clnt_socks clnt_cnt found removed =>
      rw [counted.count] at removed
      obtain ⟨front, behind, split, moved⟩ := Pool.exists_split found
      have isClients : s.clients = front.filterMap (Handler.client s.clnt_sock) ++
          clnt_sock :: (behind.filterMap (Handler.client s.clnt_sock) ++
            if s.point = .create then [s.clnt_sock] else []) := by
        simp [System.clients, split, Handler.client]
      have distinct := owned.clients_nodup
      rw [isClients] at distinct
      have one : s.listed = System.listed { s with
          handlers := s.handlers.set thread (.closing clnt_sock) } + 1 := by
        rw [System.listed, System.listed, moved]
        simp only [split, List.countP_append, List.countP_cons, Handler.isListed, if_true,
          Bool.false_eq_true, if_false]
        omega
      have exactly := list_disconnect counted.fits (sound.trans isClients) distinct removed
      rw [LastLeaves, System.leaver, found, sound, isClients, getLast?_split distinct,
        ← exactly]
      have isNext : System.clients { s with
          clnt_socks := clnt_socks
          clnt_cnt := clnt_cnt
          handlers := s.handlers.set thread (.closing clnt_sock) } =
            front.filterMap (Handler.client s.clnt_sock) ++
              (behind.filterMap (Handler.client s.clnt_sock) ++
                if s.point = .create then [s.clnt_sock] else []) := by
        simp [System.clients, moved, List.filterMap_cons, Handler.client]
      rw [isNext, one, Nat.add_sub_cancel]
      rfl
  | close thread found => exact iff_of_true (list_set sound found rfl rfl) trivial

end membership

/-- In a run whose threads have all copied their argument before the next connection is
accepted, a message would reach every client once and nobody else in every state, exactly
when whoever leaves is the last of the list. -/
theorem messages_reach_iff {actions : List Action} {s : System}
    (guarded : Guarded step Settled System.initial actions)
    (reached : run step System.initial actions = some s) :
    (∀ front state, front <+: actions → run step System.initial front = some state →
      state.ReachesClients) ↔ Guarded step LastLeaves System.initial actions := by
  refine @always_iff_guarded _ _ step Settled LastLeaves
    (fun s => Ownership s ∧ Counted (fun _ => True) s) System.ReachesClients ?_ ?_ _ _ _
    ⟨ownership_initial, ?_⟩ ?_ guarded reached
  · rintro s action next ⟨owned, counted⟩ settled taken
    exact ⟨ownership_step owned settled taken,
      (counted_step counted taken).mono fun _ _ => trivial⟩
  · rintro s action next ⟨owned, counted⟩ sound settled taken
    rw [reachesClients_iff counted] at sound
    rw [reachesClients_iff (counted_step counted taken)]
    exact list_step owned counted sound settled taken
  · exact ⟨rfl, by decide, fun _ => trivial, fun _ _ => trivial, fun _ _ => trivial⟩
  · exact fun msg => rfl

instance (s : System) : (action : Action) → Decidable (LastLeaves s action)
  | .disconnect _ => inferInstanceAs (Decidable (_ = _))
  | .accept _ | .append | .create | .start _ _ | .readv _ _ | .send_all _ | .leave _
  | .close _ => isTrue trivial

/-- Two clients connect, and the second leaves. -/
def secondLeaves : List Action :=
  [.accept 4, .append, .create, .start 0 Locals.zero, .accept 5, .append, .create,
    .start 1 Locals.zero, .leave 1, .disconnect 1]

theorem messages_reach_iff_secondLeaves : ∃ s,
    run step System.initial secondLeaves = some s ∧ s.clients = [4] ∧ s.ReachesClients := by
  have shape : (run step System.initial secondLeaves).any (fun s => s.clients = [4]) = true := by
    decide +kernel
  obtain ⟨s, reached, clients⟩ := (Option.any_eq_true _ _).mp shape
  have guarded : Guarded step Settled System.initial secondLeaves := by
    decide +kernel
  have lastLeaves : Guarded step LastLeaves System.initial secondLeaves := by
    decide +kernel
  exact ⟨s, reached, of_decide_eq_true clients,
    (messages_reach_iff guarded reached).mpr lastLeaves secondLeaves s List.prefix_rfl reached⟩

end NetworkProgramming.Hw8
