import Mathlib.Algebra.Order.BigOperators.Group.Finset
import NetworkProgramming.Hw8.Sessions

/-!
# Everybody sees everything

A thread that has the socket of a newer user leaves the older one waiting for ever.
When no connection is accepted while a thread has still to copy its argument, there is
a thread for every user, and what was typed is answered and shown to all.
-/

namespace NetworkProgramming.Hw8

open MachineInt Broadcast Transition

/-! ## Who can go on -/

def GroupAction.Accepts : GroupAction → Prop
  | .accept _ _ _ _ => True
  | _ => False

/-- Every line was answered, and every user sees all that was sent since it was
registered. -/
def Group.AllShown (atoi : List Byte → Word) (s : Group) : Prop :=
  ∀ index user, s.users[index]? = some user →
    user.stdout = heardText index s.history ∧
      said index s.history = user.member.lines.map (user.member.message atoi)

section progress

variable {atoi : List Byte → Word} {s : Group} {index : Nat} {user : User}

theorem send_possible (reads : IsAtoi atoi) (found : s.users[index]? = some user)
    (more : user.lines ≠ []) : ∃ next, s.step atoi (.send_msg index) = some next := by
  obtain ⟨line, lines, typed⟩ := List.exists_cons_of_ne_nil more
  obtain ⟨final, request, sent, _⟩ := user.member.sends reads line user.locals
  simp [Group.step, found, typed, sent]

theorem recv_possible (found : s.users[index]? = some user)
    (more : user.down ≠ []) : ∃ next, s.step atoi (.recv_msg index 1) = some next := by
  obtain ⟨byte, down, isDown⟩ := List.exists_cons_of_ne_nil more
  have size : NAME_SIZE + BUF_SIZE = 1029 := rfl
  obtain ⟨name_msg, stored⟩ : ∃ name_msg,
      (user.name_msg.fill [byte]).set? [byte].length 0#8 = some name_msg := by
    simp [CArray.set?, size]
  have holds := CArray.cString?_terminated stored
  rw [List.length_singleton] at stored
  simp [Group.step, found, isDown, size, stored, holds]

theorem thread_of_user (threads : Threads s.server s.sockets)
    (point : s.server.point = .accept)
    (started : ∀ thread : Nat, s.server.handlers[thread]? ≠ some Handler.created)
    (found : s.users[index]? = some user) :
    ∃ handler, s.server.handlers[index]? = some handler ∧ handler.Serves user.socket := by
  have socket : s.sockets[index]? = some user.socket := by
    rw [Group.sockets, List.getElem?_map, found, Option.map_some]
  have bound := (List.getElem?_eq_some_iff.mp socket).1
  have count := threads.count
  rw [if_pos point, Nat.add_zero] at count
  obtain ⟨handler, isHandler⟩ : ∃ handler, s.server.handlers[index]? = some handler :=
    ⟨_, List.getElem?_eq_getElem (by omega)⟩
  obtain ⟨isCreated, _⟩ | ⟨own, isOwn, serves⟩ := threads.owner index handler isHandler
  · exact absurd (isCreated ▸ isHandler) (started index)
  · rw [socket, Option.some.injEq] at isOwn
    exact ⟨handler, isHandler, isOwn ▸ serves⟩

theorem Told.userOf (held : Told atoi s) (found : s.users[index]? = some user) :
    s.userOf user.socket = some (index, user) := by
  have first := Pool.findIdx?_view held.registered.distinct found
  simp [Group.userOf, first, found]

theorem send_all_possible (held : Told atoi s) (found : s.users[index]? = some user)
    {thread : Nat} {locals : Locals} {msg : List Byte}
    (sending : s.server.handlers[thread]? = some (.sending user.socket locals msg)) :
    ∃ next, s.step atoi (.send_all thread) = some next := by
  simp [Group.step, Hw8.step, sending, held.userOf found]

theorem readv_possible (held : Told atoi s) (found : s.users[index]? = some user)
    {thread : Nat} {locals : Locals}
    (serving : s.server.handlers[thread]? = some (.serving user.socket locals))
    (waits : user.up ≠ []) :
    ∃ next, s.step atoi (.readv thread (NAME_SIZE + BUF_SIZE)) = some next := by
  obtain ⟨answered, pending, isUp, asks, _⟩ := held.asked index user found
  obtain ⟨request, pending, rfl⟩ := List.exists_cons_of_ne_nil (show pending ≠ [] by
    rintro rfl
    exact waits isUp)
  have asksFor := asks request List.mem_cons_self
  have front : user.up = request.1 ++ (pending.map Prod.fst).flatten := isUp
  have isRequest : user.up.take (NAME_SIZE + BUF_SIZE) = request.1 := by
    rw [front]
    exact List.take_left' asksFor.size
  have there : NAME_SIZE + BUF_SIZE ≤ user.up.length := by
    rw [front, List.length_append, asksFor.size]
    exact Nat.le_add_right _ _
  have opened : user.socket ∈ s.server.sockets :=
    held.registered.opened _ (List.mem_map_of_mem (List.mem_of_getElem? found))
  obtain ⟨after, responded⟩ := asksFor.answered locals
  have positive : 0 < NAME_SIZE + BUF_SIZE := by decide
  simp only [Group.step, serving, held.userOf found, Option.bind_eq_bind, Option.bind_some,
    isRequest, responded, Hw8.step, opened, asksFor.size, positive, Nat.le_refl, and_self,
    if_true, there]
  exact ⟨_, rfl⟩

theorem Served.all_shown (held : Served atoi s) (found : s.users[index]? = some user)
    (typed : user.lines = []) (read : user.up = []) (printed : user.down = [])
    (sent : s.server.held user.socket = []) :
    user.stdout = heardText index s.history ∧
      said index s.history = user.member.lines.map (user.member.message atoi) := by
  have shown := held.told.shown index user found
  rw [Shown, printed, List.append_nil] at shown
  refine ⟨shown, ?_⟩
  obtain ⟨answered, pending, isUp, asks, same, all⟩ := held.told.asked index user found
  have none : pending = [] := by
    by_contra some
    obtain ⟨request, pending, rfl⟩ := List.exists_cons_of_ne_nil some
    have size := (asks request List.mem_cons_self).size
    have length := congrArg List.length isUp
    simp only [read, List.length_nil, List.map_cons, List.flatten_cons, List.length_append,
      size] at length
    have positive : 0 < NAME_SIZE + BUF_SIZE := by decide
    omega
  rw [typed, none, List.map_nil, List.map_nil, List.append_nil, List.append_nil] at all
  have soFar := held.ordered index user found
  rw [sent, List.append_nil, all] at same
  rw [InOrder, sent, List.append_nil] at soFar
  exact soFar.eq_of_length same.length_eq

/-- While the list of the server has room and something was not shown, somebody other than
a new user can go on. -/
theorem group_progress (reads : IsAtoi atoi) (held : Served atoi s)
    (room : s.users.length ≤ MAX_CLNT) (unfinished : ¬ s.AllShown atoi) :
    ∃ action next, ¬ action.Accepts ∧ Whole s action ∧ s.step atoi action = some next := by
  have registered := held.told.registered
  have known := registered.known
  cases point : s.server.point with
  | append =>
      rw [point, if_pos rfl, Group.sockets, List.length_map] at known
      have counted : s.server.clnt_cnt.toNat < MAX_CLNT := by
        rw [registered.count, Int.toNat_natCast]
        omega
      have positive : 0 ≤ s.server.clnt_cnt := by
        rw [registered.count]
        omega
      obtain ⟨next, taken⟩ : ∃ next, s.step atoi .append = some next := by
        simp [Group.step, Hw8.step, point, positive, CArray.set?, counted]
      exact ⟨.append, next, not_false, trivial, taken⟩
  | create =>
      obtain ⟨next, taken⟩ : ∃ next, s.step atoi .create = some next := by
        simp [Group.step, Hw8.step, point]
      exact ⟨.create, next, not_false, trivial, taken⟩
  | accept =>
      by_cases waiting : ∃ thread : Nat, s.server.handlers[thread]? = some Handler.created
      · obtain ⟨thread, created⟩ := waiting
        obtain ⟨next, taken⟩ : ∃ next,
            s.step atoi (.start thread Locals.zero) = some next := by
          simp [Group.step, Hw8.step, created]
        exact ⟨.start thread Locals.zero, next, not_false, trivial, taken⟩
      · have started (thread : Nat) : s.server.handlers[thread]? ≠ some Handler.created :=
          fun created => waiting ⟨thread, created⟩
        unfold Group.AllShown at unfinished
        push Not at unfinished
        obtain ⟨index, user, found, missing⟩ := unfinished
        obtain ⟨handler, isHandler, serves⟩ :=
          thread_of_user held.threads point started found
        by_cases more : user.lines ≠ []
        · obtain ⟨next, taken⟩ := send_possible reads found more
          exact ⟨.send_msg index, next, not_false, trivial, taken⟩
        by_cases unread : user.down ≠ []
        · obtain ⟨next, taken⟩ := recv_possible found unread
          exact ⟨.recv_msg index 1, next, not_false, trivial, taken⟩
        rcases serves with ⟨locals, rfl⟩ | ⟨locals, msg, rfl⟩
        · by_cases waits : user.up ≠ []
          · obtain ⟨next, taken⟩ := readv_possible held.told found isHandler waits
            exact ⟨.readv index (NAME_SIZE + BUF_SIZE), next, not_false, rfl, taken⟩
          · have sent : s.server.held user.socket = [] :=
              held.threads.held registered isHandler (.inl ⟨locals, rfl⟩)
            obtain ⟨shown, answered⟩ := held.all_shown found (not_not.mp more)
              (not_not.mp waits) (not_not.mp unread) sent
            exact absurd answered (missing shown)
        · obtain ⟨next, taken⟩ := send_all_possible held.told found isHandler
          exact ⟨.send_all index, next, not_false, trivial, taken⟩

end progress

/-! ## How much is to be done -/

/-- What was typed or is to be typed and was not answered. -/
def User.outstanding (atoi : List Byte → Word)
    (history : List (Event Nat (Nat × List Byte))) (index : Nat) (user : User) :
    List (List Byte) :=
  (user.member.lines.map (user.member.message atoi)).drop (said index history).length

/-- A line is sent once and read once; its message is sent once and read by at most `count`
users, byte by byte. -/
def User.work (atoi : List Byte → Word) (history : List (Event Nat (Nat × List Byte)))
    (count index : Nat) (user : User) : Nat :=
  2 * user.lines.length + user.up.length / (NAME_SIZE + BUF_SIZE) + user.down.length +
    ((user.outstanding atoi history index).map fun message => 1 + count * message.length).sum

/-- A connection is registered, and its thread created and started. -/
def MainPoint.work : MainPoint → Nat
  | .accept => 0
  | .append => 3
  | .create => 2

def Group.usersWork (atoi : List Byte → Word) (s : Group) : Nat :=
  ∑ index ∈ Finset.range s.users.length,
    (s.users[index]?.map (User.work atoi s.history s.users.length index)).getD 0

def Group.work (atoi : List Byte → Word) (s : Group) : Nat :=
  s.server.point.work + s.server.handlers.countP Handler.isCreated + s.usersWork atoi

section work

variable {atoi : List Byte → Word} {s next : Group}

theorem usersWork_set {index : Nat} {user moved : User}
    (found : s.users[index]? = some user)
    (less : moved.work atoi s.history s.users.length index <
      user.work atoi s.history s.users.length index) :
    Group.usersWork atoi { s with users := s.users.set index moved } < s.usersWork atoi := by
  have inside := (List.getElem?_eq_some_iff.mp found).1
  unfold Group.usersWork
  simp only [List.length_set]
  refine Finset.sum_lt_sum (fun other _ => ?_) ⟨index, Finset.mem_range.mpr inside, ?_⟩
  · by_cases same : index = other
    · subst same
      rw [List.getElem?_set_self inside, found]
      exact less.le
    · rw [List.getElem?_set_ne same]
  · rw [List.getElem?_set_self inside, found]
    exact less

/-- The message that is sent counts more than all that is written of it. -/
theorem usersWork_send_all {index : Nat} {user : User} {msg : List Byte} {server : System}
    {sent : List (Nat × List Byte)} (found : s.users[index]? = some user)
    (answers : said index s.history ++ [msg] <+:
      user.member.lines.map (user.member.message atoi))
    (small : ∀ other ∈ s.users,
      ((sent.filter (·.1 = other.socket)).map Prod.snd).flatten.length ≤ msg.length) :
    Group.usersWork atoi {
      server := server
      users := s.users.map (.deliver sent)
      history := s.history ++ [.send (index, msg)] } < s.usersWork atoi := by
  have inside := (List.getElem?_eq_some_iff.mp found).1
  obtain ⟨behind, split⟩ := answers
  have before : user.outstanding atoi s.history index = msg :: behind := by
    rw [User.outstanding, ← split, List.append_assoc]
    exact List.drop_left' rfl
  have after : User.outstanding atoi (s.history ++ [.send (index, msg)]) index user =
      behind := by
    rw [User.outstanding, ← split, said_send, if_pos rfl]
    exact List.drop_left' rfl
  have each : ∀ other ∈ Finset.range s.users.length,
      ((s.users.map (User.deliver sent))[other]?.map
          (User.work atoi (s.history ++ [.send (index, msg)]) s.users.length other)).getD 0 +
        (if index = other then 1 + s.users.length * msg.length else 0) ≤
      (s.users[other]?.map (User.work atoi s.history s.users.length other)).getD 0 +
        msg.length := by
    intro other member
    have bound := Finset.mem_range.mp member
    have isOther := List.getElem?_eq_getElem bound
    have written := small s.users[other] (List.getElem_mem bound)
    have moved : User.outstanding atoi (s.history ++ [.send (index, msg)]) other
        (s.users[other].deliver sent) =
          User.outstanding atoi (s.history ++ [.send (index, msg)]) other s.users[other] := rfl
    rw [List.getElem?_map, isOther]
    simp only [Option.map_some, Option.getD_some, User.work, moved]
    simp only [User.deliver, List.length_append]
    by_cases same : index = other
    · subst same
      rw [isOther, Option.some.injEq] at found
      rw [found] at written ⊢
      rw [if_pos rfl, before, after, List.map_cons, List.sum_cons]
      omega
    · have kept : User.outstanding atoi (s.history ++ [.send (index, msg)]) other
          s.users[other] = s.users[other].outstanding atoi s.history other := by
        rw [User.outstanding, said_send, if_neg same, List.append_nil]
        rfl
      rw [if_neg same, kept]
      omega
  have total := Finset.sum_le_sum each
  rw [Finset.sum_add_distrib, Finset.sum_add_distrib, Finset.sum_ite_eq,
    if_pos (Finset.mem_range.mpr inside), Finset.sum_const_nat (fun _ _ => rfl),
    Finset.card_range] at total
  unfold Group.usersWork
  simp only [List.length_map]
  omega

theorem created_set {thread : Nat} {old new : Handler}
    (found : s.server.handlers[thread]? = some old) (same : new.isCreated = old.isCreated) :
    (s.server.handlers.set thread new).countP Handler.isCreated =
      s.server.handlers.countP Handler.isCreated := by
  obtain ⟨rest, before, after⟩ := exists_perm_set found new
  rw [after.countP_eq, before.countP_eq, List.countP_cons, List.countP_cons, same]

theorem work_lowers (reads : IsAtoi atoi) {action : GroupAction} (held : Served atoi s)
    (whole : Whole s action) (noAccept : ¬ action.Accepts)
    (taken : s.step atoi action = some next) : next.work atoi < s.work atoi := by
  cases step_moves reads taken with
  | accept socket member locals name_msg point fresh => exact absurd trivial noAccept
  | append point stored =>
      have same : User.work atoi (s.history ++ [.join (s.users.length - 1)]) =
          User.work atoi s.history := by
        funext count index user
        simp only [User.work, User.outstanding, said_join]
      simp only [Group.work, Group.usersWork, point, MainPoint.work, same]
      omega
  | create point =>
      simp only [Group.work, Group.usersWork, point, MainPoint.work, List.countP_append,
        List.countP_singleton, Handler.isCreated, if_true]
      omega
  | start thread locals found =>
      obtain ⟨rest, before, after⟩ :=
        exists_perm_set found (.serving s.server.clnt_sock locals)
      simp only [Group.work, Group.usersWork, after.countP_eq, before.countP_eq,
        List.countP_cons, Handler.isCreated, if_true, Bool.false_eq_true, if_false]
      omega
  | @send_msg index user line lines locals request found typed asks =>
      refine Nat.add_lt_add_left (usersWork_set found ?_) _
      have size := asks.size
      have request : NAME_SIZE + BUF_SIZE = 1029 := rfl
      simp only [User.work, User.outstanding, typed, List.length_cons, List.length_append, size,
        request]
      omega
  | @readv thread count clnt_sock index locals after user msg found isUser own responded
      there =>
      have same := created_set found (show (Handler.sending clnt_sock after msg).isCreated = _
        from rfl)
      have isWhole : count = 1029 := whole
      have request : NAME_SIZE + BUF_SIZE = 1029 := rfl
      have lowers := @usersWork_set atoi s index user { user with up := user.up.drop count }
        isUser (by
          simp only [User.work, User.outstanding, List.length_drop, request]
          omega)
      simp only [Group.work, same]
      exact Nat.add_lt_add_left lowers _
  | @send_all thread clnt_sock index locals user msg found isUser own =>
      subst own
      have same := created_set found (show (Handler.serving user.socket locals).isCreated = _
        from rfl)
      have answers := held.ordered index user isUser
      rw [InOrder, (held.threads.held_sent held.told.registered found []).1] at answers
      have lowers := @usersWork_send_all atoi s index user msg
        { s.server with
          handlers := s.server.handlers.set thread (.serving user.socket locals)
          sent := s.server.send_all msg }
        ((s.server.send_all msg).drop s.server.sent.length) isUser answers
        (by
          intro other member
          obtain ⟨place, isOther⟩ := List.getElem?_of_mem member
          have socket : s.sockets[place]? = some other.socket := by
            rw [Group.sockets, List.getElem?_map, isOther, Option.map_some]
          rw [held.told.registered.written socket msg]
          split <;> simp)
      simp only [Group.work, same]
      exact Nat.add_lt_add_left lowers _
  | @recv_msg index count user name_msg text found positive there stored holds =>
      refine Nat.add_lt_add_left (usersWork_set found ?_) _
      simp only [User.work, User.outstanding, List.length_drop]
      omega

end work

/-- Every user has a thread, or will have one, and a place in the list. -/
structure Seated (atoi : List Byte → Word) (s : Group) : Prop extends Served atoi s where
  room : s.users.length ≤ MAX_CLNT

theorem seated_step {atoi : List Byte → Word} (reads : IsAtoi atoi) {s next : Group}
    {action : GroupAction} (held : Seated atoi s) (whole : Whole s action)
    (noAccept : ¬ action.Accepts) (taken : s.step atoi action = some next) :
    Seated atoi next := by
  have started : Started s action := by
    cases action with
    | accept socket member locals name_msg => exact absurd trivial noAccept
    | _ => trivial
  refine ⟨served_step reads held.toServed whole started taken, ?_⟩
  have room := held.room
  cases step_moves reads taken with
  | accept socket member locals name_msg point fresh => exact absurd trivial noAccept
  | send_msg => simpa only [List.length_set] using room
  | readv => simpa only [List.length_set] using room
  | send_all => simpa only [List.length_map] using room
  | recv_msg => simpa only [List.length_set] using room
  | _ => exact room

/-- When every thread has copied its argument before the next connection is accepted, the
list has room and no new user comes, the others have only so much to do, and nobody is
left waiting before every line was answered and everybody sees every message. -/
theorem sessions_complete {atoi : List Byte → Word} (reads : IsAtoi atoi)
    {actions later : List GroupAction} {s final : Group}
    (guarded : Guarded (Group.step atoi) (fun s action => Whole s action ∧ Started s action)
      Group.initial actions)
    (reached : run (Group.step atoi) Group.initial actions = some s)
    (room : s.users.length ≤ MAX_CLNT)
    (settled : Guarded (Group.step atoi) (fun s action => Whole s action ∧ ¬ action.Accepts)
      s later)
    (goesOn : run (Group.step atoi) s later = some final) :
    later.length ≤ s.work atoi ∧
      (final.AllShown atoi ∨ ∃ action next, ¬ action.Accepts ∧ Whole final action ∧
        final.step atoi action = some next) := by
  have held : Served atoi s := run_invariant (Served atoi)
    (fun held permitted taken => served_step reads held permitted.1 permitted.2 taken)
    served_initial guarded reached
  have preserved {s next : Group} {action : GroupAction} (held : Seated atoi s)
      (permitted : Whole s action ∧ ¬ action.Accepts)
      (taken : s.step atoi action = some next) : Seated atoi next :=
    seated_step reads held permitted.1 permitted.2 taken
  have start : Seated atoi s := ⟨held, room⟩
  have last : Seated atoi final :=
    run_invariant (Seated atoi) preserved start settled goesOn
  have bound := length_le_of_held preserved
    (fun held permitted taken =>
      work_lowers reads held.toServed permitted.1 permitted.2 taken)
    start settled goesOn
  refine ⟨by omega, ?_⟩
  by_cases shown : final.AllShown atoi
  · exact .inl shown
  · exact .inr (group_progress reads last.toServed last.room shown)

theorem sessions_complete_twoUsers : ∃ s final,
    run (Group.step atoi) Group.initial twoUsers = some s ∧
      run (Group.step atoi) s bothTyped = some final ∧ 10 ≤ s.work atoi ∧
        (final.AllShown atoi ∨ ∃ action next, ¬ action.Accepts ∧ Whole final action ∧
          final.step atoi action = some next) := by
  have defined : ((run (Group.step atoi) Group.initial twoUsers).bind fun s =>
      run (Group.step atoi) s bothTyped).isSome := by
    decide +kernel
  obtain ⟨final, ran⟩ := Option.isSome_iff_exists.mp defined
  obtain ⟨s, reached, goesOn⟩ := Option.bind_eq_some_iff.mp ran
  have guarded : Guarded (Group.step atoi) (fun s action => Whole s action ∧ Started s action)
      Group.initial twoUsers := by
    decide +kernel
  have room : (run (Group.step atoi) Group.initial twoUsers).all
      (fun s => s.users.length ≤ MAX_CLNT) = true := by
    decide +kernel
  rw [reached, Option.all_some] at room
  have settled : Guarded (Group.step atoi)
      (fun s action => Whole s action ∧ ¬ action.Accepts) s bothTyped := by
    refine Guarded.of_forall (fun state action member => ?_) s
    simp only [bothTyped, List.mem_cons, List.not_mem_nil, or_false] at member
    rcases member with rfl | rfl | rfl | rfl | rfl | rfl | rfl | rfl | rfl | rfl <;>
      first
      | exact ⟨rfl, not_false⟩
      | exact ⟨trivial, not_false⟩
  exact ⟨s, final, reached, goesOn,
    sessions_complete isAtoi_atoi guarded reached (of_decide_eq_true room) settled goesOn⟩

end NetworkProgramming.Hw8
