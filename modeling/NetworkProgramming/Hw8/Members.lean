import NetworkProgramming.Foundation.Broadcast
import NetworkProgramming.Foundation.Pool
import NetworkProgramming.Hw8.Handlers

/-!
# Members who stay

`hw8_server` and `chat_serv` share their main loop and the section that writes to all
clients.  While nobody leaves, the list of the server holds the users in the order of their
connections, and each hears what is sent since it was registered.  When every created
thread copies its argument before the next connection is accepted, the threads serve the
users in the same order.
-/

namespace NetworkProgramming.Hw8

open MachineInt Broadcast

/-! ## Who is registered -/

/-- The list of the server holds the sockets of the members, each once. -/
structure Registered (server : System) (sockets here : List Nat) : Prop where
  distinct : sockets.Nodup
  opened : ∀ socket ∈ sockets, socket ∈ server.sockets
  newest : ∀ socket, sockets.getLast? = some socket → server.clnt_sock = socket
  count : server.clnt_cnt = here.length
  registry : server.clnt_socks.cells.take here.length = sockets.take here.length
  inOrder : here = List.range here.length
  known : here.length + (if server.point = .append then 1 else 0) = sockets.length

section registered

variable {server : System} {sockets here : List Nat}

theorem Registered.accept {socket : Nat} (held : Registered server sockets here)
    (point : server.point = .accept) (fresh : socket ∉ server.sockets) :
    Registered { server with
      clnt_sock := socket
      sockets := insert socket server.sockets
      point := .append } (sockets ++ [socket]) here := by
  have all : here.length = sockets.length := by simpa [point] using held.known
  constructor
  · rw [List.nodup_append]
    refine ⟨held.distinct, List.nodup_singleton _, ?_⟩
    rintro other inside newest isNewest rfl
    rw [List.mem_singleton] at isNewest
    exact fresh (held.opened socket (isNewest ▸ inside))
  · intro other inside
    rw [List.mem_append, List.mem_singleton] at inside
    rw [Finset.mem_insert]
    exact inside.symm.imp_right (held.opened other)
  · intro newest last
    rw [List.getLast?_concat] at last
    exact Option.some.inj last
  · exact held.count
  · rw [held.registry, all, List.take_left' rfl, List.take_length]
  · exact held.inOrder
  · rw [List.length_append, if_pos rfl, all, List.length_singleton]

theorem Registered.append {clnt_socks : CArray Nat MAX_CLNT}
    (held : Registered server sockets here) (point : server.point = .append)
    (stored : server.clnt_socks.set? server.clnt_cnt.toNat server.clnt_sock =
      some clnt_socks) :
    Registered { server with
      clnt_socks := clnt_socks
      clnt_cnt := server.clnt_cnt + 1
      point := .create } sockets (here ++ [sockets.length - 1]) := by
  have all : here.length + 1 = sockets.length := by simpa [point] using held.known
  obtain ⟨inside, cells⟩ := CArray.set?_eq_some.mp stored
  rw [held.count, Int.toNat_natCast] at inside cells
  have last : sockets.length - 1 = here.length := by omega
  have bound : here.length < sockets.length := by omega
  have newest : server.clnt_sock = sockets[here.length] := by
    refine held.newest _ ?_
    rw [List.getLast?_eq_getElem?, last]
    exact List.getElem?_eq_getElem bound
  have room : here.length < server.clnt_socks.cells.length := by
    rwa [server.clnt_socks.length_cells]
  constructor
  · exact held.distinct
  · exact held.opened
  · exact held.newest
  · rw [List.length_append, List.length_singleton, Nat.cast_add, held.count]
    rfl
  · rw [List.length_append, List.length_singleton, cells,
      List.take_succ_eq_append_getElem (by simpa using room),
      List.take_set_of_le (Nat.le_refl _), List.getElem_set_self, held.registry,
      List.take_succ_eq_append_getElem bound, newest]
  · rw [last, List.length_append, List.length_singleton, List.range_succ, ← held.inOrder]
  · simpa using all

theorem Registered.create {handlers : List Handler}
    (held : Registered server sockets here) (point : server.point = .create) :
    Registered { server with handlers := handlers, point := .accept } sockets here :=
  ⟨held.distinct, held.opened, held.newest, held.count, held.registry, held.inOrder, by
    simpa [point] using held.known⟩

end registered

/-! ## Whose thread is whose -/

/-- The thread has this socket and goes on reading from it. -/
def Handler.Serves (socket : Nat) (handler : Handler) : Prop :=
  (∃ locals, handler = .serving socket locals) ∨
    ∃ locals msg, handler = .sending socket locals msg

/-- The threads serve the users in the order of their connections. -/
structure Threads (server : System) (sockets : List Nat) : Prop where
  owner : Pool.Each (fun thread handler =>
    (handler = .created ∧ thread + 1 = sockets.length) ∨
      ∃ socket, sockets[thread]? = some socket ∧ handler.Serves socket) server.handlers
  count : server.handlers.length + (if server.point = .accept then 0 else 1) =
    sockets.length

section threads

variable {server : System} {sockets : List Nat}

theorem threads_initial : Threads System.initial [] := ⟨Pool.Each.nil, rfl⟩

theorem Threads.accept (held : Threads server sockets) (point : server.point = .accept)
    (settled : server.handlers.countP Handler.isCreated = 0) (socket : Nat) :
    Threads { server with
      clnt_sock := socket
      sockets := insert socket server.sockets
      point := .append } (sockets ++ [socket]) := by
  have count := held.count
  refine ⟨fun thread handler found => ?_, by simpa [point] using count⟩
  obtain ⟨isCreated, _⟩ | ⟨own, isOwn, serves⟩ := held.owner thread handler found
  · have none := List.countP_eq_zero.mp settled _ (List.mem_of_getElem? found)
    simp [isCreated, Handler.isCreated] at none
  · have bound := (List.getElem?_eq_some_iff.mp isOwn).1
    exact .inr ⟨own, by rw [List.getElem?_append_left bound, isOwn], serves⟩

theorem Threads.append {clnt_socks : CArray Nat MAX_CLNT} {clnt_cnt : Int}
    (held : Threads server sockets) (point : server.point = .append) :
    Threads { server with
      clnt_socks := clnt_socks
      clnt_cnt := clnt_cnt
      point := .create } sockets :=
  ⟨held.owner, by simpa [point] using held.count⟩

theorem Threads.create (held : Threads server sockets) (point : server.point = .create) :
    Threads { server with
      handlers := server.handlers ++ [.created]
      point := .accept } sockets := by
  have count := held.count
  refine ⟨held.owner.snoc (.inl ⟨rfl, ?_⟩), ?_⟩
  · simpa [point] using count
  · simpa [point] using count

theorem Threads.start {thread : Nat} {here : List Nat} (held : Threads server sockets)
    (registered : Registered server sockets here)
    (found : server.handlers[thread]? = some .created) (locals : Locals) :
    Threads { server with
      handlers := server.handlers.set thread (.serving server.clnt_sock locals) } sockets := by
  have count := held.count
  refine ⟨held.owner.set (.inr ⟨server.clnt_sock, ?_, .inl ⟨locals, rfl⟩⟩), by simpa using count⟩
  obtain ⟨_, last⟩ | ⟨_, _, ⟨_, isServing⟩ | ⟨_, _, isSending⟩⟩ := held.owner thread _ found
  · have bound : thread < sockets.length := by omega
    have isLast : sockets.getLast? = some sockets[thread] := by
      rw [List.getLast?_eq_getElem?, ← last, Nat.add_sub_cancel]
      exact List.getElem?_eq_getElem bound
    rw [registered.newest _ isLast]
    exact List.getElem?_eq_getElem bound
  · cases isServing
  · cases isSending

theorem Threads.socket (held : Threads server sockets) {thread socket : Nat}
    {handler : Handler} (found : server.handlers[thread]? = some handler)
    (serves : handler.Serves socket) : sockets[thread]? = some socket := by
  obtain ⟨rfl, _⟩ | ⟨own, isOwn, alsoServes⟩ := held.owner thread handler found
  · rcases serves with ⟨_, same⟩ | ⟨_, _, same⟩ <;> cases same
  · rcases serves with ⟨_, rfl⟩ | ⟨_, _, rfl⟩ <;>
      rcases alsoServes with ⟨_, same⟩ | ⟨_, _, same⟩ <;> cases same <;> exact isOwn

theorem Threads.goes_on {thread socket : Nat} {old new : Handler}
    {sent : List (Nat × List Byte)} (held : Threads server sockets)
    (found : server.handlers[thread]? = some old) (before : old.Serves socket)
    (after : new.Serves socket) :
    Threads { server with
      handlers := server.handlers.set thread new
      sent := sent } sockets :=
  ⟨held.owner.set (.inr ⟨socket, held.socket found before, after⟩), by
    simpa using held.count⟩

end threads

/-! ## What threads hold -/

/-- What a thread holds that was read from this socket. -/
def Handler.message (socket : Nat) : Handler → Option (List Byte)
  | .sending clnt_sock _ msg => if clnt_sock = socket then some msg else none
  | _ => none

/-- The messages that were read from a socket and are not sent yet. -/
def System.held (s : System) (socket : Nat) : List (List Byte) :=
  Pool.held (fun _ handler => handler.message socket) s.handlers

theorem Handler.message_eq_some {socket : Nat} {handler : Handler} {msg : List Byte} :
    handler.message socket = some msg ↔ ∃ locals, handler = .sending socket locals msg := by
  cases handler with
  | sending clnt_sock locals own =>
      by_cases same : clnt_sock = socket <;> simp [Handler.message, same]
  | _ => simp [Handler.message]

theorem held_create (s : System) (point : MainPoint) (socket : Nat) :
    System.held { s with handlers := s.handlers ++ [.created], point := point } socket =
      s.held socket := by
  rw [System.held, Pool.held_snoc]
  exact List.append_nil _

theorem held_set_of_none {s : System} {thread socket : Nat} {old new : Handler}
    {sent : List (Nat × List Byte)} (found : s.handlers[thread]? = some old)
    (before : old.message socket = none) (after : new.message socket = none) :
    System.held { s with handlers := s.handlers.set thread new, sent := sent } socket =
      s.held socket :=
  Pool.held_set_of_same found (fun _ _ _ => rfl) (after.trans before.symm)

theorem held_set_perm {s : System} {thread : Nat} {old : Handler}
    (found : s.handlers[thread]? = some old) (new : Handler) (sent : List (Nat × List Byte))
    (socket : Nat) :
    (s.held socket ++ (new.message socket).toList).Perm
      (System.held { s with handlers := s.handlers.set thread new, sent := sent } socket ++
        (old.message socket).toList) :=
  Pool.held_set_perm found (fun _ _ _ => rfl) new

/-- With a thread for each user, nobody else holds what was read from its socket. -/
theorem Threads.held {server : System} {sockets here : List Nat}
    (held : Threads server sockets) (registered : Registered server sockets here)
    {thread socket : Nat} {handler : Handler}
    (found : server.handlers[thread]? = some handler) (serves : handler.Serves socket) :
    server.held socket = (handler.message socket).toList := by
  refine Pool.held_of_only found fun other item isItem different => ?_
  rw [Option.eq_none_iff_forall_ne_some]
  intro msg isMsg
  obtain ⟨locals, rfl⟩ := Handler.message_eq_some.mp isMsg
  obtain ⟨bound, isSocket⟩ := List.getElem?_eq_some_iff.mp (held.socket found serves)
  obtain ⟨inside, same⟩ :=
    List.getElem?_eq_some_iff.mp (held.socket isItem (.inr ⟨locals, msg, rfl⟩))
  exact different (registered.distinct.getElem_inj_iff.mp (same.trans isSocket.symm))

theorem Threads.held_read {server : System} {sockets here : List Nat}
    (held : Threads server sockets) (registered : Registered server sockets here)
    {thread socket : Nat} {locals : Locals}
    (found : server.handlers[thread]? = some (.serving socket locals)) (after : Locals)
    (msg : List Byte) :
    server.held socket = [] ∧
      System.held { server with
        handlers := server.handlers.set thread (.sending socket after msg) } socket = [msg] := by
  have before : server.held socket = [] := held.held registered found (.inl ⟨_, rfl⟩)
  refine ⟨before, ?_⟩
  have moved := held_set_perm found (.sending socket after msg) server.sent socket
  simpa only [before, Handler.message, if_true, Option.toList_some, Option.toList_none,
    List.nil_append, List.append_nil, List.singleton_perm, eq_comm] using moved

theorem Threads.held_sent {server : System} {sockets here : List Nat}
    (held : Threads server sockets) (registered : Registered server sockets here)
    {thread socket : Nat} {locals : Locals} {msg : List Byte}
    (found : server.handlers[thread]? = some (.sending socket locals msg))
    (sent : List (Nat × List Byte)) :
    server.held socket = [msg] ∧
      System.held { server with
        handlers := server.handlers.set thread (.serving socket locals)
        sent := sent } socket = [] := by
  have before : server.held socket = [msg] := by
    rw [held.held registered found (.inr ⟨_, _, rfl⟩)]
    simp [Handler.message]
  refine ⟨before, ?_⟩
  have moved := held_set_perm found (.serving socket locals) sent socket
  simpa only [before, Handler.message, if_true, Option.toList_some, Option.toList_none,
    List.append_nil, List.singleton_perm, List.self_eq_append_left] using moved

/-! ## What is heard -/

theorem Registered.written {server : System} {sockets here : List Nat}
    (held : Registered server sockets here) {index socket : Nat}
    (found : sockets[index]? = some socket) (msg : List Byte) :
    ((((server.send_all msg).drop server.sent.length).filter (·.1 = socket)).map
        Prod.snd) = if index ∈ here then [msg] else [] := by
  obtain ⟨bound, rfl⟩ := List.getElem?_eq_some_iff.mp found
  have copies : (server.send_all msg).drop server.sent.length =
      (sockets.take here.length).map fun socket => (socket, msg) := by
    rw [System.send_all, List.drop_left' rfl, held.count, Int.toNat_natCast, held.registry]
  have inside : sockets[index] ∈ sockets.take here.length ↔ index ∈ here := by
    rw [held.inOrder, List.mem_range, List.length_range, List.mem_take_iff_getElem]
    constructor
    · rintro ⟨other, small, same⟩
      have isIndex := held.distinct.getElem_inj_iff.mp same
      omega
    · intro small
      exact ⟨index, by omega, rfl⟩
  rw [copies, filter_copies (held.distinct.sublist (List.take_sublist _ _))]
  simp only [inside]

/-! ## What was said and what is shown -/

/-- What the server sent for a user. -/
def said (index : Nat) (history : List (Event Nat (Nat × List Byte))) : List (List Byte) :=
  ((sends history).filter (·.1 = index)).map Prod.snd

theorem said_join (index member : Nat) (history : List (Event Nat (Nat × List Byte))) :
    said index (history ++ [.join member]) = said index history := by
  rw [said, sends_join, said]

theorem said_send (index author : Nat) (msg : List Byte)
    (history : List (Event Nat (Nat × List Byte))) :
    said index (history ++ [.send (author, msg)]) =
      said index history ++ if author = index then [msg] else [] := by
  by_cases same : author = index <;> simp [said, same]

/-- What was sent while a user was registered; a message is known by whoever sent it, or by
more. -/
def heardText {α : Type} (index : Nat) (history : List (Event Nat (α × List Byte))) :
    List Byte :=
  ((heard index history).map Prod.snd).flatten

/-- Nobody hears anything before its registration. -/
theorem Registered.unheard {α : Type} {server : System} {sockets : List Nat}
    {history : List (Event Nat (α × List Byte))}
    (held : Registered server sockets (members history)) (growing : Growing history) :
    heardText sockets.length history = [] := by
  have outside : sockets.length ∉ members history := by
    have known := held.known
    rw [held.inOrder, List.mem_range]
    omega
  rw [heardText, (heard_suffix growing).2 outside]
  rfl

theorem unsaid {index : Nat} {history : List (Event Nat (Nat × List Byte))}
    (authors : ∀ message ∈ sends history, message.1 < index) : said index history = [] := by
  rw [said, List.map_eq_nil_iff, List.filter_eq_nil_iff]
  intro message sent
  have known := authors message sent
  simp only [decide_eq_true_eq]
  omega

theorem zero_notMem_heardText {α : Type} {history : List (Event Nat (α × List Byte))}
    (growing : Growing history) (plain : ∀ message ∈ sends history, 0#8 ∉ message.2)
    (index : Nat) : 0#8 ∉ heardText index history := by
  intro inside
  have heardAll := (heard_suffix growing : heard index history <:+ _ ∧ _).1.subset
  obtain ⟨text, isText, zero⟩ := List.mem_flatten.mp inside
  obtain ⟨message, isMessage, rfl⟩ := List.mem_map.mp isText
  exact plain message (heardAll isMessage) zero

/-- What is written of a message to a connection is what its user hears of it. -/
theorem Registered.delivered {α : Type} {server : System} {sockets : List Nat}
    {history : List (Event Nat (α × List Byte))}
    (held : Registered server sockets (members history)) {index socket : Nat}
    (found : sockets[index]? = some socket) (author : α) (msg : List Byte) :
    heardText index (history ++ [.send (author, msg)]) = heardText index history ++
      ((((server.send_all msg).drop server.sent.length).filter (·.1 = socket)).map
        Prod.snd).flatten := by
  rw [heardText, heard_send, List.map_append, List.flatten_append,
    held.written found msg, heardText]
  by_cases here : index ∈ members history <;> simp [here]

end NetworkProgramming.Hw8
