import NetworkProgramming.Hw8.LineToBroadcast
import NetworkProgramming.Hw8.Members

/-!
# What the users of `hw8_client` see

The users type lines of expressions, the threads of the server read them from the
connections, and every result is written to all registered connections.  The
receiving threads print what they read, in whatever pieces it comes.  Nobody leaves.
Two threads that have one socket can send their results in the other order.
-/

namespace NetworkProgramming.Hw8

open MachineInt Broadcast Transition

/-! ## The users -/

/-- A line with the tokens of an expression. -/
structure TypedLine where
  stored : List Byte
  opCount : Nat
  operands : List (List Byte)
  operators : List (List Byte)
  isLine : IsLine stored opCount operands operators

/-- Who starts `hw8_client`, and what they type. -/
structure Member where
  name : CArray Byte NAME_SIZE
  letters : List Byte
  isName : name.cString? = some letters
  /-- `strlen(argv[3]) != 4` ends the program. -/
  four : letters.length = 4
  lines : List TypedLine

/-- What the group is to see of a line. -/
def Member.message (atoi : List Byte → Word) (member : Member) (line : TypedLine) :
    List Byte :=
  broadcastText member.letters (lineExpression atoi line.operands line.operators)

/-- A process of `hw8_client`, with both directions of its connection. -/
structure User where
  member : Member
  socket : Nat
  /-- What is still to be typed. -/
  lines : List TypedLine
  locals : SendLocals
  up : List Byte
  down : List Byte
  name_msg : CArray Byte (NAME_SIZE + BUF_SIZE)
  stdout : List Byte

/-- What the stacks of the two threads hold is not known. -/
def User.connected (socket : Nat) (member : Member) (locals : SendLocals)
    (name_msg : CArray Byte (NAME_SIZE + BUF_SIZE)) : User :=
  ⟨member, socket, member.lines, locals, [], [], name_msg, []⟩

/-- What was written to the connection arrives. -/
def User.deliver (sent : List (Nat × List Byte)) (user : User) : User :=
  { user with
    down := user.down ++ ((sent.filter (·.1 = user.socket)).map Prod.snd).flatten }

/-- The server and its users. -/
structure Group where
  server : System
  /-- In the order of their connections. -/
  users : List User
  /-- Who was registered and whose message was sent, in order. -/
  history : List (Event Nat (Nat × List Byte))

def Group.initial : Group := ⟨System.initial, [], []⟩

/-- A step of the server or of one of the two threads of a user. -/
inductive GroupAction where
  | accept (socket : Nat) (member : Member) (locals : SendLocals)
      (name_msg : CArray Byte (NAME_SIZE + BUF_SIZE))
  | append
  | create
  | start (thread : Nat) (locals : Locals)
  | send_msg (index : Nat)
  /-- `readv` returns `count` bytes, and the thread computes its message. -/
  | readv (thread count : Nat)
  | send_all (thread : Nat)
  | recv_msg (index count : Nat)

/-- The user whose connection is `clnt_sock`. -/
def Group.userOf (s : Group) (clnt_sock : Nat) : Option (Nat × User) := do
  let index ← s.users.findIdx? (·.socket = clnt_sock)
  let user ← s.users[index]?
  return (index, user)

def Group.step (atoi : List Byte → Word) (s : Group) : GroupAction → Option Group
  | .accept socket member locals name_msg => do
      let server ← Hw8.step s.server (.accept socket)
      some { s with
        server := server
        users := s.users ++ [.connected socket member locals name_msg] }
  | .append => do
      let server ← Hw8.step s.server .append
      some { s with server := server, history := s.history ++ [.join (s.users.length - 1)] }
  | .create => do
      let server ← Hw8.step s.server .create
      some { s with server := server }
  | .start thread locals => do
      let server ← Hw8.step s.server (.start thread locals)
      some { s with server := server }
  | .send_msg index => do
      let user ← s.users[index]?
      match user.lines with
      | [] => none
      | line :: lines => do
          let (locals, sent) ← sendLine atoi user.member.name line.stored user.locals
          match sent with
          | .nothing =>
              some { s with users := s.users.set index { user with
                lines := lines
                locals := locals } }
          | .request bytes =>
              some { s with users := s.users.set index { user with
                lines := lines
                locals := locals
                up := user.up ++ bytes } }
          | .closed => none
  | .readv thread count =>
      match s.server.handlers[thread]? with
      | some (.serving clnt_sock _) => do
          let (index, user) ← s.userOf clnt_sock
          let server ← Hw8.step s.server (.readv thread (user.up.take count))
          if count ≤ user.up.length then
            some { s with
              server := server
              users := s.users.set index { user with up := user.up.drop count } }
          else none
      | _ => none
  | .send_all thread =>
      match s.server.handlers[thread]? with
      | some (.sending clnt_sock _ msg) => do
          let (index, _) ← s.userOf clnt_sock
          let server ← Hw8.step s.server (.send_all thread)
          some {
            server := server
            users := s.users.map (.deliver (server.sent.drop s.server.sent.length))
            history := s.history ++ [.send (index, msg)] }
      | _ => none
  | .recv_msg index count => do
      let user ← s.users[index]?
      if 0 < count ∧ count ≤ NAME_SIZE + BUF_SIZE - 1 ∧ count ≤ user.down.length then do
        let name_msg ← (user.name_msg.fill (user.down.take count)).set? count 0#8
        let text ← name_msg.cString?
        some { s with users := s.users.set index { user with
          name_msg := name_msg
          down := user.down.drop count
          stdout := user.stdout ++ text } }
      else none

/-! ## What a request asks for -/

/-- Whatever the thread that reads it holds, it answers with this text. -/
structure AsksFor (request text : List Byte) : Prop where
  size : request.length = NAME_SIZE + BUF_SIZE
  answered : ∀ locals, ∃ after, respond locals request = some (after, text)
  plain : 0#8 ∉ text

theorem zero_notMem_broadcastText {name : List Byte} (plain : 0#8 ∉ name)
    (expression : Expression) : 0#8 ∉ broadcastText name expression := by
  have opening : (0#8 : Byte) ≠ ascii '[' := by decide
  have closing : (0#8 : Byte) ≠ ascii ']' := by decide
  have blank : (0#8 : Byte) ≠ ascii ' ' := by decide
  simp [broadcastText, plain, expression.zero_notMem_line, opening, closing, blank]

theorem Member.sends {atoi : List Byte → Word} (reads : IsAtoi atoi) (member : Member)
    (line : TypedLine) (locals : SendLocals) :
    ∃ final request,
      sendLine atoi member.name line.stored locals = some (final, .request request) ∧
        AsksFor request (member.message atoi line) := by
  obtain ⟨final, tail, sent, cells⟩ := line.isLine.sendLine reads member.name locals
  refine ⟨final, _, sent, ?_, fun earlier => ?_, ?_⟩
  · rw [List.length_append, member.name.length_cells, final.req.length_cells]
  · have size := line.isLine.operandCount
    have positive := line.isLine.positive
    have small := line.isLine.small
    have count : (lineExpression atoi line.operands line.operators).count ≤ 127 := by
      rw [count_lineExpression (by omega) (by rw [line.isLine.operatorCount, size]), size]
      exact small
    have scattered := scatter_sent earlier member.name final.req
    have requested : requestedExpression
        (earlier.scatter (member.name.cells ++ final.req.cells)).req earlier.operand =
          lineExpression atoi line.operands line.operators := by
      rw [scattered]
      exact requestedExpression_encode count cells
    have bound := line.isLine.length_text reads
    obtain ⟨after, responded⟩ := @respond_spec earlier _ member.letters
      (by rw [scattered]; exact member.isName)
      (by
        rw [requested]
        exact Expression.fits_of_plain line.isLine.operators_plain (by omega))
    rw [requested] at responded
    exact ⟨after, responded⟩
  · exact zero_notMem_broadcastText (CArray.zero_notMem_of_cString? member.isName) _

/-! ## What a step does -/

/-- A step, by its action and what it finds. -/
inductive Moves (atoi : List Byte → Word) (s : Group) : GroupAction → Group → Prop where
  | accept (socket : Nat) (member : Member) (locals : SendLocals)
      (name_msg : CArray Byte (NAME_SIZE + BUF_SIZE)) (point : s.server.point = .accept)
      (fresh : socket ∉ s.server.sockets) :
      Moves atoi s (.accept socket member locals name_msg) { s with
        server := { s.server with
          clnt_sock := socket
          sockets := insert socket s.server.sockets
          point := .append }
        users := s.users ++ [.connected socket member locals name_msg] }
  | append {clnt_socks : CArray Nat MAX_CLNT} (point : s.server.point = .append)
      (stored : s.server.clnt_socks.set? s.server.clnt_cnt.toNat s.server.clnt_sock =
        some clnt_socks) :
      Moves atoi s .append { s with
        server := { s.server with
          clnt_socks := clnt_socks
          clnt_cnt := s.server.clnt_cnt + 1
          point := .create }
        history := s.history ++ [.join (s.users.length - 1)] }
  | create (point : s.server.point = .create) :
      Moves atoi s .create { s with
        server := { s.server with
          handlers := s.server.handlers ++ [.created]
          point := .accept } }
  | start (thread : Nat) (locals : Locals)
      (found : s.server.handlers[thread]? = some .created) :
      Moves atoi s (.start thread locals) { s with
        server := { s.server with
          handlers := s.server.handlers.set thread (.serving s.server.clnt_sock locals) } }
  | send_msg (index : Nat) {user : User} {line : TypedLine} {lines : List TypedLine}
      {locals : SendLocals} {request : List Byte} (found : s.users[index]? = some user)
      (typed : user.lines = line :: lines)
      (asks : AsksFor request (user.member.message atoi line)) :
      Moves atoi s (.send_msg index) { s with
        users := s.users.set index { user with
          lines := lines
          locals := locals
          up := user.up ++ request } }
  | readv (thread count : Nat) {clnt_sock index : Nat} {locals after : Locals} {user : User}
      {msg : List Byte} (found : s.server.handlers[thread]? = some (.serving clnt_sock locals))
      (isUser : s.users[index]? = some user) (own : user.socket = clnt_sock)
      (responded : respond locals (user.up.take count) = some (after, msg))
      (there : count ≤ user.up.length) :
      Moves atoi s (.readv thread count) { s with
        server := { s.server with
          handlers := s.server.handlers.set thread (.sending clnt_sock after msg) }
        users := s.users.set index { user with up := user.up.drop count } }
  | send_all (thread : Nat) {clnt_sock index : Nat} {locals : Locals} {user : User}
      {msg : List Byte}
      (found : s.server.handlers[thread]? = some (.sending clnt_sock locals msg))
      (isUser : s.users[index]? = some user) (own : user.socket = clnt_sock) :
      Moves atoi s (.send_all thread) {
        server := { s.server with
          handlers := s.server.handlers.set thread (.serving clnt_sock locals)
          sent := s.server.send_all msg }
        users := s.users.map (.deliver ((s.server.send_all msg).drop s.server.sent.length))
        history := s.history ++ [.send (index, msg)] }
  | recv_msg (index count : Nat) {user : User}
      {name_msg : CArray Byte (NAME_SIZE + BUF_SIZE)} {text : List Byte}
      (found : s.users[index]? = some user) (positive : 0 < count)
      (there : count ≤ user.down.length)
      (stored : (user.name_msg.fill (user.down.take count)).set? count 0#8 = some name_msg)
      (holds : name_msg.cString? = some text) :
      Moves atoi s (.recv_msg index count) { s with
        users := s.users.set index { user with
          name_msg := name_msg
          down := user.down.drop count
          stdout := user.stdout ++ text } }

theorem Group.userOf_eq_some {s : Group} {clnt_sock index : Nat} {user : User}
    (isUser : s.userOf clnt_sock = some (index, user)) :
    s.users[index]? = some user ∧ user.socket = clnt_sock := by
  simp only [Group.userOf, Option.bind_eq_bind, Option.bind_eq_some_iff] at isUser
  obtain ⟨place, isPlace, other, found, final⟩ := isUser
  cases final
  obtain ⟨bound, isSocket, _⟩ := List.findIdx?_eq_some_iff_getElem.mp isPlace
  rw [List.getElem?_eq_getElem bound, Option.some.injEq] at found
  subst found
  exact ⟨List.getElem?_eq_getElem bound, by simpa using isSocket⟩

theorem step_moves {atoi : List Byte → Word} (reads : IsAtoi atoi) {s next : Group}
    {action : GroupAction} (taken : s.step atoi action = some next) :
    Moves atoi s action next := by
  cases action with
  | accept socket member locals name_msg =>
      simp only [Group.step, Option.bind_eq_bind, Option.bind_eq_some_iff] at taken
      obtain ⟨server, moved, taken⟩ := taken
      cases taken
      cases System.moves_of_step moved with
      | accept _ point fresh => exact .accept socket member locals name_msg point fresh
  | append =>
      simp only [Group.step, Option.bind_eq_bind, Option.bind_eq_some_iff] at taken
      obtain ⟨server, moved, taken⟩ := taken
      cases taken
      cases System.moves_of_step moved with
      | append point positive stored => exact .append point stored
  | create =>
      simp only [Group.step, Option.bind_eq_bind, Option.bind_eq_some_iff] at taken
      obtain ⟨server, moved, taken⟩ := taken
      cases taken
      cases System.moves_of_step moved with
      | create point => exact .create point
  | start thread locals =>
      simp only [Group.step, Option.bind_eq_bind, Option.bind_eq_some_iff] at taken
      obtain ⟨server, moved, taken⟩ := taken
      cases taken
      cases System.moves_of_step moved with
      | start _ _ found => exact .start thread locals found
  | send_msg index =>
      simp only [Group.step, Option.bind_eq_bind, Option.bind_eq_some_iff] at taken
      obtain ⟨user, found, taken⟩ := taken
      split at taken <;> rename_i typed
      · cases taken
      · rename_i line lines
        obtain ⟨final, request, sent, asks⟩ := user.member.sends reads line user.locals
        rw [sent, Option.bind_some] at taken
        cases taken
        exact .send_msg index found typed asks
  | readv thread count =>
      simp only [Group.step] at taken
      split at taken <;> rename_i found
      · simp only [Option.bind_eq_bind, Option.bind_eq_some_iff] at taken
        obtain ⟨⟨index, user⟩, isUser, server, moved, taken⟩ := taken
        obtain ⟨inside, own⟩ := Group.userOf_eq_some isUser
        split at taken <;> rename_i there
        · cases taken
          cases System.moves_of_step moved with
          | readv _ _ also isOpen positive small responded =>
              rw [found, Option.some.injEq, Handler.serving.injEq] at also
              obtain ⟨rfl, rfl⟩ := also
              exact .readv thread count found inside own responded there
        · cases taken
      · cases taken
  | send_all thread =>
      simp only [Group.step] at taken
      split at taken <;> rename_i found
      · simp only [Option.bind_eq_bind, Option.bind_eq_some_iff] at taken
        obtain ⟨⟨index, user⟩, isUser, server, moved, taken⟩ := taken
        obtain ⟨inside, own⟩ := Group.userOf_eq_some isUser
        cases taken
        cases System.moves_of_step moved with
        | send_all _ also =>
            rw [found, Option.some.injEq, Handler.sending.injEq] at also
            obtain ⟨rfl, rfl, rfl⟩ := also
            exact .send_all thread found inside own
      · cases taken
  | recv_msg index count =>
      simp only [Group.step, Option.bind_eq_bind, Option.bind_eq_some_iff] at taken
      obtain ⟨user, found, taken⟩ := taken
      split at taken <;> rename_i guard
      · obtain ⟨name_msg, stored, taken⟩ := Option.bind_eq_some_iff.mp taken
        obtain ⟨text, holds, taken⟩ := Option.bind_eq_some_iff.mp taken
        cases taken
        exact .recv_msg index count found guard.1 guard.2.2 stored holds
      · cases taken

/-! ## Who is registered -/

def Group.sockets (s : Group) : List Nat := s.users.map User.socket

def Group.Registered (s : Group) : Prop :=
  Hw8.Registered s.server s.sockets (members s.history)

theorem sockets_set {users : List User} {index : Nat} {user moved : User}
    (found : users[index]? = some user) (same : moved.socket = user.socket) :
    (users.set index moved).map User.socket = users.map User.socket :=
  Pool.map_set_of_same found same

theorem registered_step {atoi : List Byte → Word} (reads : IsAtoi atoi) {s next : Group}
    {action : GroupAction} (held : s.Registered)
    (taken : s.step atoi action = some next) : next.Registered := by
  unfold Group.Registered Group.sockets at held ⊢
  cases step_moves reads taken with
  | accept socket member locals name_msg point fresh =>
      simp only [List.map_append, List.map_singleton]
      exact held.accept point fresh
  | append point stored =>
      have appended := held.append point stored
      rw [List.length_map] at appended
      simpa only [members_snoc, Event.members] using appended
  | create point => exact held.create point
  | start thread locals found =>
      exact ⟨held.distinct, held.opened, held.newest, held.count, held.registry,
        held.inOrder, held.known⟩
  | send_msg index found typed asks =>
      simpa only [sockets_set found] using held
  | readv thread count found isUser own responded there =>
      rw [sockets_set isUser (by rfl)]
      exact ⟨held.distinct, held.opened, held.newest, held.count, held.registry,
        held.inOrder, held.known⟩
  | send_all thread found isUser own =>
      have stays (sent : List (Nat × List Byte)) :
          User.socket ∘ User.deliver sent = User.socket := rfl
      simp only [List.map_map, stays, members_snoc, Event.members]
      exact ⟨held.distinct, held.opened, held.newest, held.count, held.registry,
        held.inOrder, held.known⟩
  | recv_msg index count found positive there stored holds =>
      simpa only [sockets_set found] using held

/-! ## What was said and what is shown -/

def Shown (history : List (Event Nat (Nat × List Byte))) (index : Nat) (user : User) :
    Prop :=
  user.stdout ++ user.down = heardText index history

/-- The requests on their way are whole, and they ask for what was typed behind what was
answered.  Of that, some is sent and some is held by threads, in any order. -/
def Asked (atoi : List Byte → Word) (s : Group) (index : Nat) (user : User) : Prop :=
  ∃ (answered : List (List Byte)) (pending : List (List Byte × List Byte)),
    user.up = (pending.map Prod.fst).flatten ∧
      (∀ request ∈ pending, AsksFor request.1 request.2) ∧
      (said index s.history ++ s.server.held user.socket).Perm answered ∧
      answered ++ pending.map Prod.snd ++ user.lines.map (user.member.message atoi) =
        user.member.lines.map (user.member.message atoi)

/-- `readv` returns a whole request. -/
def Whole (_ : Group) : GroupAction → Prop
  | .readv _ count => count = NAME_SIZE + BUF_SIZE
  | _ => True

/-- What holds of a group whatever sockets the threads have. -/
structure Told (atoi : List Byte → Word) (s : Group) : Prop where
  registered : s.Registered
  growing : Growing s.history
  plain : ∀ message ∈ sends s.history, 0#8 ∉ message.2
  holds : ∀ socket, ∀ msg ∈ s.server.held socket, socket ∈ s.sockets ∧ 0#8 ∉ msg
  authors : ∀ message ∈ sends s.history, message.1 < s.users.length
  shown : Pool.Each (Shown s.history) s.users
  asked : Pool.Each (Asked atoi s) s.users

section told

variable {atoi : List Byte → Word} {s next : Group}

theorem Told.down_plain (held : Told atoi s) {index : Nat} {user : User}
    (found : s.users[index]? = some user) : 0#8 ∉ user.down := by
  intro inside
  have shown := held.shown index user found
  refine zero_notMem_heardText held.growing held.plain index ?_
  rw [← shown]
  exact List.mem_append_right _ inside

theorem Told.unheld (held : Told atoi s) {socket : Nat} (fresh : socket ∉ s.server.sockets) :
    s.server.held socket = [] :=
  List.eq_nil_iff_forall_not_mem.mpr fun msg member =>
    fresh (held.registered.opened socket (held.holds socket msg member).1)

theorem told_accept (held : Told atoi s) {socket : Nat} {member : Member}
    {locals : SendLocals} {name_msg : CArray Byte (NAME_SIZE + BUF_SIZE)}
    (fresh : socket ∉ s.server.sockets)
    (registered : Group.Registered { s with
      server := { s.server with
        clnt_sock := socket
        sockets := insert socket s.server.sockets
        point := .append }
      users := s.users ++ [.connected socket member locals name_msg] }) :
    Told atoi { s with
      server := { s.server with
        clnt_sock := socket
        sockets := insert socket s.server.sockets
        point := .append }
      users := s.users ++ [.connected socket member locals name_msg] } where
  registered := registered
  growing := held.growing
  plain := held.plain
  holds := by
    intro other msg member
    obtain ⟨known, plain⟩ := held.holds other msg member
    refine ⟨?_, plain⟩
    rw [Group.sockets, List.map_append]
    exact List.mem_append_left _ known
  authors := by
    intro message sent
    have known := held.authors message sent
    simp only [List.length_append, List.length_singleton]
    omega
  shown := by
    have unheard := held.registered.unheard held.growing
    rw [Group.sockets, List.length_map] at unheard
    exact held.shown.snoc unheard.symm
  asked := by
    refine held.asked.snoc ⟨[], [], rfl, by simp, .of_eq ?_, by simp [User.connected]⟩
    rw [unsaid held.authors]
    exact held.unheld fresh

/-- The request that is served is the first of those on their way. -/
theorem Asked.first {index count : Nat} {user : User} {locals after : Locals}
    {msg : List Byte} (asked : Asked atoi s index user) (whole : count = NAME_SIZE + BUF_SIZE)
    (there : count ≤ user.up.length)
    (responded : respond locals (user.up.take count) = some (after, msg)) :
    0#8 ∉ msg ∧ ∃ (answered : List (List Byte)) (pending : List (List Byte × List Byte)),
      user.up.drop count = (pending.map Prod.fst).flatten ∧
        (∀ request ∈ pending, AsksFor request.1 request.2) ∧
        (said index s.history ++ s.server.held user.socket).Perm answered ∧
        answered ++ msg :: pending.map Prod.snd ++
            user.lines.map (user.member.message atoi) =
          user.member.lines.map (user.member.message atoi) := by
  obtain ⟨answered, pending, isUp, asks, same, typed⟩ := asked
  obtain ⟨request, pending, rfl⟩ := List.exists_cons_of_ne_nil (show pending ≠ [] by
    rintro rfl
    rw [isUp] at there
    have size : NAME_SIZE + BUF_SIZE = 1029 := rfl
    simp at there
    omega)
  have asksFor := asks request List.mem_cons_self
  have first : user.up = request.1 ++ (pending.map Prod.fst).flatten := isUp
  have size : request.1.length = count := asksFor.size.trans whole.symm
  have isMsg : msg = request.2 := by
    obtain ⟨other, expected⟩ := asksFor.answered locals
    rw [first, List.take_left' size, expected] at responded
    exact (Prod.mk.inj (Option.some.inj responded)).2.symm
  refine ⟨isMsg ▸ asksFor.plain, answered, pending, ?_, ?_, same, ?_⟩
  · rw [first]
    exact List.drop_left' size
  · exact fun other member => asks other (List.mem_cons_of_mem _ member)
  · rw [isMsg]
    exact typed

theorem told_readv (held : Told atoi s) {thread count clnt_sock index : Nat}
    {locals after : Locals} {user : User} {msg : List Byte}
    (found : s.server.handlers[thread]? = some (.serving clnt_sock locals))
    (isUser : s.users[index]? = some user) (own : user.socket = clnt_sock)
    (responded : respond locals (user.up.take count) = some (after, msg))
    (whole : count = NAME_SIZE + BUF_SIZE) (there : count ≤ user.up.length)
    (registered : Group.Registered { s with
      server := { s.server with
        handlers := s.server.handlers.set thread (.sending clnt_sock after msg) }
      users := s.users.set index { user with up := user.up.drop count } }) :
    Told atoi { s with
      server := { s.server with
        handlers := s.server.handlers.set thread (.sending clnt_sock after msg) }
      users := s.users.set index { user with up := user.up.drop count } } := by
  obtain ⟨plain, answered, pending, isUp, asks, same, typed⟩ :=
    (held.asked index user isUser).first whole there responded
  have inside := (List.getElem?_eq_some_iff.mp isUser).1
  have moved := held_set_perm found (.sending clnt_sock after msg) s.server.sent
  simp only [Handler.message, Option.toList_none, List.append_nil] at moved
  refine ⟨registered, held.growing, held.plain, ?_, ?_, ?_, ?_⟩
  · intro socket other member
    rw [Group.sockets, sockets_set isUser (by rfl)]
    rw [← (moved socket).mem_iff, List.mem_append] at member
    rcases member with earlier | new
    · exact held.holds socket other earlier
    · by_cases mine : clnt_sock = socket
      · rw [if_pos mine, Option.toList_some, List.mem_singleton] at new
        subst new
        refine ⟨?_, plain⟩
        rw [← mine, ← own]
        exact List.mem_map_of_mem (List.mem_of_getElem? isUser)
      · rw [if_neg mine] at new
        cases new
  · simpa only [List.length_set] using held.authors
  · exact held.shown.set (held.shown index user isUser)
  · intro other item isItem
    by_cases mine : index = other
    · subst mine
      rw [List.getElem?_set_self inside, Option.some.injEq] at isItem
      subst isItem
      refine ⟨answered ++ [msg], pending, isUp, asks, ?_, by simpa using typed⟩
      have now := moved user.socket
      rw [if_pos own.symm] at now
      refine (List.Perm.append_left _ now.symm).trans ?_
      rw [← List.append_assoc]
      exact same.append_right _
    · rw [List.getElem?_set_ne mine] at isItem
      obtain ⟨otherAnswered, others, otherUp, otherAsks, otherSame, otherTyped⟩ :=
        held.asked other item isItem
      have elsewhere : clnt_sock ≠ item.socket := by
        rw [← own]
        exact (Pool.view_ne held.registered.distinct isUser isItem mine).symm
      have now := moved item.socket
      rw [if_neg elsewhere, Option.toList_none, List.append_nil] at now
      exact ⟨otherAnswered, others, otherUp, otherAsks,
        (List.Perm.append_left _ now.symm).trans otherSame, otherTyped⟩

theorem told_send_all (held : Told atoi s) {thread clnt_sock index : Nat} {locals : Locals}
    {user : User} {msg : List Byte}
    (found : s.server.handlers[thread]? = some (.sending clnt_sock locals msg))
    (isUser : s.users[index]? = some user) (own : user.socket = clnt_sock)
    (registered : Group.Registered {
      server := { s.server with
        handlers := s.server.handlers.set thread (.serving clnt_sock locals)
        sent := s.server.send_all msg }
      users := s.users.map (.deliver ((s.server.send_all msg).drop s.server.sent.length))
      history := s.history ++ [.send (index, msg)] }) :
    Told atoi {
      server := { s.server with
        handlers := s.server.handlers.set thread (.serving clnt_sock locals)
        sent := s.server.send_all msg }
      users := s.users.map (.deliver ((s.server.send_all msg).drop s.server.sent.length))
      history := s.history ++ [.send (index, msg)] } := by
  have inside := (List.getElem?_eq_some_iff.mp isUser).1
  have moved := held_set_perm found (.serving clnt_sock locals) (s.server.send_all msg)
  simp only [Handler.message, Option.toList_none, List.append_nil] at moved
  have isHeld : msg ∈ s.server.held clnt_sock := by
    rw [(moved clnt_sock).mem_iff, if_pos rfl]
    exact List.mem_append_right _ List.mem_cons_self
  refine ⟨registered, held.growing.send _, ?_, ?_, ?_, ?_, ?_⟩
  · intro message sent
    rw [sends_send, List.mem_append, List.mem_singleton] at sent
    rcases sent with earlier | rfl
    · exact held.plain message earlier
    · exact (held.holds clnt_sock msg isHeld).2
  · intro socket other member
    have earlier : other ∈ s.server.held socket := by
      rw [(moved socket).mem_iff]
      exact List.mem_append_left _ member
    have stays (sent : List (Nat × List Byte)) :
        User.socket ∘ User.deliver sent = User.socket := rfl
    rw [Group.sockets, List.map_map, stays]
    exact held.holds socket other earlier
  · intro message sent
    rw [sends_send, List.mem_append, List.mem_singleton] at sent
    rw [List.length_map]
    rcases sent with earlier | rfl
    · exact held.authors message earlier
    · exact inside
  · intro other item isItem
    rw [List.getElem?_map, Option.map_eq_some_iff] at isItem
    obtain ⟨before, isBefore, rfl⟩ := isItem
    have shown := held.shown other before isBefore
    have socket : s.sockets[other]? = some before.socket := by
      rw [Group.sockets, List.getElem?_map, isBefore, Option.map_some]
    simp only [Shown, User.deliver] at shown ⊢
    rw [held.registered.delivered socket, ← shown, List.append_assoc]
  · intro other item isItem
    rw [List.getElem?_map, Option.map_eq_some_iff] at isItem
    obtain ⟨before, isBefore, rfl⟩ := isItem
    obtain ⟨answered, pending, isUp, asks, same, typed⟩ := held.asked other before isBefore
    refine ⟨answered, pending, isUp, asks, ?_, typed⟩
    -- The message goes from those that are held to those that are sent.
    have now := moved before.socket
    refine List.Perm.trans ?_ same
    rw [said_send]
    by_cases mine : index = other
    · subst mine
      cases isUser.symm.trans isBefore
      rw [if_pos own.symm] at now
      rw [if_pos rfl, List.append_assoc]
      exact List.Perm.append_left _ (List.perm_append_comm.trans now.symm)
    · have elsewhere : clnt_sock ≠ before.socket := by
        rw [← own]
        exact (Pool.view_ne held.registered.distinct isUser isBefore mine).symm
      rw [if_neg elsewhere, Option.toList_none, List.append_nil] at now
      rw [if_neg mine, List.append_nil]
      exact List.Perm.append_left _ now.symm

theorem told_step (reads : IsAtoi atoi) {action : GroupAction} (held : Told atoi s)
    (whole : Whole s action) (taken : s.step atoi action = some next) : Told atoi next := by
  have registered := registered_step reads held.registered taken
  cases step_moves reads taken with
  | accept socket member locals name_msg point fresh => exact told_accept held fresh registered
  | append point stored =>
      refine ⟨registered, held.growing.join _, ?_, held.holds, ?_, ?_, ?_⟩
      · simpa only [sends_join] using held.plain
      · simpa only [sends_join] using held.authors
      · refine held.shown.mono fun index user shown => ?_
        simpa only [Shown, heardText, heard_join] using shown
      · refine held.asked.mono fun index user asked => ?_
        rw [Asked, said_join]
        exact asked
  | create point =>
      have same := held_create s.server .accept
      refine ⟨registered, held.growing, held.plain, ?_, held.authors, held.shown, ?_⟩
      · intro socket msg member
        rw [same] at member
        exact held.holds socket msg member
      · refine held.asked.mono fun index user asked => ?_
        simpa only [Asked, same] using asked
  | start thread locals found =>
      have same (socket : Nat) := @held_set_of_none s.server thread socket .created
        (.serving s.server.clnt_sock locals) s.server.sent found rfl rfl
      refine ⟨registered, held.growing, held.plain, ?_, held.authors, held.shown, ?_⟩
      · intro socket msg member
        rw [same] at member
        exact held.holds socket msg member
      · refine held.asked.mono fun index user asked => ?_
        simpa only [Asked, same] using asked
  | @send_msg index user line lines locals request found typed asks =>
      refine ⟨registered, held.growing, held.plain, ?_, ?_, held.shown.set ?_,
        held.asked.set ?_⟩
      · simpa only [Group.sockets, sockets_set found] using held.holds
      · simpa only [List.length_set] using held.authors
      · exact held.shown index user found
      · obtain ⟨answered, pending, isUp, allAsk, same, all⟩ := held.asked index user found
        refine ⟨answered, pending ++ [(request, user.member.message atoi line)], ?_, ?_, same,
          ?_⟩
        · simp [isUp]
        · intro other member
          rcases List.mem_append.mp member with earlier | last
          · exact allAsk other earlier
          · rw [List.mem_singleton.mp last]
            exact asks
        · rw [← all, typed]
          simp
  | readv thread count found isUser own responded there =>
      exact told_readv held found isUser own responded whole there registered
  | send_all thread found isUser own => exact told_send_all held found isUser own registered
  | @recv_msg index count user name_msg text found positive there stored holds =>
      refine ⟨registered, held.growing, held.plain, ?_, ?_, held.shown.set ?_,
        held.asked.set ?_⟩
      · simpa only [Group.sockets, sockets_set found] using held.holds
      · simpa only [List.length_set] using held.authors
      · have isText : text = user.down.take count := by
          have printed := CArray.cString?_received (held.down_plain found) there stored
          rw [holds] at printed
          exact Option.some.inj printed
        have shown := held.shown index user found
        simp only [Shown] at shown ⊢
        rw [isText, List.append_assoc, List.take_append_drop, shown]
      · exact held.asked index user found

end told

theorem told_initial {atoi : List Byte → Word} : Told atoi Group.initial where
  registered := {
    distinct := List.nodup_nil
    opened := by simp [Group.initial, Group.sockets]
    newest := by simp [Group.initial, Group.sockets]
    count := rfl
    registry := rfl
    inOrder := rfl
    known := rfl }
  growing := by simp [Growing, Group.initial]
  plain := by simp [Group.initial]
  holds := by simp [Group.initial, System.held, System.initial]
  authors := by simp [Group.initial]
  shown := Pool.Each.nil
  asked := Pool.Each.nil

/-! ## A thread for each user -/

/-- `accept` returns only when every created thread has copied its argument. -/
def Started (s : Group) : GroupAction → Prop
  | .accept _ _ _ _ => s.server.handlers.countP Handler.isCreated = 0
  | _ => True

instance (s : Group) : (action : GroupAction) → Decidable (Started s action)
  | .accept _ _ _ _ => inferInstanceAs (Decidable (_ = 0))
  | .append | .create | .start _ _ | .send_msg _ | .readv _ _ | .send_all _ | .recv_msg _ _ =>
      isTrue trivial

/-- What was sent for a user and what its thread holds are the answers to its first lines,
in order. -/
def InOrder (atoi : List Byte → Word) (s : Group) (index : Nat) (user : User) : Prop :=
  said index s.history ++ s.server.held user.socket <+:
    user.member.lines.map (user.member.message atoi)

section threads

variable {atoi : List Byte → Word} {s next : Group}

theorem threads_step (reads : IsAtoi atoi) {action : GroupAction} (registered : s.Registered)
    (held : Threads s.server s.sockets) (started : Started s action)
    (taken : s.step atoi action = some next) : Threads next.server next.sockets := by
  unfold Group.Registered Group.sockets at *
  cases step_moves reads taken with
  | accept socket member locals name_msg point fresh =>
      simp only [List.map_append, List.map_singleton]
      exact held.accept point started socket
  | append point stored => exact held.append point
  | create point => exact held.create point
  | start thread locals found => exact held.start registered found locals
  | send_msg index found typed asks => simpa only [sockets_set found] using held
  | readv thread count found isUser own responded there =>
      rw [sockets_set isUser (by rfl)]
      exact held.goes_on found (.inl ⟨_, rfl⟩) (.inr ⟨_, _, rfl⟩)
  | send_all thread found isUser own =>
      have stays (sent : List (Nat × List Byte)) :
          User.socket ∘ User.deliver sent = User.socket := rfl
      rw [List.map_map, stays]
      exact held.goes_on found (.inr ⟨_, _, rfl⟩) (.inl ⟨_, rfl⟩)
  | recv_msg index count' found positive there stored holds =>
      simpa only [sockets_set found] using held

theorem inOrder_readv (held : Told atoi s) (threads : Threads s.server s.sockets)
    (ordered : Pool.Each (InOrder atoi s) s.users) {thread count clnt_sock index : Nat}
    {locals after : Locals} {user : User} {msg : List Byte}
    (found : s.server.handlers[thread]? = some (.serving clnt_sock locals))
    (isUser : s.users[index]? = some user) (own : user.socket = clnt_sock)
    (responded : respond locals (user.up.take count) = some (after, msg))
    (whole : count = NAME_SIZE + BUF_SIZE) (there : count ≤ user.up.length) :
    Pool.Each (InOrder atoi { s with
      server := { s.server with
        handlers := s.server.handlers.set thread (.sending clnt_sock after msg) }
      users := s.users.set index { user with up := user.up.drop count } })
      (s.users.set index { user with up := user.up.drop count }) := by
  have inside := (List.getElem?_eq_some_iff.mp isUser).1
  intro other item isItem
  by_cases mine : index = other
  · subst mine
    rw [List.getElem?_set_self inside, Option.some.injEq] at isItem
    subst isItem
    subst own
    -- The thread held nothing, and nobody else serves this user.
    obtain ⟨before, now⟩ := threads.held_read held.registered found after msg
    obtain ⟨_, answered, pending, _, _, same, typed⟩ :=
      (held.asked index user isUser).first whole there responded
    have soFar := ordered index user isUser
    rw [InOrder, before, List.append_nil] at soFar
    rw [before, List.append_nil] at same
    have isFront : answered <+: user.member.lines.map (user.member.message atoi) :=
      ⟨_, by rw [← typed, List.append_assoc]⟩
    have isSaid : said index s.history = answered :=
      (List.prefix_of_prefix_length_le soFar isFront same.length_eq.le).eq_of_length
        same.length_eq
    rw [InOrder, now, isSaid, ← typed]
    exact ⟨pending.map Prod.snd ++ user.lines.map (user.member.message atoi), by simp⟩
  · rw [List.getElem?_set_ne mine] at isItem
    have elsewhere : clnt_sock ≠ item.socket := by
      rw [← own]
      exact (Pool.view_ne held.registered.distinct isUser isItem mine).symm
    have same := @held_set_of_none s.server thread item.socket _ (.sending clnt_sock after msg)
      s.server.sent found rfl (if_neg elsewhere)
    rw [InOrder, same]
    exact ordered other item isItem

theorem inOrder_send_all (held : Told atoi s) (threads : Threads s.server s.sockets)
    (ordered : Pool.Each (InOrder atoi s) s.users) {thread clnt_sock index : Nat}
    {locals : Locals} {user : User} {msg : List Byte} {sent : List (Nat × List Byte)}
    (found : s.server.handlers[thread]? = some (.sending clnt_sock locals msg))
    (isUser : s.users[index]? = some user) (own : user.socket = clnt_sock) :
    Pool.Each (InOrder atoi {
      server := { s.server with
        handlers := s.server.handlers.set thread (.serving clnt_sock locals)
        sent := sent }
      users := s.users.map (.deliver (sent.drop s.server.sent.length))
      history := s.history ++ [.send (index, msg)] })
      (s.users.map (.deliver (sent.drop s.server.sent.length))) := by
  intro other item isItem
  rw [List.getElem?_map, Option.map_eq_some_iff] at isItem
  obtain ⟨before, isBefore, rfl⟩ := isItem
  have soFar := ordered other before isBefore
  rw [InOrder] at soFar ⊢
  rw [said_send]
  by_cases mine : index = other
  · subst mine
    cases isUser.symm.trans isBefore
    subst own
    obtain ⟨holds, nothing⟩ := threads.held_sent held.registered found sent
    rw [holds] at soFar
    rw [if_pos rfl, List.append_assoc]
    simpa only [User.deliver, nothing, List.append_nil] using soFar
  · have elsewhere : clnt_sock ≠ before.socket := by
      rw [← own]
      exact (Pool.view_ne held.registered.distinct isUser isBefore mine).symm
    have same := @held_set_of_none s.server thread before.socket _
      (.serving clnt_sock locals) sent found (if_neg elsewhere) rfl
    rw [if_neg mine, List.append_nil]
    simpa only [User.deliver, same] using soFar

theorem inOrder_step (reads : IsAtoi atoi) {action : GroupAction} (held : Told atoi s)
    (threads : Threads s.server s.sockets) (ordered : Pool.Each (InOrder atoi s) s.users)
    (whole : Whole s action) (taken : s.step atoi action = some next) :
    Pool.Each (InOrder atoi next) next.users := by
  cases step_moves reads taken with
  | accept socket member locals name_msg point fresh =>
      refine Pool.Each.snoc ordered ?_
      have nothing : said s.users.length s.history ++ s.server.held socket = [] := by
        rw [unsaid held.authors, held.unheld fresh, List.append_nil]
      exact ⟨_, congrArg (· ++ _) nothing⟩
  | append point stored =>
      refine Pool.Each.mono ordered fun index user soFar => ?_
      rw [InOrder, said_join]
      exact soFar
  | create point =>
      refine Pool.Each.mono ordered fun index user soFar => ?_
      rw [InOrder, held_create]
      exact soFar
  | start thread locals found =>
      refine Pool.Each.mono ordered fun index user soFar => ?_
      have same := @held_set_of_none s.server thread user.socket .created
        (.serving s.server.clnt_sock locals) s.server.sent found rfl rfl
      rw [InOrder, same]
      exact soFar
  | send_msg index found typed asks =>
      have soFar := ordered index _ found
      exact Pool.Each.set ordered soFar
  | readv thread count found isUser own responded there =>
      exact inOrder_readv held threads ordered found isUser own responded whole there
  | send_all thread found isUser own =>
      exact inOrder_send_all held threads ordered found isUser own
  | recv_msg index count found positive there stored holds =>
      have soFar := ordered index _ found
      exact Pool.Each.set ordered soFar

end threads

/-- What holds of a group whose threads have their own sockets. -/
structure Served (atoi : List Byte → Word) (s : Group) : Prop where
  told : Told atoi s
  threads : Threads s.server s.sockets
  ordered : Pool.Each (InOrder atoi s) s.users

theorem served_step {atoi : List Byte → Word} (reads : IsAtoi atoi) {s next : Group}
    {action : GroupAction} (held : Served atoi s) (whole : Whole s action)
    (started : Started s action) (taken : s.step atoi action = some next) :
    Served atoi next where
  told := told_step reads held.told whole taken
  threads := threads_step reads held.told.registered held.threads started taken
  ordered := inOrder_step reads held.told held.threads held.ordered whole taken

theorem served_initial {atoi : List Byte → Word} : Served atoi Group.initial :=
  ⟨told_initial, threads_initial, Pool.Each.nil⟩

def typedProduct : TypedLine where
  stored := productLine
  opCount := 2
  operands := [[ascii '3', ascii '0'], [ascii '-', ascii '4']]
  operators := [[ascii '*']]
  isLine := {
    short := by decide
    whole := ⟨productLine.take 9, .inl (by decide), by decide, by decide, [ascii '2'],
      by decide, by decide⟩
    operandCount := rfl
    operatorCount := rfl
    positive := by decide
    small := by decide }

def kim : Member := ⟨kimName, literal "kim1", by decide, rfl, [typedProduct]⟩

instance (s : Group) : (action : GroupAction) → Decidable (Whole s action)
  | .readv _ count => inferInstanceAs (Decidable (count = NAME_SIZE + BUF_SIZE))
  | .accept _ _ _ _ | .append | .create | .start _ _ | .send_msg _ | .send_all _
  | .recv_msg _ _ => isTrue trivial

/-- Two users of one name connect. -/
def twoUsers : List GroupAction :=
  [.accept 4 kim SendLocals.zero (CArray.replicate 1029 0#8), .append, .create,
    .start 0 Locals.zero, .accept 5 kim SendLocals.zero (CArray.replicate 1029 0#8), .append,
    .create, .start 1 Locals.zero]

/-- The second user is answered first, and the messages are read in other pieces. -/
def bothTyped : List GroupAction :=
  [.send_msg 0, .send_msg 1, .readv 0 (NAME_SIZE + BUF_SIZE), .readv 1 (NAME_SIZE + BUF_SIZE),
    .send_all 1, .recv_msg 0 3, .send_all 0, .recv_msg 0 15, .recv_msg 1 7, .recv_msg 0 18]

def typedNumber : TypedLine where
  stored := literal "1 5\n"
  opCount := 1
  operands := [[ascii '5']]
  operators := []
  isLine := {
    short := by decide
    whole := ⟨literal "1 5", .inl (by decide), by decide, by decide, [ascii '1'],
      by decide, by decide⟩
    operandCount := rfl
    operatorCount := rfl
    positive := by decide
    small := by decide }

def lee : Member := ⟨kimName, literal "kim1", by decide, rfl, [typedProduct, typedNumber]⟩

/-- Both threads take the socket of the second user, and each reads one of its lines. -/
def bothRead : List GroupAction :=
  [.accept 4 kim SendLocals.zero (CArray.replicate 1029 0#8), .append, .create,
    .accept 5 lee SendLocals.zero (CArray.replicate 1029 0#8), .append, .create,
    .start 0 Locals.zero, .start 1 Locals.zero, .send_msg 1, .send_msg 1,
    .readv 0 (NAME_SIZE + BUF_SIZE), .readv 1 (NAME_SIZE + BUF_SIZE), .send_all 1, .send_all 0]

/-- The thread that has read the second line sends first. -/
theorem answers_overtaken : ∃ s user,
    Guarded (Group.step atoi) Whole Group.initial bothRead ∧
      run (Group.step atoi) Group.initial bothRead = some s ∧ s.users[1]? = some user ∧
      ¬ said 1 s.history <+: user.member.lines.map (user.member.message atoi) := by
  have shape : (run (Group.step atoi) Group.initial bothRead).any (fun s =>
      s.users[1]?.any fun user =>
        ¬ said 1 s.history <+: user.member.lines.map (user.member.message atoi)) = true := by
    decide +kernel
  obtain ⟨s, reached, shaped⟩ := (Option.any_eq_true _ _).mp shape
  obtain ⟨user, found, overtaken⟩ := (Option.any_eq_true _ _).mp shaped
  exact ⟨s, user, by decide +kernel, reached, found, of_decide_eq_true overtaken⟩

end NetworkProgramming.Hw8
