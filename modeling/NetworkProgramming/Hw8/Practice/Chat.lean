import NetworkProgramming.Foundation.Frames
import NetworkProgramming.Foundation.Stdio
import NetworkProgramming.Hw8.Sessions

/-!
# The chat of `chat_serv.c` and `chat_clnt.c`

`chat_serv.c` is `hw8_server.c` without the calculator: its main loop, its list of sockets
and its `send_msg` (there `send_all`) are the same, and a thread sends to all clients what
one `read` returned, at most 100 bytes.  A message of `chat_clnt.c` has up to 119 bytes, and
no mark where it ends but its newline.  Between its `read` and its section of `send_msg` a
thread holds a block, and two threads that have one socket can send theirs in the other
order.
-/

namespace NetworkProgramming.Hw8.Practice.Chat

open MachineInt Broadcast Transition

def BUF_SIZE : Nat := 100
def NAME_SIZE : Nat := 20

/-! ## The users -/

/-- `sprintf(name, "[%s]", argv[3])`. -/
def nameOf (argv3 : List Byte) : Option (CArray Byte NAME_SIZE) :=
  ((CArray.replicate NAME_SIZE 0#8).fill (literal "[DEFAULT]")).print?
    (ascii '[' :: argv3 ++ [ascii ']'])

/-- `!strcmp(msg, "q\n") || !strcmp(msg, "Q\n")`. -/
def Quits (text : List Byte) : Prop :=
  text = [ascii 'q', ascii '\n'] ∨ text = [ascii 'Q', ascii '\n']

instance (text : List Byte) : Decidable (Quits text) := inferInstanceAs (Decidable (_ ∨ _))

/-- Who starts `chat_clnt`, and what is typed; nobody quits. -/
structure Member where
  argv3 : List Byte
  plain : 0#8 ∉ argv3
  name : CArray Byte NAME_SIZE
  isName : nameOf argv3 = some name
  typed : List Byte
  stays : ∀ line ∈ Stdio.lines (BUF_SIZE - 1) typed, ¬ Quits (cString line)

/-- `sprintf(name_msg, "%s %s", name, msg)`. -/
def format (name : CArray Byte NAME_SIZE) (msg : CArray Byte BUF_SIZE)
    (name_msg : CArray Byte (NAME_SIZE + BUF_SIZE)) :
    Option (CArray Byte (NAME_SIZE + BUF_SIZE)) := do
  let name ← name.cString?
  let text ← msg.cString?
  name_msg.print? (name ++ ascii ' ' :: text)

/-- A process of `chat_clnt`, with both directions of its connection. -/
structure User where
  member : Member
  socket : Nat
  stdin : Stdio.File
  msg : CArray Byte BUF_SIZE
  /-- The `name_msg` of each thread. -/
  sent_name_msg : CArray Byte (NAME_SIZE + BUF_SIZE)
  received_name_msg : CArray Byte (NAME_SIZE + BUF_SIZE)
  up : List Byte
  down : List Byte
  stdout : List Byte
  /-- What `send_msg` wrote, one call after another. -/
  written : List (List Byte)
  /-- How much of it the server has read. -/
  read : Nat

/-- What the stacks of the two threads hold is not known. -/
def User.connected (socket : Nat) (member : Member)
    (sent_name_msg received_name_msg : CArray Byte (NAME_SIZE + BUF_SIZE)) : User :=
  ⟨member, socket, Stdio.fopen member.typed, CArray.replicate BUF_SIZE 0#8, sent_name_msg,
    received_name_msg, [], [], [], [], 0⟩

/-- What was written to the connection arrives. -/
def User.deliver (sent : List (Nat × List Byte)) (user : User) : User :=
  { user with
    down := user.down ++ ((sent.filter (·.1 = user.socket)).map Prod.snd).flatten }

/-- Where a block comes from: a user, and the place in what it wrote. -/
structure Origin where
  author : Nat
  start : Nat

/-- The server and its users. -/
structure Group where
  /-- The threads of `chat_serv` have no use for the locals of `hw8_server`. -/
  server : System
  /-- In the order of their connections. -/
  users : List User
  /-- Who was registered and which block was sent, in order. -/
  history : List (Event Nat (Origin × List Byte))
  /-- Where the block that a thread read last starts. -/
  start : Nat → Nat

def Group.initial : Group := ⟨System.initial, [], [], fun _ => 0⟩

/-- A step of the server or of one of the two threads of a user. -/
inductive GroupAction where
  | accept (socket : Nat) (member : Member)
      (sent_name_msg received_name_msg : CArray Byte (NAME_SIZE + BUF_SIZE))
  | append
  | create
  | start (thread : Nat)
  | send_msg (index : Nat)
  /-- `read` of `handle_clnt` returns `count` bytes. -/
  | read (thread count : Nat)
  /-- The section of the server's `send_msg` under the mutex. -/
  | send_all (thread : Nat)
  | recv_msg (index count : Nat)

/-- The user whose connection is `clnt_sock`. -/
def Group.userOf (s : Group) (clnt_sock : Nat) : Option (Nat × User) := do
  let index ← s.users.findIdx? (·.socket = clnt_sock)
  let user ← s.users[index]?
  return (index, user)

def Group.step (s : Group) : GroupAction → Option Group
  | .accept socket member sent_name_msg received_name_msg => do
      let server ← Hw8.step s.server (.accept socket)
      some { s with
        server := server
        users := s.users ++ [.connected socket member sent_name_msg received_name_msg] }
  | .append => do
      let server ← Hw8.step s.server .append
      some { s with server := server, history := s.history ++ [.join (s.users.length - 1)] }
  | .create => do
      let server ← Hw8.step s.server .create
      some { s with server := server }
  | .start thread => do
      let server ← Hw8.step s.server (.start thread Locals.zero)
      some { s with server := server }
  | .send_msg index => do
      let user ← s.users[index]?
      let got := Stdio.fgets user.msg user.stdin
      let text ← got.buf.cString?
      -- `fgets` waits for a line to end.
      if (Stdio.takeLine (BUF_SIZE - 1) user.stdin.rest).ended ∨ Quits text then none
      else
        let name_msg ← format user.member.name got.buf user.sent_name_msg
        let bytes ← name_msg.cString?
        some { s with users := s.users.set index { user with
          stdin := got.fp
          msg := got.buf
          sent_name_msg := name_msg
          up := user.up ++ bytes
          written := user.written ++ [bytes] } }
  | .read thread count =>
      match s.server.handlers[thread]? with
      | some (.serving clnt_sock locals) => do
          let (index, user) ← s.userOf clnt_sock
          if 0 < count ∧ count ≤ BUF_SIZE ∧ count ≤ user.up.length then
            some { s with
              server := { s.server with
                handlers := s.server.handlers.set thread
                  (.sending clnt_sock locals (user.up.take count)) }
              users := s.users.set index { user with
                up := user.up.drop count
                read := user.read + count }
              start := Function.update s.start thread user.read }
          else none
      | _ => none
  | .send_all thread =>
      match s.server.handlers[thread]? with
      | some (.sending clnt_sock _ block) => do
          let (index, _) ← s.userOf clnt_sock
          let server ← Hw8.step s.server (.send_all thread)
          some { s with
            server := server
            users := s.users.map (.deliver (server.sent.drop s.server.sent.length))
            history := s.history ++ [.send (⟨index, s.start thread⟩, block)] }
      | _ => none
  | .recv_msg index count => do
      let user ← s.users[index]?
      if 0 < count ∧ count ≤ NAME_SIZE + BUF_SIZE - 1 ∧ count ≤ user.down.length then do
        let name_msg ← (user.received_name_msg.fill (user.down.take count)).set? count 0#8
        let text ← name_msg.cString?
        some { s with users := s.users.set index { user with
          received_name_msg := name_msg
          down := user.down.drop count
          stdout := user.stdout ++ text } }
      else none

/-! ## What a member says -/

/-- What `send_msg` makes of a line. -/
def Member.message (member : Member) (line : List Byte) : List Byte :=
  ascii '[' :: member.argv3 ++ [ascii ']'] ++ ascii ' ' :: cString line

def Member.messages (member : Member) : List (List Byte) :=
  (Stdio.lines (BUF_SIZE - 1) member.typed).map member.message

theorem Member.name_text (member : Member) :
    member.name.cString? = some (ascii '[' :: member.argv3 ++ [ascii ']']) ∧
      member.argv3.length + 3 ≤ NAME_SIZE := by
  have opening : (0#8 : Byte) ≠ ascii '[' := by decide
  have closing : (0#8 : Byte) ≠ ascii ']' := by decide
  have printed := member.isName
  rw [nameOf] at printed
  constructor
  · have plain : 0#8 ∉ ascii '[' :: member.argv3 ++ [ascii ']'] := by
      simp [opening, closing, member.plain]
    rw [CArray.cString?_print printed, cString_of_notMem plain]
  · have size := CArray.length_of_print? printed
    simp only [List.cons_append, List.length_cons, List.length_append, List.length_nil] at size
    omega

theorem Member.zero_notMem_message (member : Member) (line : List Byte) :
    0#8 ∉ member.message line := by
  have opening : (0#8 : Byte) ≠ ascii '[' := by decide
  have closing : (0#8 : Byte) ≠ ascii ']' := by decide
  have blank : (0#8 : Byte) ≠ ascii ' ' := by decide
  simp [Member.message, opening, closing, blank, member.plain, zero_notMem_cString]

theorem Member.formats (member : Member) {line : List Byte} {msg : CArray Byte BUF_SIZE}
    (short : line.length ≤ BUF_SIZE - 1) (holds : msg.cString? = some (cString line))
    (name_msg : CArray Byte (NAME_SIZE + BUF_SIZE)) :
    ∃ formatted, format member.name msg name_msg = some formatted ∧
      formatted.cString? = some (member.message line) := by
  obtain ⟨isName, fits⟩ := member.name_text
  have size : (member.message line).length + 1 ≤ NAME_SIZE + BUF_SIZE := by
    have text := length_cString_le line
    have room : BUF_SIZE = 100 := rfl
    simp only [Member.message, List.cons_append, List.length_cons, List.length_append,
      List.length_nil]
    omega
  obtain ⟨formatted, printed⟩ := @CArray.print?_isSome _ name_msg _ size
  refine ⟨formatted, ?_, ?_⟩
  · simp only [format, isName, holds, Option.bind_eq_bind, Option.bind_some]
    exact printed
  · rw [CArray.cString?_print printed, cString_of_notMem (member.zero_notMem_message line)]

/-- The line that the next `fgets` takes. -/
def User.line (user : User) : Stdio.Line := Stdio.takeLine (BUF_SIZE - 1) user.stdin.rest

theorem User.sends (user : User) (more : user.line.ended = false) :
    ∃ text sent_name_msg,
      (Stdio.fgets user.msg user.stdin).buf.cString? = some (cString user.line.taken) ∧
        (Stdio.fgets user.msg user.stdin).fp.rest = user.line.rest ∧
        text = user.member.message user.line.taken ∧
        format user.member.name (Stdio.fgets user.msg user.stdin).buf user.sent_name_msg =
          some sent_name_msg ∧
        sent_name_msg.cString? = some text := by
  have typed := Stdio.takeLine_nonempty (show 0 < BUF_SIZE - 1 by decide) more
  obtain ⟨holds, rest⟩ := Stdio.fgets_line (show 0 < BUF_SIZE by decide) user.msg typed
  obtain ⟨sent_name_msg, formatted, isText⟩ := user.member.formats
    (Stdio.length_takeLine_le (BUF_SIZE - 1) user.stdin.rest) holds user.sent_name_msg
  exact ⟨_, sent_name_msg, holds, rest, rfl, formatted, isText⟩

/-! ## What a step does -/

/-- A step, by its action and what it finds. -/
inductive Moves (s : Group) : GroupAction → Group → Prop where
  | accept (socket : Nat) (member : Member)
      (sent_name_msg received_name_msg : CArray Byte (NAME_SIZE + BUF_SIZE))
      (point : s.server.point = .accept) (fresh : socket ∉ s.server.sockets) :
      Moves s (.accept socket member sent_name_msg received_name_msg) { s with
        server := { s.server with
          clnt_sock := socket
          sockets := insert socket s.server.sockets
          point := .append }
        users := s.users ++ [.connected socket member sent_name_msg received_name_msg] }
  | append {clnt_socks : CArray Nat MAX_CLNT} (point : s.server.point = .append)
      (stored : s.server.clnt_socks.set? s.server.clnt_cnt.toNat s.server.clnt_sock =
        some clnt_socks) :
      Moves s .append { s with
        server := { s.server with
          clnt_socks := clnt_socks
          clnt_cnt := s.server.clnt_cnt + 1
          point := .create }
        history := s.history ++ [.join (s.users.length - 1)] }
  | create (point : s.server.point = .create) :
      Moves s .create { s with
        server := { s.server with
          handlers := s.server.handlers ++ [.created]
          point := .accept } }
  | start (thread : Nat) (found : s.server.handlers[thread]? = some .created) :
      Moves s (.start thread) { s with
        server := { s.server with
          handlers := s.server.handlers.set thread
            (.serving s.server.clnt_sock Locals.zero) } }
  | send_msg (index : Nat) {user : User} {msg : CArray Byte BUF_SIZE}
      {sent_name_msg : CArray Byte (NAME_SIZE + BUF_SIZE)} {stdin : Stdio.File}
      (found : s.users[index]? = some user) (more : user.line.ended = false)
      (rest : stdin.rest = user.line.rest) :
      Moves s (.send_msg index) { s with users := s.users.set index { user with
        stdin := stdin
        msg := msg
        sent_name_msg := sent_name_msg
        up := user.up ++ user.member.message user.line.taken
        written := user.written ++ [user.member.message user.line.taken] } }
  | read (thread count : Nat) {clnt_sock index : Nat} {locals : Locals} {user : User}
      (found : s.server.handlers[thread]? = some (.serving clnt_sock locals))
      (isUser : s.userOf clnt_sock = some (index, user)) (positive : 0 < count)
      (small : count ≤ BUF_SIZE) (there : count ≤ user.up.length) :
      Moves s (.read thread count) { s with
        server := { s.server with
          handlers := s.server.handlers.set thread
            (.sending clnt_sock locals (user.up.take count)) }
        users := s.users.set index { user with
          up := user.up.drop count
          read := user.read + count }
        start := Function.update s.start thread user.read }
  | send_all (thread : Nat) {clnt_sock index : Nat} {locals : Locals} {user : User}
      {block : List Byte}
      (found : s.server.handlers[thread]? = some (.sending clnt_sock locals block))
      (isUser : s.userOf clnt_sock = some (index, user)) :
      Moves s (.send_all thread) { s with
        server := { s.server with
          handlers := s.server.handlers.set thread (.serving clnt_sock locals)
          sent := s.server.send_all block }
        users := s.users.map (.deliver ((s.server.send_all block).drop s.server.sent.length))
        history := s.history ++ [.send (⟨index, s.start thread⟩, block)] }
  | recv_msg (index count : Nat) {user : User}
      {name_msg : CArray Byte (NAME_SIZE + BUF_SIZE)} {text : List Byte}
      (found : s.users[index]? = some user) (positive : 0 < count)
      (there : count ≤ user.down.length)
      (stored : (user.received_name_msg.fill (user.down.take count)).set? count 0#8 =
        some name_msg)
      (holds : name_msg.cString? = some text) :
      Moves s (.recv_msg index count) { s with users := s.users.set index { user with
        received_name_msg := name_msg
        down := user.down.drop count
        stdout := user.stdout ++ text } }

theorem step_moves {s next : Group} {action : GroupAction}
    (taken : s.step action = some next) : Moves s action next := by
  cases action with
  | accept socket member sent_name_msg received_name_msg =>
      simp only [Group.step, Option.bind_eq_bind, Option.bind_eq_some_iff] at taken
      obtain ⟨server, moved, taken⟩ := taken
      cases taken
      cases System.moves_of_step moved with
      | accept _ point fresh =>
          exact .accept socket member sent_name_msg received_name_msg point fresh
  | append =>
      simp only [Group.step, Option.bind_eq_bind, Option.bind_eq_some_iff] at taken
      obtain ⟨server, moved, taken⟩ := taken
      cases taken
      cases System.moves_of_step moved with
      | append point positive stored => exact .append point stored
  | create =>
      simp only [Group.step, Option.bind_eq_bind, Option.bind_eq_some_iff] at taken
      obtain ⟨server, moved, taken⟩ := taken
      cases taken
      cases System.moves_of_step moved with
      | create point => exact .create point
  | start thread =>
      simp only [Group.step, Option.bind_eq_bind, Option.bind_eq_some_iff] at taken
      obtain ⟨server, moved, taken⟩ := taken
      cases taken
      cases System.moves_of_step moved with
      | start _ _ found => exact .start thread found
  | send_msg index =>
      simp only [Group.step, Option.bind_eq_bind, Option.bind_eq_some_iff] at taken
      obtain ⟨user, found, text, holds, taken⟩ := taken
      split at taken <;> rename_i guard
      · cases taken
      · obtain ⟨name_msg, formatted, taken⟩ := Option.bind_eq_some_iff.mp taken
        obtain ⟨bytes, isBytes, taken⟩ := Option.bind_eq_some_iff.mp taken
        have more : user.line.ended = false :=
          Bool.eq_false_iff.mpr fun ended => guard (.inl ended)
        obtain ⟨message, expected, _, rest, rfl, also, isMessage⟩ := user.sends more
        rw [also, Option.some.injEq] at formatted
        subst formatted
        rw [isMessage, Option.some.injEq] at isBytes
        subst isBytes
        cases taken
        exact .send_msg index found more rest
  | read thread count =>
      simp only [Group.step] at taken
      split at taken <;> rename_i found
      · simp only [Option.bind_eq_bind, Option.bind_eq_some_iff] at taken
        obtain ⟨⟨index, user⟩, isUser, taken⟩ := taken
        split at taken <;> rename_i guard
        · cases taken
          exact .read thread count found isUser guard.1 guard.2.1 guard.2.2
        · cases taken
      · cases taken
  | send_all thread =>
      simp only [Group.step] at taken
      split at taken <;> rename_i found
      · simp only [Option.bind_eq_bind, Option.bind_eq_some_iff] at taken
        obtain ⟨⟨index, user⟩, isUser, server, moved, taken⟩ := taken
        cases taken
        cases System.moves_of_step moved with
        | send_all _ also =>
            rw [found, Option.some.injEq, Handler.sending.injEq] at also
            obtain ⟨rfl, rfl, rfl⟩ := also
            exact .send_all thread found isUser
      · cases taken
  | recv_msg index count =>
      simp only [Group.step, Option.bind_eq_bind, Option.bind_eq_some_iff] at taken
      obtain ⟨user, found, taken⟩ := taken
      split at taken <;> rename_i guard
      · obtain ⟨name_msg, stored, taken⟩ := Option.bind_eq_some_iff.mp taken
        obtain ⟨text, holds, taken⟩ := Option.bind_eq_some_iff.mp taken
        cases taken
        exact .recv_msg index count found guard.1 guard.2.2 stored holds
      · cases taken

theorem Group.userOf_eq_some {s : Group} {clnt_sock index : Nat} {user : User}
    (isUser : s.userOf clnt_sock = some (index, user)) :
    s.users[index]? = some user ∧ user.socket = clnt_sock := by
  simp only [Group.userOf, Option.bind_eq_bind, Option.bind_eq_some_iff] at isUser
  obtain ⟨place, isPlace, other, found, final⟩ := isUser
  cases final
  obtain ⟨bound, isSocket, _⟩ := List.findIdx?_eq_some_iff_getElem.mp isPlace
  rw [List.getElem?_eq_getElem bound, Option.some.injEq] at found
  subst found
  exact ⟨List.getElem?_eq_getElem bound, by simpa using isSocket⟩

/-! ## What is said and what is shown -/

def Group.sockets (s : Group) : List Nat := s.users.map User.socket

def Group.Registered (s : Group) : Prop :=
  Hw8.Registered s.server s.sockets (members s.history)

theorem sockets_set {users : List User} {index : Nat} {user moved : User}
    (found : users[index]? = some user) (same : moved.socket = user.socket) :
    (users.set index moved).map User.socket = users.map User.socket :=
  Pool.map_set_of_same found same

theorem sockets_deliver (sent : List (Nat × List Byte)) (users : List User) :
    (users.map (User.deliver sent)).map User.socket = users.map User.socket := by
  rw [List.map_map]
  rfl

theorem registered_step {s next : Group} {action : GroupAction} (held : s.Registered)
    (taken : s.step action = some next) : next.Registered := by
  unfold Group.Registered Group.sockets at held ⊢
  cases step_moves taken with
  | accept socket member sent_name_msg received_name_msg point fresh =>
      simp only [List.map_append, List.map_singleton]
      exact held.accept point fresh
  | append point stored =>
      have appended := held.append point stored
      rw [List.length_map] at appended
      simpa only [members_snoc, Event.members] using appended
  | create point => exact held.create point
  | start thread found =>
      exact ⟨held.distinct, held.opened, held.newest, held.count, held.registry,
        held.inOrder, held.known⟩
  | send_msg index found more rest => simpa only [sockets_set found] using held
  | read thread count found isUser positive small there =>
      rw [sockets_set (Group.userOf_eq_some isUser).1 (by rfl)]
      exact ⟨held.distinct, held.opened, held.newest, held.count, held.registry,
        held.inOrder, held.known⟩
  | send_all thread found isUser =>
      simp only [sockets_deliver, members_snoc, Event.members]
      exact ⟨held.distinct, held.opened, held.newest, held.count, held.registry,
        held.inOrder, held.known⟩
  | recv_msg index count found positive there stored holds =>
      simpa only [sockets_set found] using held

/-- The blocks of a user that were sent, with their places. -/
def blocksOf (index : Nat) (history : List (Event Nat (Origin × List Byte))) :
    List (Nat × List Byte) :=
  ((sends history).filter (·.1.author = index)).map fun block => (block.1.start, block.2)

theorem blocksOf_join (index member : Nat) (history : List (Event Nat (Origin × List Byte))) :
    blocksOf index (history ++ [.join member]) = blocksOf index history := by
  rw [blocksOf, sends_join, blocksOf]

theorem blocksOf_send (index : Nat) (origin : Origin) (block : List Byte)
    (history : List (Event Nat (Origin × List Byte))) :
    blocksOf index (history ++ [.send (origin, block)]) =
      blocksOf index history ++
        if origin.author = index then [(origin.start, block)] else [] := by
  by_cases same : origin.author = index <;> simp [blocksOf, same]

theorem blocksOf_nil {index : Nat} {history : List (Event Nat (Origin × List Byte))}
    (authors : ∀ block ∈ sends history, block.1.author < index) :
    blocksOf index history = [] := by
  rw [blocksOf, List.map_eq_nil_iff, List.filter_eq_nil_iff]
  intro block sent
  have known := authors block sent
  simp only [decide_eq_true_eq]
  omega

/-- What a thread holds that was read from this socket, with its place. -/
def piece (start : Nat → Nat) (socket thread : Nat) (handler : Handler) :
    Option (Nat × List Byte) :=
  (handler.message socket).map fun block => (start thread, block)

/-- The blocks that were read from a socket and are not sent yet. -/
def Group.held (s : Group) (socket : Nat) : List (Nat × List Byte) :=
  Pool.held (piece s.start socket) s.server.handlers

theorem held_set_perm {s : Group} {thread : Nat} {old : Handler} {start : Nat → Nat}
    (found : s.server.handlers[thread]? = some old)
    (others : ∀ other, other ≠ thread → start other = s.start other) (new : Handler)
    (socket : Nat) :
    (s.held socket ++ (piece start socket thread new).toList).Perm
      (Pool.held (piece start socket) (s.server.handlers.set thread new) ++
        (piece s.start socket thread old).toList) :=
  Pool.held_set_perm found (fun other _ different => by rw [piece, piece, others other different])
    new

theorem held_set_of_none {s : Group} {thread socket : Nat} {old new : Handler}
    {start : Nat → Nat} (found : s.server.handlers[thread]? = some old)
    (others : ∀ other, other ≠ thread → start other = s.start other)
    (before : old.message socket = none) (after : new.message socket = none) :
    Pool.held (piece start socket) (s.server.handlers.set thread new) = s.held socket :=
  Pool.held_set_of_same found
    (fun other _ different => by rw [piece, piece, others other different])
    (by rw [piece, piece, before, after, Option.map_none, Option.map_none])

theorem held_create (s : Group) (socket : Nat) :
    Pool.held (piece s.start socket) (s.server.handlers ++ [.created]) = s.held socket := by
  rw [Pool.held_snoc]
  exact List.append_nil _

/-- No byte of what a user wrote is read twice or left out, and it wrote the front of what
was typed.  Of the blocks that were read some are sent, and some are held by threads. -/
structure Follows (history : List (Event Nat (Origin × List Byte)))
    (held : Nat → List (Nat × List Byte)) (index : Nat) (user : User) : Prop where
  shown : user.stdout ++ user.down = heardText index history
  read : ∃ blocks : List (List Byte), blocks.flatten ++ user.up = user.written.flatten ∧
    blocks.flatten.length = user.read ∧
    (blocksOf index history ++ held user.socket).Perm (Frames.placed 0 blocks)
  typed : user.written ++
      (Stdio.lines (BUF_SIZE - 1) user.stdin.rest).map user.member.message =
    user.member.messages

/-- What holds of a chat whatever sockets the threads have. -/
structure Told (s : Group) : Prop where
  registered : s.Registered
  growing : Growing s.history
  blocks : ∀ block ∈ sends s.history,
    block.1.author < s.users.length ∧ block.2.length ≤ BUF_SIZE
  holds : ∀ socket, ∀ block ∈ s.held socket,
    socket ∈ s.sockets ∧ block.2.length ≤ BUF_SIZE
  users : Pool.Each (Follows s.history s.held) s.users

section told

variable {s next : Group}

theorem Follows.plain {index : Nat} {user : User}
    (follows : Follows s.history s.held index user) : 0#8 ∉ user.written.flatten := by
  intro inside
  obtain ⟨text, isText, zero⟩ := List.mem_flatten.mp inside
  have isMessage : text ∈ user.member.messages := by
    rw [← follows.typed]
    exact List.mem_append_left _ isText
  obtain ⟨line, _, rfl⟩ := List.mem_map.mp isMessage
  exact user.member.zero_notMem_message line zero

theorem Follows.block_plain {index : Nat} {user : User}
    (follows : Follows s.history s.held index user) {block : Nat × List Byte}
    (sent : block ∈ blocksOf index s.history) : 0#8 ∉ block.2 := by
  obtain ⟨blocks, split, _, same⟩ := follows.read
  intro zero
  refine follows.plain ?_
  rw [← split]
  refine List.mem_append_left _ (List.mem_flatten.mpr ⟨block.2, ?_, zero⟩)
  rw [← Frames.map_snd_placed 0 blocks]
  exact List.mem_map_of_mem (same.mem_iff.mp (List.mem_append_left _ sent))

theorem Told.block_plain (held : Told s) {block : Origin × List Byte}
    (sent : block ∈ sends s.history) : 0#8 ∉ block.2 := by
  have follows := held.users block.1.author _
    (List.getElem?_eq_getElem (held.blocks block sent).1)
  exact @Follows.block_plain _ _ _ follows (block.1.start, block.2)
    (List.mem_map_of_mem (List.mem_filter.mpr ⟨sent, by simp⟩))

theorem Told.down_plain (held : Told s) {index : Nat} {user : User}
    (found : s.users[index]? = some user) : 0#8 ∉ user.down := by
  intro inside
  refine zero_notMem_heardText held.growing (fun _ sent => held.block_plain sent) index ?_
  rw [← (held.users index user found).shown]
  exact List.mem_append_right _ inside

theorem Told.unheld (held : Told s) {socket : Nat} (fresh : socket ∉ s.server.sockets) :
    s.held socket = [] :=
  List.eq_nil_iff_forall_not_mem.mpr fun block member =>
    fresh (held.registered.opened socket (held.holds socket block member).1)

theorem told_accept (held : Told s) {socket : Nat} {member : Member}
    {sent_name_msg received_name_msg : CArray Byte (NAME_SIZE + BUF_SIZE)}
    (fresh : socket ∉ s.server.sockets)
    (registered : Group.Registered { s with
      server := { s.server with
        clnt_sock := socket
        sockets := insert socket s.server.sockets
        point := .append }
      users := s.users ++ [.connected socket member sent_name_msg received_name_msg] }) :
    Told { s with
      server := { s.server with
        clnt_sock := socket
        sockets := insert socket s.server.sockets
        point := .append }
      users := s.users ++ [.connected socket member sent_name_msg received_name_msg] } where
  registered := registered
  growing := held.growing
  blocks := by
    intro block sent
    have known := held.blocks block sent
    simp only [List.length_append, List.length_singleton]
    omega
  holds := by
    intro other block member
    obtain ⟨known, small⟩ := held.holds other block member
    refine ⟨?_, small⟩
    rw [Group.sockets, List.map_append]
    exact List.mem_append_left _ known
  users := by
    have unheard := held.registered.unheard held.growing
    rw [Group.sockets, List.length_map] at unheard
    refine Pool.Each.snoc held.users ⟨unheard.symm, ⟨[], rfl, rfl, .of_eq ?_⟩, rfl⟩
    rw [blocksOf_nil fun block sent => (held.blocks block sent).1]
    exact held.unheld fresh

theorem told_read (held : Told s) {thread count clnt_sock index : Nat} {locals : Locals}
    {user : User} (found : s.server.handlers[thread]? = some (.serving clnt_sock locals))
    (isUser : s.users[index]? = some user) (own : user.socket = clnt_sock)
    (small : count ≤ BUF_SIZE) (there : count ≤ user.up.length)
    (registered : Group.Registered { s with
      server := { s.server with
        handlers := s.server.handlers.set thread
          (.sending clnt_sock locals (user.up.take count)) }
      users := s.users.set index { user with
        up := user.up.drop count
        read := user.read + count }
      start := Function.update s.start thread user.read }) :
    Told { s with
      server := { s.server with
        handlers := s.server.handlers.set thread
          (.sending clnt_sock locals (user.up.take count)) }
      users := s.users.set index { user with
        up := user.up.drop count
        read := user.read + count }
      start := Function.update s.start thread user.read } := by
  have inside := (List.getElem?_eq_some_iff.mp isUser).1
  have others (other : Nat) (different : other ≠ thread) :
      Function.update s.start thread user.read other = s.start other :=
    Function.update_of_ne different _ _
  have moved := held_set_perm found others (.sending clnt_sock locals (user.up.take count))
  simp only [piece, Handler.message, Function.update_self, Option.map_none, Option.toList_none,
    List.append_nil] at moved
  refine ⟨registered, held.growing, ?_, ?_, ?_⟩
  · simpa only [List.length_set] using held.blocks
  · intro socket block member
    rw [Group.sockets, sockets_set isUser (by rfl)]
    rw [Group.held, ← (moved socket).mem_iff, List.mem_append] at member
    rcases member with earlier | new
    · exact held.holds socket block earlier
    · by_cases mine : clnt_sock = socket
      · rw [if_pos mine, Option.map_some, Option.toList_some, List.mem_singleton] at new
        subst new
        refine ⟨?_, (List.length_take_le _ _).trans small⟩
        rw [← mine, ← own]
        exact List.mem_map_of_mem (List.mem_of_getElem? isUser)
      · rw [if_neg mine] at new
        cases new
  · intro other item isItem
    by_cases mine : index = other
    · subst mine
      rw [List.getElem?_set_self inside, Option.some.injEq] at isItem
      subst isItem
      have follows := held.users index user isUser
      obtain ⟨blocks, split, position, same⟩ := follows.read
      refine ⟨follows.shown, ⟨blocks ++ [user.up.take count], ?_, ?_, ?_⟩, follows.typed⟩
      · rw [List.flatten_append, List.flatten_singleton, List.append_assoc,
          List.take_append_drop, split]
      · rw [List.flatten_append, List.flatten_singleton, List.length_append, position,
          List.length_take_of_le there]
      · have now := moved user.socket
        rw [if_pos own.symm] at now
        rw [Frames.placed_concat, Nat.zero_add, position]
        refine (List.Perm.append_left _ now.symm).trans ?_
        rw [← List.append_assoc]
        exact same.append_right _
    · rw [List.getElem?_set_ne mine] at isItem
      have follows := held.users other item isItem
      obtain ⟨blocks, split, position, same⟩ := follows.read
      have elsewhere : clnt_sock ≠ item.socket := by
        rw [← own]
        exact (Pool.view_ne held.registered.distinct isUser isItem mine).symm
      have now := moved item.socket
      rw [if_neg elsewhere, Option.map_none, Option.toList_none, List.append_nil] at now
      exact ⟨follows.shown, ⟨blocks, split, position,
        (List.Perm.append_left _ now.symm).trans same⟩, follows.typed⟩

theorem told_send_all (held : Told s) {thread clnt_sock index : Nat} {locals : Locals}
    {user : User} {block : List Byte}
    (found : s.server.handlers[thread]? = some (.sending clnt_sock locals block))
    (isUser : s.users[index]? = some user) (own : user.socket = clnt_sock)
    (registered : Group.Registered { s with
      server := { s.server with
        handlers := s.server.handlers.set thread (.serving clnt_sock locals)
        sent := s.server.send_all block }
      users := s.users.map (.deliver ((s.server.send_all block).drop s.server.sent.length))
      history := s.history ++ [.send (⟨index, s.start thread⟩, block)] }) :
    Told { s with
      server := { s.server with
        handlers := s.server.handlers.set thread (.serving clnt_sock locals)
        sent := s.server.send_all block }
      users := s.users.map (.deliver ((s.server.send_all block).drop s.server.sent.length))
      history := s.history ++ [.send (⟨index, s.start thread⟩, block)] } := by
  have inside := (List.getElem?_eq_some_iff.mp isUser).1
  have moved := held_set_perm found (fun _ _ => rfl) (.serving clnt_sock locals)
  simp only [piece, Handler.message, Option.map_none, Option.toList_none, List.append_nil]
    at moved
  have isHeld : (s.start thread, block) ∈ s.held clnt_sock := by
    rw [(moved clnt_sock).mem_iff, if_pos rfl]
    exact List.mem_append_right _ List.mem_cons_self
  refine ⟨registered, held.growing.send _, ?_, ?_, ?_⟩
  · intro other sent
    rw [sends_send, List.mem_append, List.mem_singleton] at sent
    rw [List.length_map]
    rcases sent with earlier | rfl
    · exact held.blocks other earlier
    · exact ⟨inside, (held.holds clnt_sock _ isHeld).2⟩
  · intro socket other member
    have earlier : other ∈ s.held socket := by
      rw [(moved socket).mem_iff]
      exact List.mem_append_left _ member
    rw [Group.sockets, sockets_deliver]
    exact held.holds socket other earlier
  · intro other item isItem
    rw [List.getElem?_map, Option.map_eq_some_iff] at isItem
    obtain ⟨before, isBefore, rfl⟩ := isItem
    have follows := held.users other before isBefore
    obtain ⟨blocks, split, position, same⟩ := follows.read
    have socket : s.sockets[other]? = some before.socket := by
      rw [Group.sockets, List.getElem?_map, isBefore, Option.map_some]
    refine ⟨?_, ⟨blocks, split, position, ?_⟩, follows.typed⟩
    · rw [held.registered.delivered socket, ← follows.shown, List.append_assoc]
      rfl
    · -- The block goes from those that are held to those that are sent.
      have now := moved before.socket
      refine List.Perm.trans ?_ same
      rw [blocksOf_send]
      by_cases mine : index = other
      · subst mine
        cases isUser.symm.trans isBefore
        rw [if_pos own.symm] at now
        rw [if_pos rfl, List.append_assoc]
        exact List.Perm.append_left _ (List.perm_append_comm.trans now.symm)
      · have elsewhere : clnt_sock ≠ before.socket := by
          rw [← own]
          exact (Pool.view_ne held.registered.distinct isUser isBefore mine).symm
        rw [if_neg elsewhere, Option.map_none, Option.toList_none, List.append_nil] at now
        rw [if_neg mine, List.append_nil]
        exact List.Perm.append_left _ now.symm

theorem told_step {action : GroupAction} (held : Told s) (taken : s.step action = some next) :
    Told next := by
  have registered := registered_step held.registered taken
  cases step_moves taken with
  | accept socket member sent_name_msg received_name_msg point fresh =>
      exact told_accept held fresh registered
  | append point stored =>
      refine ⟨registered, held.growing.join _, ?_, held.holds, ?_⟩
      · simpa only [sends_join] using held.blocks
      · refine Pool.Each.mono held.users fun index user follows =>
          ⟨?_, ?_, follows.typed⟩
        · simpa only [heardText, heard_join] using follows.shown
        · rw [blocksOf_join]
          exact follows.read
  | create point =>
      have same := held_create s
      refine ⟨registered, held.growing, held.blocks, ?_, ?_⟩
      · intro socket block member
        rw [Group.held, same] at member
        exact held.holds socket block member
      · refine Pool.Each.mono held.users fun index user follows =>
          ⟨follows.shown, ?_, follows.typed⟩
        rw [Group.held, same]
        exact follows.read
  | start thread found =>
      have same (socket : Nat) := @held_set_of_none s thread socket .created
        (.serving s.server.clnt_sock Locals.zero) s.start found (fun _ _ => rfl) rfl rfl
      refine ⟨registered, held.growing, held.blocks, ?_, ?_⟩
      · intro socket block member
        rw [Group.held, same] at member
        exact held.holds socket block member
      · refine Pool.Each.mono held.users fun index user follows =>
          ⟨follows.shown, ?_, follows.typed⟩
        rw [Group.held, same]
        exact follows.read
  | @send_msg index user msg sent_name_msg stdin found more rest =>
      have follows := held.users index user found
      obtain ⟨blocks, split, position, same⟩ := follows.read
      refine ⟨registered, held.growing, ?_, ?_, Pool.Each.set held.users
        ⟨follows.shown, ⟨blocks, ?_, position, same⟩, ?_⟩⟩
      · simpa only [List.length_set] using held.blocks
      · rw [Group.sockets, sockets_set found (by rfl)]
        exact held.holds
      · simp only [List.flatten_append, List.flatten_singleton, ← split, List.append_assoc]
      · have next := Stdio.lines_line (show 0 < BUF_SIZE - 1 by decide) more
        rw [← follows.typed, next, rest]
        simp [User.line]
  | read thread count found isUser positive small there =>
      obtain ⟨inside, own⟩ := Group.userOf_eq_some isUser
      exact told_read held found inside own small there registered
  | send_all thread found isUser =>
      obtain ⟨inside, own⟩ := Group.userOf_eq_some isUser
      exact told_send_all held found inside own registered
  | @recv_msg index count user name_msg text found positive there stored holds =>
      have follows := held.users index user found
      refine ⟨registered, held.growing, ?_, ?_, Pool.Each.set held.users
        ⟨?_, follows.read, follows.typed⟩⟩
      · simpa only [List.length_set] using held.blocks
      · rw [Group.sockets, sockets_set found (by rfl)]
        exact held.holds
      · have isText : text = user.down.take count := by
          have printed := CArray.cString?_received (held.down_plain found) there stored
          rw [holds] at printed
          exact Option.some.inj printed
        have shown := follows.shown
        rw [← shown, isText, List.append_assoc, List.take_append_drop]

end told

theorem told_initial : Told Group.initial where
  registered := {
    distinct := List.nodup_nil
    opened := by simp [Group.initial, Group.sockets]
    newest := by simp [Group.initial, Group.sockets]
    count := rfl
    registry := rfl
    inOrder := rfl
    known := rfl }
  growing := by simp [Growing, Group.initial]
  blocks := by simp [Group.initial]
  holds := by simp [Group.initial, Group.held, System.initial]
  users := Pool.Each.nil

/-! ## A thread for each user -/

/-- `accept` returns only when every created thread has copied its argument. -/
def Started (s : Group) : GroupAction → Prop
  | .accept _ _ _ _ => s.server.handlers.countP Handler.isCreated = 0
  | _ => True

instance (s : Group) : (action : GroupAction) → Decidable (Started s action)
  | .accept _ _ _ _ => inferInstanceAs (Decidable (_ = 0))
  | .append | .create | .start _ | .send_msg _ | .read _ _ | .send_all _ | .recv_msg _ _ =>
      isTrue trivial

/-- The blocks that were sent, the one that the thread holds, and what is on its way are what
the user wrote, in order. -/
def InOrder (history : List (Event Nat (Origin × List Byte))) (server : System)
    (index : Nat) (user : User) : Prop :=
  ((blocksOf index history).map Prod.snd ++ server.held user.socket).flatten ++ user.up =
    user.written.flatten

/-- What holds of a chat whose threads have their own sockets. -/
structure Served (s : Group) : Prop where
  told : Told s
  threads : Threads s.server s.sockets
  ordered : Pool.Each (InOrder s.history s.server) s.users

section served

variable {s next : Group}

theorem Group.map_held (s : Group) (socket : Nat) :
    (s.held socket).map Prod.snd = s.server.held socket := by
  rw [Group.held, Pool.map_held, System.held]
  congr 1
  funext thread handler
  rw [piece, Option.map_map]
  exact Option.map_id'

theorem threads_step {action : GroupAction} (registered : s.Registered)
    (held : Threads s.server s.sockets) (started : Started s action)
    (taken : s.step action = some next) : Threads next.server next.sockets := by
  unfold Group.Registered Group.sockets at *
  cases step_moves taken with
  | accept socket member sent_name_msg received_name_msg point fresh =>
      simp only [List.map_append, List.map_singleton]
      exact held.accept point started socket
  | append point stored => exact held.append point
  | create point => exact held.create point
  | start thread found => exact held.start registered found Locals.zero
  | send_msg index found more rest => simpa only [sockets_set found] using held
  | read thread count found isUser positive small there =>
      rw [sockets_set (Group.userOf_eq_some isUser).1 (by rfl)]
      exact held.goes_on found (.inl ⟨_, rfl⟩) (.inr ⟨_, _, rfl⟩)
  | send_all thread found isUser =>
      rw [sockets_deliver]
      exact held.goes_on found (.inr ⟨_, _, rfl⟩) (.inl ⟨_, rfl⟩)
  | recv_msg index count found positive there stored holds =>
      simpa only [sockets_set found] using held

theorem ordered_read (held : Served s) {thread count index : Nat} {locals : Locals}
    {user : User} (found : s.server.handlers[thread]? = some (.serving user.socket locals))
    (isUser : s.users[index]? = some user) :
    Pool.Each (InOrder s.history { s.server with
      handlers := s.server.handlers.set thread
        (.sending user.socket locals (user.up.take count)) })
      (s.users.set index { user with
        up := user.up.drop count
        read := user.read + count }) := by
  have inside := (List.getElem?_eq_some_iff.mp isUser).1
  have registered := held.told.registered
  intro other item isItem
  by_cases mine : index = other
  · subst mine
    rw [List.getElem?_set_self inside, Option.some.injEq] at isItem
    subst isItem
    obtain ⟨before, now⟩ := held.threads.held_read registered found locals (user.up.take count)
    have soFar := held.ordered index user isUser
    rw [InOrder, before, List.append_nil] at soFar
    rw [InOrder, now, List.flatten_append, List.flatten_singleton, List.append_assoc,
      List.take_append_drop, soFar]
  · rw [List.getElem?_set_ne mine] at isItem
    have elsewhere := (Pool.view_ne registered.distinct isUser isItem mine).symm
    have same := @Hw8.held_set_of_none s.server thread item.socket _
      (.sending user.socket locals (user.up.take count)) s.server.sent found rfl
      (if_neg elsewhere)
    rw [InOrder, same]
    exact held.ordered other item isItem

theorem ordered_send_all (held : Served s) {thread index start : Nat} {locals : Locals}
    {user : User} {block : List Byte} {sent : List (Nat × List Byte)}
    (found : s.server.handlers[thread]? = some (.sending user.socket locals block))
    (isUser : s.users[index]? = some user) :
    Pool.Each (InOrder (s.history ++ [.send (⟨index, start⟩, block)]) { s.server with
      handlers := s.server.handlers.set thread (.serving user.socket locals)
      sent := sent })
      (s.users.map (.deliver (sent.drop s.server.sent.length))) := by
  have registered := held.told.registered
  intro other item isItem
  rw [List.getElem?_map, Option.map_eq_some_iff] at isItem
  obtain ⟨before, isBefore, rfl⟩ := isItem
  have soFar := held.ordered other before isBefore
  rw [InOrder] at soFar ⊢
  rw [blocksOf_send]
  by_cases mine : index = other
  · subst mine
    cases isUser.symm.trans isBefore
    obtain ⟨holds, nothing⟩ := held.threads.held_sent registered found sent
    rw [holds] at soFar
    rw [if_pos rfl, List.map_append]
    simpa only [User.deliver, nothing, List.append_nil, List.map_singleton] using soFar
  · have elsewhere := (Pool.view_ne registered.distinct isUser isBefore mine).symm
    have same := @Hw8.held_set_of_none s.server thread before.socket _
      (.serving user.socket locals) sent found (if_neg elsewhere) rfl
    rw [if_neg mine, List.append_nil]
    simpa only [User.deliver, same] using soFar

theorem served_step {action : GroupAction} (held : Served s) (started : Started s action)
    (taken : s.step action = some next) : Served next := by
  have told := told_step held.told taken
  have threads := threads_step held.told.registered held.threads started taken
  cases step_moves taken with
  | accept socket member sent_name_msg received_name_msg point fresh =>
      refine ⟨told, threads, Pool.Each.snoc held.ordered ?_⟩
      have nothing : s.server.held socket = [] := by
        rw [← s.map_held, held.told.unheld fresh, List.map_nil]
      have unsaid := @blocksOf_nil s.users.length s.history fun block sent =>
        (held.told.blocks block sent).1
      rw [InOrder, unsaid]
      change ([] ++ s.server.held socket).flatten ++ [] = []
      rw [nothing]
      rfl
  | append point stored =>
      refine ⟨told, threads, Pool.Each.mono held.ordered fun index user soFar => ?_⟩
      rw [InOrder, blocksOf_join]
      exact soFar
  | create point =>
      refine ⟨told, threads, Pool.Each.mono held.ordered fun index user soFar => ?_⟩
      rw [InOrder, Hw8.held_create]
      exact soFar
  | start thread found =>
      refine ⟨told, threads, Pool.Each.mono held.ordered fun index user soFar => ?_⟩
      have same := @Hw8.held_set_of_none s.server thread user.socket .created
        (.serving s.server.clnt_sock Locals.zero) s.server.sent found rfl rfl
      rw [InOrder, same]
      exact soFar
  | @send_msg index user msg sent_name_msg stdin found more rest =>
      have soFar := held.ordered index user found
      rw [InOrder] at soFar
      refine ⟨told, threads, Pool.Each.set held.ordered ?_⟩
      simp only [InOrder, List.flatten_append, List.flatten_singleton, ← soFar,
        List.append_assoc]
  | read thread count found isUser positive small there =>
      obtain ⟨inside, rfl⟩ := Group.userOf_eq_some isUser
      exact ⟨told, threads, ordered_read held found inside⟩
  | send_all thread found isUser =>
      obtain ⟨inside, rfl⟩ := Group.userOf_eq_some isUser
      exact ⟨told, threads, ordered_send_all held found inside⟩
  | recv_msg index count found positive there stored holds =>
      have soFar := held.ordered index _ found
      exact ⟨told, threads, Pool.Each.set held.ordered soFar⟩

end served

theorem served_initial : Served Group.initial := ⟨told_initial, threads_initial, Pool.Each.nil⟩

def kim : Member where
  argv3 := literal "kim"
  plain := by decide
  name := (nameOf (literal "kim")).getD (CArray.replicate NAME_SIZE 0#8)
  isName := by decide +kernel
  typed := literal "hello\n"
  stays := by decide +kernel

def lee : Member where
  argv3 := literal "lee"
  plain := by decide
  name := (nameOf (literal "lee")).getD (CArray.replicate NAME_SIZE 0#8)
  isName := by decide +kernel
  typed := literal "yes\n"
  stays := by decide +kernel

/-- The first read gets a part of the message. -/
def cut : List GroupAction :=
  let blank := CArray.replicate (NAME_SIZE + BUF_SIZE) 0#8
  [.accept 3 kim blank blank, .append, .create, .start 0, .accept 4 lee blank blank, .append,
    .create, .start 1, .send_msg 0, .send_msg 1, .read 0 6, .read 1 10, .send_all 0,
    .send_all 1, .read 0 6, .send_all 0, .recv_msg 1 22]

/-- What is on its way to the thread. -/
def Group.waiting (s : Group) (thread : Nat) : List Byte :=
  match s.server.handlers[thread]? with
  | some (.serving clnt_sock _) => ((s.userOf clnt_sock).map (·.2.up)).getD []
  | _ => []

/-- The threads of the server read all that is there, as far as it fits in `msg`. -/
def Uncut (s : Group) : GroupAction → Prop
  | .read thread count => count = min BUF_SIZE (s.waiting thread).length
  | _ => True

section framed

variable {s next : Group}

end framed

/-! ## A run that tears a message -/

/-- An uncut run leads from one state to the other. -/
def Leads (s next : Group) : Prop :=
  ∃ actions, Guarded Group.step Uncut s actions ∧ run Group.step s actions = some next

theorem Leads.step {s next : Group} {action : GroupAction} (uncut : Uncut s action)
    (taken : s.step action = some next) : Leads s next :=
  ⟨[action], ⟨uncut, fun _ _ => trivial⟩, by rw [run_cons, taken]; rfl⟩

theorem Leads.trans {s middle next : Group} (first : Leads s middle) (second : Leads middle next) :
    Leads s next := by
  obtain ⟨actions, guarded, reached⟩ := first
  obtain ⟨later, alsoGuarded, alsoReached⟩ := second
  exact ⟨actions ++ later, guarded.append reached alsoGuarded,
    run_append_of_eq_some reached alsoReached⟩

/-- What a user is still to type, what is on its way to the server, and how much was read. -/
structure Side where
  member : Member
  text : List Byte
  up : List Byte
  read : Nat

def User.side (user : User) : Side := ⟨user.member, user.stdin.rest, user.up, user.read⟩

/-- Every user has its thread, in front of `read`. -/
structure Talking (s : Group) (sides : List Side) (sent : List (Origin × List Byte)) :
    Prop where
  distinct : s.sockets.Nodup
  threads : Pool.Each (fun index user =>
    ∃ locals, s.server.handlers[index]? = some (.serving user.socket locals)) s.users
  sides : s.users.map User.side = sides
  sent : sends s.history = sent

/-- The same, but that the thread of one user holds a block that starts here. -/
structure Holding (s : Group) (sides : List Side) (sent : List (Origin × List Byte))
    (index start : Nat) (block : List Byte) : Prop where
  distinct : s.sockets.Nodup
  others : Pool.Each (fun other user => index ≠ other →
    ∃ locals, s.server.handlers[other]? = some (.serving user.socket locals)) s.users
  sending : ∃ user locals, s.users[index]? = some user ∧
    s.server.handlers[index]? = some (.sending user.socket locals block)
  start : s.start index = start
  sides : s.users.map User.side = sides
  sent : sends s.history = sent

section talking

variable {s : Group} {sides : List Side} {sent : List (Origin × List Byte)} {index : Nat}
  {side : Side}

theorem Talking.user (talking : Talking s sides sent) (found : sides[index]? = some side) :
    ∃ user, s.users[index]? = some user ∧ user.side = side := by
  rw [← talking.sides, List.getElem?_map, Option.map_eq_some_iff] at found
  exact found

theorem userOf_of_nodup {s : Group} (distinct : s.sockets.Nodup) {index : Nat} {user : User}
    (found : s.users[index]? = some user) : s.userOf user.socket = some (index, user) := by
  have first := Pool.findIdx?_view distinct found
  simp [Group.userOf, first, found]

theorem Talking.send (talking : Talking s sides sent) (found : sides[index]? = some side)
    {line : List Byte} {lines : List (List Byte)}
    (typed : Stdio.lines (BUF_SIZE - 1) side.text = line :: lines)
    (stays : ¬ Quits (cString line)) :
    ∃ next text, Leads s next ∧ Stdio.lines (BUF_SIZE - 1) text = lines ∧
      Talking next (sides.set index
        ⟨side.member, text, side.up ++ side.member.message line, side.read⟩) sent := by
  obtain ⟨user, isUser, rfl⟩ := talking.user found
  rw [User.side] at typed
  have more : user.line.ended = false := by
    by_contra ended
    rw [Stdio.lines_ended (Bool.eq_true_of_not_eq_false ended)] at typed
    cases typed
  have positive : 0 < BUF_SIZE - 1 := by decide
  rw [Stdio.lines_line positive more, List.cons.injEq] at typed
  obtain ⟨rfl, rest⟩ := typed
  obtain ⟨next, taken⟩ : ∃ next, s.step (.send_msg index) = some next := by
    obtain ⟨text, name_msg, holds, _, _, formatted, isText⟩ := user.sends more
    have goesOn : ¬ ((Stdio.takeLine (BUF_SIZE - 1) user.stdin.rest).ended ∨
        Quits (cString user.line.taken)) := by
      rintro (ended | quits)
      · exact Bool.eq_false_iff.mp more ended
      · exact stays quits
    simp only [Group.step, isUser, holds, formatted, isText, Option.bind_eq_bind,
      Option.bind_some, if_neg goesOn]
    exact ⟨_, rfl⟩
  have uncut : Uncut s (.send_msg index) := trivial
  refine ⟨next, user.line.rest, .step uncut taken, rest, ?_⟩
  cases step_moves taken with
  | send_msg _ also more isRest =>
      rw [isUser, Option.some.injEq] at also
      subst also
      constructor
      · simpa only [Group.sockets, sockets_set isUser] using talking.distinct
      · exact talking.threads.set (talking.threads index user isUser)
      · rw [← talking.sides, List.map_set, User.side, isRest]
        rfl
      · exact talking.sent

/-- The thread of a user reads what is there. -/
theorem Talking.reads (talking : Talking s sides sent) (found : sides[index]? = some side)
    (there : side.up ≠ []) :
    ∃ next, Leads s next ∧
      Holding next
        (sides.set index ⟨side.member, side.text, side.up.drop BUF_SIZE,
          side.read + min BUF_SIZE side.up.length⟩)
        sent index side.read (side.up.take BUF_SIZE) := by
  obtain ⟨user, isUser, rfl⟩ := talking.user found
  obtain ⟨locals, thread⟩ := talking.threads index user isUser
  have owner := userOf_of_nodup talking.distinct isUser
  have uncut : Uncut s (.read index (min BUF_SIZE user.up.length)) := by
    simp [Uncut, Group.waiting, thread, owner]
  have guard : 0 < min BUF_SIZE user.up.length ∧ min BUF_SIZE user.up.length ≤ BUF_SIZE ∧
      min BUF_SIZE user.up.length ≤ user.up.length := by
    have size : BUF_SIZE = 100 := rfl
    have positive := List.length_pos_of_ne_nil there
    simp only [User.side] at positive
    omega
  obtain ⟨next, taken⟩ : ∃ next,
      s.step (.read index (min BUF_SIZE user.up.length)) = some next := by
    simp only [Group.step, thread, owner, Option.bind_eq_bind, Option.bind_some, if_pos guard]
    exact ⟨_, rfl⟩
  refine ⟨next, .step uncut taken, ?_⟩
  cases step_moves taken with
  | read _ _ alsoThread alsoOwner positive small enough =>
      rw [thread, Option.some.injEq, Handler.serving.injEq] at alsoThread
      obtain ⟨rfl, rfl⟩ := alsoThread
      rw [owner, Option.some.injEq, Prod.mk.injEq] at alsoOwner
      obtain ⟨rfl, rfl⟩ := alsoOwner
      constructor
      · simpa only [Group.sockets, sockets_set isUser] using talking.distinct
      · intro other item isItem different
        rw [List.getElem?_set_ne different] at isItem ⊢
        exact talking.threads other item isItem
      · refine ⟨_, locals, List.getElem?_set_self (List.getElem?_eq_some_iff.mp isUser).1, ?_⟩
        rw [List.getElem?_set_self (List.getElem?_eq_some_iff.mp thread).1, User.side,
          ← List.take_eq_take_min]
      · exact Function.update_self index user.read s.start
      · rw [List.map_set, talking.sides, User.side, ← List.drop_eq_drop_min]
        rfl
      · exact talking.sent

theorem Holding.send_all {start : Nat} {block : List Byte}
    (holding : Holding s sides sent index start block) :
    ∃ next, Leads s next ∧ Talking next sides (sent ++ [(⟨index, start⟩, block)]) := by
  obtain ⟨user, locals, isUser, sending⟩ := holding.sending
  have owner := userOf_of_nodup holding.distinct isUser
  obtain ⟨next, taken⟩ : ∃ next, s.step (.send_all index) = some next := by
    simp [Group.step, Hw8.step, sending, owner]
  have uncut : Uncut s (.send_all index) := trivial
  refine ⟨next, .step uncut taken, ?_⟩
  cases step_moves taken with
  | send_all _ alsoSending alsoOwner =>
      rw [sending, Option.some.injEq, Handler.sending.injEq] at alsoSending
      obtain ⟨rfl, rfl, rfl⟩ := alsoSending
      rw [owner, Option.some.injEq, Prod.mk.injEq] at alsoOwner
      obtain ⟨rfl, rfl⟩ := alsoOwner
      have stays (sent : List (Nat × List Byte)) :
          User.socket ∘ User.deliver sent = User.socket := rfl
      have sameSide (sent : List (Nat × List Byte)) :
          User.side ∘ User.deliver sent = User.side := rfl
      constructor
      · simpa only [Group.sockets, List.map_map, stays] using holding.distinct
      · intro other item isItem
        rw [List.getElem?_map, Option.map_eq_some_iff] at isItem
        obtain ⟨before, isBefore, rfl⟩ := isItem
        by_cases mine : index = other
        · subst mine
          cases isUser.symm.trans isBefore
          exact ⟨locals, List.getElem?_set_self (List.getElem?_eq_some_iff.mp sending).1⟩
        · rw [List.getElem?_set_ne mine]
          exact holding.others other before isBefore mine
      · rw [List.map_map, sameSide, holding.sides]
      · rw [sends_send, holding.start, holding.sent]

end talking

end NetworkProgramming.Hw8.Practice.Chat
