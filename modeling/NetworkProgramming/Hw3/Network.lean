import NetworkProgramming.Foundation.Pool
import NetworkProgramming.Foundation.RequestReply
import NetworkProgramming.Hw3.Datagrams
import NetworkProgramming.Screens

/-!
# The users of `hw3_client`

`hw3_client` sends one datagram and waits for one.  The network between the
clients and the server loses, delays, repeats and reorders datagrams; the memory
of the server keeps what earlier ones left.
-/

namespace NetworkProgramming.Hw3

open MachineInt Transition Client RequestReply

/-- What the server prints in one iteration, with its memory behind it. -/
def report (server : Server) : Outcome → List Byte
  | .closed opCount => literal "Server close(" ++ decimal opCount ++ literal ")\n"
  | .replied _ opResult =>
      let opCount := (server.buf.cells.headD 0#8).toInt
      countPrompt ++ decimal opCount ++ [ascii '\n'] ++
        (List.range opCount.toNat).flatMap (fun (i : Nat) => literal "Operand " ++ decimal i ++
          literal ": " ++ decimal (server.operand.cells.getD i 0).toInt ++ [ascii '\n']) ++
        operationResult opResult

/-- The server with what it has printed. -/
structure Process where
  memory : Server
  stdout : List Byte

/-- One iteration of `main`: what is sent back, or nothing and the server ends. -/
def Process.iteration (process : Process) (datagram : List Byte) :
    Option (Process × Option (List Byte)) := do
  let (memory, outcome) ← serve process.memory datagram
  return (⟨memory, process.stdout ++ report memory outcome⟩,
    outcome.reply?.map Word.toBytes)

/-- How far a client has come. -/
inductive Phase where
  | typing
  | waiting
  | ended
deriving DecidableEq

/-- A process of `hw3_client`; its locals are not initialised. -/
structure User where
  input : Input
  buf : CArray Byte Client.MAX
  opResult : Word
  phase : Phase
  stdout : List Byte

/-- The server with its network, and the users. -/
structure System where
  net : State Process (List Byte) (List Byte)
  users : List User

/-- A datagram is sent, or one that was sent arrives. -/
inductive Action where
  /-- The user types everything, and the datagram is sent. -/
  | type (user : Nat)
  | serve (user : Nat) (datagram : List Byte)
  | receive (user : Nat) (reply : List Byte)

def User.start (input : Input) (buf : CArray Byte Client.MAX) (opResult : Word) : User :=
  ⟨input, buf, opResult, .typing, []⟩

def System.initial (memory : Server) (users : List User) : System :=
  ⟨State.initial _ _ ⟨memory, []⟩, users⟩

/-- Behind the prompts: a refused count ends the client. -/
def User.asked (user : User) : User :=
  if user.input.Refused then { user with phase := .ended, stdout := countPrompt }
  else { user with
    phase := .waiting
    stdout := countPrompt ++ prompts user.input.opCount }

/-- `recvfrom(sfd, &opResult, 4, ...)` and the last line. -/
def User.answered (user : User) (reply : List Byte) : User :=
  let opResult := Hw5.receiveWord user.opResult reply
  { user with
    opResult := opResult
    phase := .ended
    stdout := user.stdout ++ operationResult opResult }

def System.step (s : System) : Action → Option System
  | .type index => do
      let user ← s.users[index]?
      if user.phase = .typing then
        let datagram ← hw3_client user.input user.buf
        let net ← RequestReply.step Process.iteration s.net (.send index datagram)
        return ⟨net, s.users.set index user.asked⟩
      else none
  | .serve index datagram =>
      (RequestReply.step Process.iteration s.net (.serve index datagram)).map fun net =>
        { s with net := net }
  | .receive index reply => do
      let user ← s.users[index]?
      if user.phase = .waiting then
        let net ← RequestReply.step Process.iteration s.net (.receive index reply)
        return ⟨net, s.users.set index (user.answered reply)⟩
      else none

/-! ## One request -/

/-- What the server prints for a request that arrives whole. -/
def expressionReport (expression : Expression) : List Byte :=
  countPrompt ++ decimal expression.count ++ [ascii '\n'] ++
    (List.range expression.count).flatMap (fun (i : Nat) => literal "Operand " ++ decimal i ++
      literal ": " ++ decimal (expression.operands.getD i 0).toInt ++ [ascii '\n']) ++
    operationResult expression.value

/-- What the server prints for the datagram of a user. -/
def inputReport (input : Input) : List Byte :=
  if input.Refused then
    literal "Server close(" ++ decimal (BitVec.ofInt 8 input.opCount).toInt ++ literal ")\n"
  else expressionReport input.expression

/-- The datagram of a user whose count the client accounts for. -/
def Asked (datagram : List Byte) : Prop :=
  ∃ (input : Input) (buf : CArray Byte Client.MAX),
    input.Accountable ∧ hw3_client input buf = some datagram

def expected (datagram : List Byte) : Option (List Byte) :=
  (replyTo datagram).map Word.toBytes

theorem replyTo_encode {expression : Expression} (small : expression.count ≤ 127) :
    replyTo expression.encode = some expression.value := by
  have value := toInt_ofNat_char small
  have positive : 0 < expression.count := by simp [Expression.count]
  have decoded := decodeExpression_encode expression []
  rw [List.append_nil] at decoded
  have head : expression.encode.headD 0#8 = BitVec.ofNat 8 expression.count := rfl
  have replies : ¬ (expression.count : Int) ≤ 0 := by omega
  simp only [replyTo, head, value, replies, if_false, Int.toNat_natCast, decoded]

theorem iteration_encode {expression : Expression} (small : expression.count ≤ 127)
    (process : Process) :
    ∃ memory, process.iteration expression.encode =
      some (⟨memory, process.stdout ++ expressionReport expression⟩,
        some (Word.toBytes expression.value)) := by
  obtain ⟨memory, served, operands⟩ := serve_encode process.memory small
  refine ⟨memory, ?_⟩
  have max : MAX = 1024 := rfl
  have fits : expression.encode.length ≤ MAX := by
    rw [expression.length_encode]
    omega
  -- Nothing but `recvfrom` writes the buffer.
  have head : memory.buf.cells.headD 0#8 = BitVec.ofNat 8 expression.count := by
    obtain ⟨after, outcome, ran, _, kept⟩ :=
      answer_eq (recvfrom process.memory expression.encode)
    have same : serve process.memory expression.encode = some (after, outcome) := ran
    rw [served] at same
    cases same
    rw [kept, recvfrom, CArray.cells_fill _ fits, Expression.encode, List.cons_append,
      List.headD_cons]
  have value := toInt_ofNat_char small
  have printed : report memory (.replied expression.steps expression.value) =
      expressionReport expression := by
    simp only [report, head, value, Int.toNat_natCast, expressionReport]
    congr 2
    refine List.flatMap_congr fun i member => ?_
    have bound : i < expression.count := List.mem_range.mp member
    have operand : memory.operand.cells.getD i 0 = expression.operands.getD i 0 := by
      rw [← operands, List.getD_eq_getElem?_getD, List.getD_eq_getElem?_getD,
        List.getElem?_take_of_lt bound]
    rw [operand]
  simp only [Process.iteration, served, printed, Outcome.reply?, Option.bind_eq_bind,
    Option.bind_some, Option.map_some, Option.pure_def]

theorem iteration_refused {count : Byte} (refused : count.toInt ≤ 0) (process : Process) :
    ∃ memory, process.iteration [count] =
      some (⟨memory, process.stdout ++
        (literal "Server close(" ++ decimal count.toInt ++ literal ")\n")⟩, none) := by
  have head : (recvfrom process.memory [count]).buf.get? 0 = some count := by
    have fits : [count].length ≤ MAX := by
      rw [List.length_singleton]
      decide
    simp only [recvfrom, CArray.get?, CArray.cells_fill _ fits]
    rfl
  have closed : serve process.memory [count] =
      some (recvfrom process.memory [count], .closed count.toInt) := by
    simp only [serve, answer, head, Option.bind_eq_bind, Option.bind_some, refused,
      if_true, Option.pure_def]
  exact ⟨recvfrom process.memory [count], by
    simp only [Process.iteration, closed, report, Outcome.reply?, Option.bind_eq_bind,
      Option.bind_some, Option.map_none, Option.pure_def]⟩

/-- What the server prints for a datagram that holds a whole request. -/
def datagramReport (datagram : List Byte) : List Byte :=
  let opCount := (datagram.headD 0#8).toInt
  if opCount ≤ 0 then literal "Server close(" ++ decimal opCount ++ literal ")\n"
  else expressionReport (decodeExpression datagram opCount.toNat)

theorem datagramReport_encode {expression : Expression} (small : expression.count ≤ 127) :
    datagramReport expression.encode = expressionReport expression := by
  have value := toInt_ofNat_char small
  have positive : 0 < expression.count := by simp [Expression.count]
  have decoded := decodeExpression_encode expression []
  rw [List.append_nil] at decoded
  have head : expression.encode.headD 0#8 = BitVec.ofNat 8 expression.count := rfl
  have replies : ¬ (expression.count : Int) ≤ 0 := by omega
  simp only [datagramReport, head, value, replies, if_false, Int.toNat_natCast, decoded]

theorem datagram_of_input {input : Input} {buf : CArray Byte Client.MAX}
    {datagram : List Byte} (accountable : input.Accountable)
    (sent : hw3_client input buf = some datagram) :
    (input.Refused ∧ datagram = [BitVec.ofInt 8 input.opCount] ∧
        expected datagram = none) ∨
      ¬ input.Refused ∧ datagram = input.expression.encode ∧
        input.expression.count ≤ 127 ∧
        expected datagram = some (Word.toBytes input.expression.value) := by
  by_cases refused : input.Refused
  · obtain rfl := Option.some.inj (sent.symm.trans (sentBytes_refused accountable refused buf))
    refine .inl ⟨refused, rfl, ?_⟩
    have closes : (BitVec.ofInt 8 input.opCount).toInt ≤ 0 := refused
    simp only [expected, replyTo, List.headD_cons, closes, if_true, Option.map_none]
  · obtain ⟨encoded, small⟩ := sentBytes_accepted accountable refused buf
    obtain rfl := Option.some.inj (sent.symm.trans encoded)
    exact .inr ⟨refused, rfl, small, by
      rw [expected, replyTo_encode small, Option.map_some]⟩

theorem answering :
    Answering Process.iteration (fun _ => True) Asked expected where
  answers := by
    intro process datagram _ asked
    obtain ⟨input, buf, accountable, sent⟩ := asked
    rcases datagram_of_input accountable sent with
      ⟨refused, rfl, isNone⟩ | ⟨_, rfl, small, isSome⟩
    · obtain ⟨memory, ran⟩ := iteration_refused refused process
      exact ⟨_, by rw [ran, isNone], trivial⟩
    · obtain ⟨memory, ran⟩ := iteration_encode small process
      exact ⟨_, by rw [ran, isSome], trivial⟩

theorem iteration_stdout {process next : Process} {datagram : List Byte}
    {reaction : Option (List Byte)} (asked : Asked datagram)
    (reacts : process.iteration datagram = some (next, reaction)) :
    next.stdout = process.stdout ++ datagramReport datagram := by
  obtain ⟨input, buf, accountable, sent⟩ := asked
  rcases datagram_of_input accountable sent with ⟨refused, rfl, _⟩ | ⟨_, rfl, small, _⟩
  · have closes : (BitVec.ofInt 8 input.opCount).toInt ≤ 0 := refused
    obtain ⟨memory, ran⟩ := iteration_refused closes process
    rw [ran] at reacts
    cases reacts
    simp only [datagramReport, List.headD_cons, closes, if_true]
  · obtain ⟨memory, ran⟩ := iteration_encode small process
    rw [ran] at reacts
    cases reacts
    rw [datagramReport_encode small]

/-! ## Every run -/

/-- Where a user is, and what is on the screen. -/
inductive Progress (s : System) (index : Nat) (user : User) : Prop where
  | typing (phase : user.phase = .typing) (stdout : user.stdout = [])
  | waiting (phase : user.phase = .waiting) (accepted : ¬ user.input.Refused)
      (stdout : user.stdout = countPrompt ++ prompts user.input.opCount)
      (sent : (index, user.input.expression.encode) ∈ s.net.requests)
  | ended (phase : user.phase = .ended) (stdout : user.stdout = user.input.screen)

/-- The replies are answers, and every user waits for its own. -/
structure Kept (memory : Server) (inputs : List Input) (s : System) : Prop where
  answered : Answered Process.iteration (fun _ => True) expected ⟨memory, []⟩ s.net
  inputs : s.users.map User.input = inputs
  /-- A datagram is the one that its user's client sends. -/
  own : ∀ request ∈ s.net.requests, ∃ user, s.users[request.1]? = some user ∧
    hw3_client user.input user.buf = some request.2
  progress : Pool.Each (Progress s) s.users

section kept

variable {memory : Server} {inputs : List Input} {s next : System}

theorem Kept.accountable (held : Kept memory inputs s)
    (accountable : ∀ input ∈ inputs, input.Accountable) {index : Nat} {user : User}
    (found : s.users[index]? = some user) : user.input.Accountable := by
  refine accountable _ ?_
  rw [← held.inputs]
  exact List.mem_map_of_mem (List.mem_of_getElem? found)

theorem Kept.asks (held : Kept memory inputs s)
    (accountable : ∀ input ∈ inputs, input.Accountable) : Asks Asked s.net := by
  intro request member
  obtain ⟨user, found, sent⟩ := held.own request member
  exact ⟨user.input, user.buf, held.accountable accountable found, sent⟩

theorem Kept.reply (held : Kept memory inputs s)
    (accountable : ∀ input ∈ inputs, input.Accountable) {index : Nat} {user : User}
    {reply : List Byte} (found : s.users[index]? = some user)
    (there : (index, reply) ∈ s.net.replies) :
    ¬ user.input.Refused ∧ reply = Word.toBytes user.input.expression.value := by
  obtain ⟨datagram, sent, isAnswer⟩ := held.answered.reply there
  obtain ⟨other, same, own⟩ := held.own _ sent
  cases found.symm.trans same
  rcases datagram_of_input (held.accountable accountable found) own with
    ⟨_, _, isNone⟩ | ⟨accepted, _, _, isSome⟩
  · rw [isNone] at isAnswer
    cases isAnswer
  · rw [isSome] at isAnswer
    exact ⟨accepted, (Option.some.inj isAnswer).symm⟩

theorem Progress.of_subset {index : Nat} {user : User} (progress : Progress s index user)
    (more : ∀ request ∈ s.net.requests, request ∈ next.net.requests) :
    Progress next index user := by
  cases progress with
  | typing phase stdout => exact .typing phase stdout
  | waiting phase accepted stdout sent => exact .waiting phase accepted stdout (more _ sent)
  | ended phase stdout => exact .ended phase stdout

theorem User.asked_progress {user : User} {index : Nat}
    (accountable : user.input.Accountable)
    {datagram : List Byte} (sent : hw3_client user.input user.buf = some datagram)
    (there : (index, datagram) ∈ next.net.requests) : Progress next index user.asked := by
  rcases datagram_of_input accountable sent with
    ⟨refused, _, _⟩ | ⟨accepted, rfl, _, _⟩
  · rw [User.asked, if_pos refused]
    exact .ended rfl (by simp [Input.screen, refused])
  · rw [User.asked, if_neg accepted]
    exact .waiting rfl accepted rfl there

theorem kept_type (accountable : ∀ input ∈ inputs, input.Accountable) {index : Nat}
    (held : Kept memory inputs s) (taken : s.step (.type index) = some next) :
    Kept memory inputs next := by
  simp only [System.step, Option.bind_eq_bind, Option.bind_eq_some_iff] at taken
  obtain ⟨user, found, taken⟩ := taken
  split at taken <;> rename_i typing
  · simp only [Option.bind_eq_some_iff] at taken
    obtain ⟨datagram, sent, net, moved, final⟩ := taken
    cases final
    have bound := (List.getElem?_eq_some_iff.mp found).1
    have sameInput : user.asked.input = user.input ∧ user.asked.buf = user.buf := by
      unfold User.asked
      split <;> exact ⟨rfl, rfl⟩
    have answered := answered_step answering (held.asks accountable) held.answered moved
    cases moved
    refine ⟨answered, ?_, ?_, ?_⟩
    · rw [Pool.map_set_of_same found sameInput.1, held.inputs]
    · intro request member
      rcases List.mem_append.mp member with before | new
      · obtain ⟨other, there, own⟩ := held.own request before
        by_cases same : index = request.1
        · subst same
          cases found.symm.trans there
          exact ⟨user.asked, by simp [bound], by rw [sameInput.1, sameInput.2, own]⟩
        · exact ⟨other, by rw [List.getElem?_set_ne same, there], own⟩
      · cases List.mem_singleton.mp new
        exact ⟨user.asked, by simp [bound], by rw [sameInput.1, sameInput.2, sent]⟩
    · refine (held.progress.mono fun other otherUser progress =>
        progress.of_subset fun request member => List.mem_append_left _ member).set ?_
      exact User.asked_progress (held.accountable accountable found) sent (by simp)
  · cases taken

theorem kept_serve (accountable : ∀ input ∈ inputs, input.Accountable) {index : Nat}
    {datagram : List Byte} (held : Kept memory inputs s)
    (taken : s.step (.serve index datagram) = some next) : Kept memory inputs next := by
  obtain ⟨net, moved, rfl⟩ := Option.map_eq_some_iff.mp taken
  have answered := answered_step answering (held.asks accountable) held.answered moved
  have same : net.requests = s.net.requests := by
    simp only [RequestReply.step] at moved
    split at moved
    · obtain ⟨served, _, rfl⟩ := Option.map_eq_some_iff.mp moved
      rfl
    · cases moved
  exact ⟨answered, held.inputs, same ▸ held.own,
    held.progress.mono fun other user progress => progress.of_subset (by simp [same])⟩

theorem kept_receive (accountable : ∀ input ∈ inputs, input.Accountable) {index : Nat}
    {reply : List Byte} (held : Kept memory inputs s)
    (taken : s.step (.receive index reply) = some next) : Kept memory inputs next := by
  simp only [System.step, Option.bind_eq_bind, Option.bind_eq_some_iff] at taken
  obtain ⟨user, found, taken⟩ := taken
  split at taken <;> rename_i waits
  · simp only [Option.bind_eq_some_iff] at taken
    obtain ⟨net, moved, final⟩ := taken
    cases final
    obtain ⟨there, rfl⟩ : (index, reply) ∈ s.net.replies ∧ net = s.net := by
      simp only [RequestReply.step] at moved
      split at moved <;> rename_i there
      · cases moved
        exact ⟨there, rfl⟩
      · cases moved
    have bound := (List.getElem?_eq_some_iff.mp found).1
    obtain ⟨accepted, rfl⟩ := held.reply accountable found there
    have progress : Progress ⟨s.net, s.users.set index (user.answered
        (Word.toBytes user.input.expression.value))⟩ index
        (user.answered (Word.toBytes user.input.expression.value)) := by
      cases held.progress index user found with
      | typing phase _ =>
          rw [waits] at phase
          cases phase
      | ended phase _ =>
          rw [waits] at phase
          cases phase
      | waiting _ _ stdout _ =>
          refine .ended rfl ?_
          simp only [User.answered, stdout, Hw5.receiveWord_toBytes, Input.screen, accepted,
            if_false, List.append_assoc]
    refine ⟨held.answered, ?_, ?_, ?_⟩
    · rw [Pool.map_set_of_same found (by rfl), held.inputs]
    · intro request member
      obtain ⟨other, stays, own⟩ := held.own request member
      by_cases same : index = request.1
      · subst same
        cases found.symm.trans stays
        exact ⟨_, List.getElem?_set_self bound, own⟩
      · exact ⟨other, by rw [List.getElem?_set_ne same, stays], own⟩
    · refine (held.progress.mono fun other otherUser before =>
        before.of_subset ?_).set progress
      exact fun _ member => member
  · cases taken

theorem kept_step (accountable : ∀ input ∈ inputs, input.Accountable) {action : Action}
    (held : Kept memory inputs s) (taken : s.step action = some next) :
    Kept memory inputs next := by
  cases action with
  | type index => exact kept_type accountable held taken
  | serve index datagram => exact kept_serve accountable held taken
  | receive index reply => exact kept_receive accountable held taken

theorem Kept.can_end (held : Kept memory inputs s)
    (accountable : ∀ input ∈ inputs, input.Accountable) (running : s.net.running = true)
    {index : Nat} {user : User} (found : s.users[index]? = some user)
    (waits : user.phase = .waiting) :
    ∃ next, run System.step s [.serve index user.input.expression.encode,
        .receive index (Word.toBytes user.input.expression.value)] = some next ∧
      next.users[index]? =
        some (user.answered (Word.toBytes user.input.expression.value)) := by
  have bound := (List.getElem?_eq_some_iff.mp found).1
  cases held.progress index user found with
  | typing phase _ =>
      rw [waits] at phase
      cases phase
  | ended phase _ =>
      rw [waits] at phase
      cases phase
  | waiting _ accepted _ sent =>
      obtain ⟨_, small⟩ := sentBytes_accepted (held.accountable accountable found) accepted
        user.buf
      obtain ⟨net, moved, there, _⟩ := held.answered.can_reply answering
        (held.asks accountable) running sent (by rw [expected, replyTo_encode small]; rfl)
      refine ⟨⟨net, s.users.set index (user.answered
        (Word.toBytes user.input.expression.value))⟩, ?_, List.getElem?_set_self bound⟩
      have received : RequestReply.step Process.iteration net
          (.receive index (Word.toBytes user.input.expression.value)) = some net := by
        simp only [RequestReply.step, there, if_true]
      simp only [run_cons, run_nil, System.step, moved, Option.map_some, Option.bind_some,
        Option.bind_eq_bind, found, waits, if_true, received, Option.pure_def]

theorem Kept.screen (held : Kept memory inputs s)
    (accountable : ∀ input ∈ inputs, input.Accountable) :
    s.net.server.stdout = s.net.served.flatMap fun request =>
      (inputs[request.1]?.map inputReport).getD [] := by
  have asked : ∀ request ∈ s.net.served, Asked request.2 := fun request member =>
    held.asks accountable request (held.answered.sent request member)
  have printed := held.answered.after.log answering
    (fun _ isAsked reacts => iteration_stdout isAsked reacts) asked trivial
  rw [printed, List.nil_append]
  refine List.flatMap_congr fun request member => ?_
  obtain ⟨user, found, own⟩ := held.own request (held.answered.sent request member)
  rw [← held.inputs, List.getElem?_map, found, Option.map_some, Option.map_some,
    Option.getD_some]
  rcases datagram_of_input (held.accountable accountable found) own with
    ⟨refused, equal, _⟩ | ⟨accepted, equal, small, _⟩
  · have closes : (BitVec.ofInt 8 user.input.opCount).toInt ≤ 0 := refused
    rw [equal, inputReport, if_pos refused, datagramReport]
    simp only [List.headD_cons, closes, if_true]
  · rw [equal, datagramReport_encode small, inputReport, if_neg accepted]

end kept

theorem kept_initial (memory : Server) {users : List User}
    (fresh : ∀ user ∈ users, user.phase = .typing ∧ user.stdout = []) :
    Kept memory (users.map User.input) (System.initial memory users) where
  answered := answered_initial trivial
  inputs := rfl
  own := by simp [System.initial, State.initial]
  progress := by
    intro index user found
    obtain ⟨phase, stdout⟩ := fresh user (List.mem_of_getElem? found)
    exact .typing phase stdout

/-- In every run, whatever the network does with the datagrams, a client that ends shows
the value of what its user typed.  The server reports each datagram that arrives, and ends
only on a count that its client refuses; until then every client that waits can end. -/
theorem users_answered {memory : Server} {users : List User} {actions : List Action}
    {s : System} (accountable : ∀ user ∈ users, user.input.Accountable)
    (fresh : ∀ user ∈ users, user.phase = .typing ∧ user.stdout = [])
    (reached : run System.step (System.initial memory users) actions = some s) :
    (∀ (index : Nat) (user : User), s.users[index]? = some user →
      (user.phase = .ended → user.stdout = user.input.screen) ∧
      (user.phase = .waiting → s.net.running = true →
        ∃ next, run System.step s [.serve index user.input.expression.encode,
            .receive index (Word.toBytes user.input.expression.value)] = some next ∧
          next.users[index]?.map User.stdout = some user.input.screen)) ∧
      s.users.map User.input = users.map User.input ∧
      (s.net.server.stdout = s.net.served.flatMap fun request =>
        (users[request.1]?.map fun user => inputReport user.input).getD []) ∧
      (s.net.running = false → ∃ user ∈ users, user.input.Refused) := by
  have accounted : ∀ input ∈ users.map User.input, input.Accountable := by
    simpa using accountable
  have kept {start final : System} {taken : List Action}
      (initially : Kept memory (users.map User.input) start)
      (ran : run System.step start taken = some final) :
      Kept memory (users.map User.input) final :=
    run_invariant_of_step (Kept memory (users.map User.input))
      (fun held moved => kept_step accounted held moved) initially ran
  have held := kept (kept_initial memory fresh) reached
  have shows {state : System} (heldState : Kept memory (users.map User.input) state)
      {index : Nat} {user : User} (found : state.users[index]? = some user)
      (ended : user.phase = .ended) : user.stdout = user.input.screen := by
    cases heldState.progress index user found with
    | typing phase _ =>
        rw [ended] at phase
        cases phase
    | waiting phase _ _ _ =>
        rw [ended] at phase
        cases phase
    | ended _ stdout => exact stdout
  refine ⟨?_, held.inputs, ?_, ?_⟩
  · intro index user found
    refine ⟨shows held found, ?_⟩
    intro waits running
    obtain ⟨next, ran, after⟩ := held.can_end accounted running found waits
    refine ⟨next, ran, ?_⟩
    rw [after, Option.map_some, shows (kept held ran) after rfl]
    rfl
  · rw [held.screen accounted]
    refine List.flatMap_congr fun request _ => ?_
    rw [List.getElem?_map, Option.map_map]
    rfl
  · intro stopped
    obtain ⟨request, served, isNone⟩ := held.answered.stopped.mp stopped
    obtain ⟨user, found, own⟩ := held.own request (held.answered.sent request served)
    have among : user.input ∈ users.map User.input := by
      rw [← held.inputs]
      exact List.mem_map_of_mem (List.mem_of_getElem? found)
    obtain ⟨typed, member, same⟩ := List.mem_map.mp among
    refine ⟨typed, member, ?_⟩
    rcases datagram_of_input (held.accountable accounted found) own with
      ⟨refused, _, _⟩ | ⟨_, _, _, isSome⟩
    · rwa [same]
    · rw [isNone] at isSome
      cases isSome

/-- Three users type `2+3`, `7`, and the count 0. -/
def threeUsers : List User :=
  [User.start ⟨2, fun i => if i = 0 then 2 else 3, fun _ => ascii '+'⟩
      (CArray.replicate Client.MAX 0#8) 0,
    User.start ⟨1, fun _ => 7, fun _ => ascii '+'⟩ (CArray.replicate Client.MAX 0#8) 0,
    User.start (zeros 0) (CArray.replicate Client.MAX 0#8) 0]

/-- The datagrams overtake each other, and the one of the second user arrives twice. -/
def overtaken : List Action :=
  let seven : Expression := ⟨7, []⟩
  let five : Expression := ⟨2, [(ascii '+', 3)]⟩
  [.type 0, .type 1, .type 2, .serve 1 seven.encode, .serve 0 five.encode,
    .serve 1 seven.encode, .receive 1 (Word.toBytes 7), .receive 0 (Word.toBytes 5),
    .serve 2 [0#8]]

theorem users_answered_overtaken :
    ∃ s, run System.step (System.initial zeroed threeUsers) overtaken = some s ∧
      s.users.map User.stdout = threeUsers.map fun user => user.input.screen := by
  have shape : (run System.step (System.initial zeroed threeUsers) overtaken).any (fun s =>
      ∀ user ∈ s.users, user.phase = .ended) = true := by
    decide +kernel
  obtain ⟨s, reached, shaped⟩ := (Option.any_eq_true _ _).mp shape
  have ended : ∀ user ∈ s.users, user.phase = .ended := of_decide_eq_true shaped
  have accountable : ∀ user ∈ threeUsers, user.input.Accountable := by
    unfold Input.Accountable
    decide
  obtain ⟨answered, inputs, _⟩ := users_answered accountable (by decide) reached
  have shown : s.users.map User.stdout = (s.users.map User.input).map Input.screen := by
    rw [List.map_map]
    refine List.map_congr_left fun user member => ?_
    obtain ⟨index, bound, rfl⟩ := List.mem_iff_getElem.mp member
    exact (answered index _ (List.getElem?_eq_getElem bound)).1 (ended _ member)
  refine ⟨s, reached, ?_⟩
  rw [shown, inputs, List.map_map]
  rfl

end NetworkProgramming.Hw3
