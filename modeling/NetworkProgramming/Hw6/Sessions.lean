import NetworkProgramming.Hw6.Store
import NetworkProgramming.Screens

/-!
# The users of `hw6_client`

`main` of `hw6_client`: what a user types, what it writes on its connection, and
what is on the screen in the end.  Between the client and the store stand two
encodings, two pipes and the arrays of both programs; the users see none of it,
but the texts of the map.
-/

namespace NetworkProgramming.Hw6

open MachineInt Transition Client

/-- What a user types: the words for the mode and the id, and the calculation. -/
structure Typed where
  mode : List Byte
  id : List Byte
  input : Input

/-- What `main` does until it waits for an answer or closes the connection. -/
structure Opening where
  stdout : List Byte
  /-- Whether it gets as far as `connect`. -/
  connects : Bool
  written : List Byte

def greeting : List Byte := literal "Mode: " ++ literal "Connected....\n"

def overflowText (opCount : Int) : List Byte :=
  literal "Overflow will happen(" ++ decimal opCount ++ literal ")\n"

def lengthError : List Byte := literal "Error: ID length must be 4\n"

/-- `main` of `hw6_client` until it reads.  The globals start as zero; `strcmp` compares
the mode with the words the server knows. -/
def hw6_client (typed : Typed) : Option Opening := do
  let mode ← (CArray.replicate MOD_SIZE 0#8).print? typed.mode
  match ← modeOf mode with
  | .unknown =>
      return ⟨literal "Mode: " ++ literal "supported mode: save load quit\n", false, []⟩
  | .quit => return ⟨greeting ++ literal "quit\n", true, mode.cells⟩
  | command =>
      let id ← (CArray.replicate ID_SIZE 0#8).print? typed.id
      let name ← id.cString?
      if name.length ≠ 4 then
        return ⟨greeting ++ literal "ID: " ++ lengthError, true, []⟩
      if command = .load then
        return ⟨greeting ++ literal "ID: ", true, mode.cells ++ id.cells⟩
      match ← caculator_input typed.input (CArray.replicate MAX 0#8) with
      | .rejected _ =>
          -- The socket is closed: `writev` and `read` fail, and `opResult` is zero.
          return ⟨greeting ++ literal "ID: " ++ countPrompt ++
            overflowText typed.input.opCount ++ operationResult 0, true, []⟩
      | .accepted buf =>
          return ⟨greeting ++ literal "ID: " ++ countPrompt ++
            prompts typed.input.opCount, true, mode.cells ++ id.cells ++ buf.cells⟩

/-- Behind the read of at most `MAX - 1` bytes in load mode: `buf[str_len] = 0` and
`printf("%s", buf)`.  After a failed read the store is in front of the array. -/
def loaded : ReadResult → Option (List Byte)
  | .data bytes => do
      let buf ← ((CArray.replicate MAX 0#8).fill (bytes.take (MAX - 1))).set?
        (bytes.take (MAX - 1)).length 0#8
      buf.cString?
  | .closed => some []
  | .failed => none

/-- Behind the read of `opResult` in save mode; the global starts as zero. -/
def computed : ReadResult → List Byte
  | .data bytes => operationResult (Hw5.receiveWord 0 bytes)
  | .closed | .failed => operationResult 0

/-- What the server's `readv` returns for this client, when it arrives whole. -/
def Opening.result (opening : Opening) : ReadResult :=
  if opening.written = [] then .closed else .data opening.written

/-- The whole screen of a user whose client reads this answer, if it reads one. -/
def Typed.shown (typed : Typed) (answer : Option (List Byte)) : Option (List Byte) := do
  let opening ← hw6_client typed
  match answer with
  | none => return opening.stdout
  | some bytes =>
      if typed.mode = saveWord.take 4 then
        return opening.stdout ++ computed (.data bytes)
      else return opening.stdout ++ (← loaded (.data bytes))

/-! ## The answers in a trace -/

/-- What is sent on the same socket behind each request. -/
def replies : List Event → List (Option (List Byte))
  | [] => []
  | .received socket _ :: .sent other bytes :: trace =>
      (if other = socket then some bytes else none) :: replies trace
  | .received _ _ :: trace => none :: replies trace
  | .sent _ _ :: trace => replies trace

/-- What the map answers, request by request. -/
def answers : Store → List Request → List (Option (List Byte))
  | _, [] => []
  | store, request :: requests =>
      store.reply request :: answers (store.apply request) requests

theorem replies_conversation (requests : List (Nat × Request)) (store : Store) :
    replies (conversation store requests) = answers store (requests.map Prod.snd) := by
  induction requests generalizing store with
  | nil => rfl
  | cons request requests induction =>
      obtain ⟨socket, request⟩ := request
      have later := induction (store.apply request)
      cases reply : store.reply request with
      | some bytes =>
          simp only [conversation, reply, Option.map_some, Option.toList_some,
            List.cons_append, List.nil_append, replies, if_true, later, List.map_cons,
            answers]
      | none =>
          simp only [conversation, reply, Option.map_none, Option.toList_none,
            List.cons_append, List.nil_append, List.map_cons, answers]
          rw [← later]
          cases requests with
          | nil => rfl
          | cons next requests => rfl

/-! ## The request of a user -/

/-- The words fit the arrays of the client, the mode is one of a request, and the count is
one that its low byte can say, or one that is refused. -/
structure Typed.Well (typed : Typed) : Prop where
  mode : typed.mode = saveWord.take 4 ∨ typed.mode = loadWord.take 4
  id : typed.id.length ≤ 4
  plain : 0#8 ∉ typed.id
  input : typed.input.Accountable

def Typed.id? (typed : Typed) : Option Id :=
  if isId : typed.id.length = 4 ∧ 0#8 ∉ typed.id then some ⟨typed.id, isId.1, isId.2⟩
  else none

/-- What is written behind the encoded expression: the rest of `buf`. -/
def Typed.tail (typed : Typed) : List Byte :=
  ((hw6_client typed).elim [] Opening.written).drop
    (MOD_SIZE + ID_SIZE + typed.input.expression.encode.length)

def Typed.request (typed : Typed) : Request :=
  match typed.id? with
  | none => .leave
  | some id =>
      if typed.mode = loadWord.take 4 then .load id []
      else if (BitVec.ofInt 8 typed.input.opCount).toInt ≤ 0 then .leave
      else .save id typed.input.expression typed.tail

/-- What the user should see, with the map as it is when the request is served. -/
def Typed.screen (store : Store) (typed : Typed) : List Byte :=
  greeting ++ literal "ID: " ++
    match typed.request with
    | .leave =>
        if typed.id.length = 4 then
          countPrompt ++ overflowText typed.input.opCount ++ operationResult 0
        else lengthError
    | .load id _ => if store.saved id = [] then notExist else store.texts id
    | .save _ expression _ =>
        countPrompt ++ prompts typed.input.opCount ++
          operationResult expression.value

theorem print_word {word : List Byte} (length : word.length = 4) :
    ∃ array, (CArray.replicate 5 0#8).print? word = some array ∧
      array.cells = word ++ [0#8] := by
  obtain ⟨array, printed⟩ : ∃ array, (CArray.replicate 5 0#8).print? word = some array :=
    CArray.print?_isSome (by omega)
  obtain ⟨_, cells⟩ := CArray.write?_eq_some.mp printed
  exact ⟨array, printed, by simpa [length] using cells⟩

/-- The ways through `main` of `hw6_client`, and the request that the server sees. -/
inductive Typed.Opens (typed : Typed) : Opening → Request → Prop where
  | short (length : typed.id.length ≠ 4) :
      Opens typed ⟨greeting ++ literal "ID: " ++ lengthError, true, []⟩ .leave
  | load (id : Id) (isId : typed.id = id.letters) (mode : typed.mode = loadWord.take 4) :
      Opens typed ⟨greeting ++ literal "ID: ", true, loadWord ++ id.cells⟩ (.load id [])
  | refused (length : typed.id.length = 4) :
      Opens typed ⟨greeting ++ literal "ID: " ++ countPrompt ++
        overflowText typed.input.opCount ++ operationResult 0, true, []⟩ .leave
  | save (id : Id) (isId : typed.id = id.letters) (mode : typed.mode = saveWord.take 4)
      (tail : List Byte) (small : typed.input.expression.count ≤ 127)
      (length : (typed.input.expression.encode ++ tail).length = BUF_SIZE) :
      Opens typed ⟨greeting ++ literal "ID: " ++ countPrompt ++
        prompts typed.input.opCount, true,
        saveWord ++ (id.cells ++ (typed.input.expression.encode ++ tail))⟩
        (.save id typed.input.expression tail)

theorem modeOf_typed {typed : Typed} (well : typed.Well) :
    ∃ mode command, (CArray.replicate MOD_SIZE 0#8).print? typed.mode = some mode ∧
      modeOf mode = some command ∧
      (typed.mode = saveWord.take 4 ∧ command = .save ∧ mode.cells = saveWord ∨
        typed.mode = loadWord.take 4 ∧ command = .load ∧ mode.cells = loadWord) := by
  rcases well.mode with isSave | isLoad
  · obtain ⟨mode, printed, cells⟩ : ∃ mode : CArray Byte MOD_SIZE, _ ∧ _ :=
      @print_word typed.mode (by rw [isSave]; rfl)
    have word : mode.cells = saveWord := by
      rw [cells, isSave]
      rfl
    exact ⟨mode, .save, printed, by rw [modeOf_eq, branch_eq_save.mpr word],
      .inl ⟨isSave, rfl, word⟩⟩
  · obtain ⟨mode, printed, cells⟩ : ∃ mode : CArray Byte MOD_SIZE, _ ∧ _ :=
      @print_word typed.mode (by rw [isLoad]; rfl)
    have word : mode.cells = loadWord := by
      rw [cells, isLoad]
      rfl
    exact ⟨mode, .load, printed, by rw [modeOf_eq, branch_eq_load.mpr word],
      .inr ⟨isLoad, rfl, word⟩⟩

/-- Whatever a user types, the client gets as far as the connection, and what the server
reads there is the user's request. -/
theorem opens {typed : Typed} (well : typed.Well) :
    ∃ opening, hw6_client typed = some opening ∧ typed.Opens opening typed.request := by
  obtain ⟨mode, command, modePrinted, isCommand, which⟩ := modeOf_typed well
  obtain ⟨id, idPrinted⟩ : ∃ id, (CArray.replicate ID_SIZE 0#8).print? typed.id = some id :=
    CArray.print?_isSome (by have := well.id; simp only [ID_SIZE]; omega)
  have name := CArray.cString?_print idPrinted
  rw [cString_of_notMem well.plain] at name
  by_cases length : typed.id.length = 4
  · have isId : typed.id? = some ⟨typed.id, length, well.plain⟩ := by
      simp [Typed.id?, length, well.plain]
    obtain ⟨array, arrayPrinted, cells⟩ := print_word length
    have same : id.cells = Id.cells ⟨typed.id, length, well.plain⟩ := by
      have both := idPrinted.symm.trans arrayPrinted
      cases both
      exact cells
    rcases which with ⟨isSave, rfl, word⟩ | ⟨isLoad, rfl, word⟩
    · have notLoad : typed.mode ≠ loadWord.take 4 := by
        rw [isSave]
        decide
      rcases well.input with refused | ⟨positive, small⟩
      · obtain ⟨stopped, ran, _⟩ :=
          @encodeInput_rejected MAX typed.input (CArray.replicate MAX 0#8) (by decide) refused
        refine ⟨⟨greeting ++ literal "ID: " ++ countPrompt ++
          overflowText typed.input.opCount ++ operationResult 0, true, []⟩, ?_, ?_⟩
        · simp only [hw6_client, modePrinted, isCommand, idPrinted, name, length,
            caculator_input, ran, Option.bind_eq_bind, Option.bind_some, ne_eq,
            not_true_eq_false, if_false, reduceCtorEq, Option.pure_def]
        · rw [Typed.request, isId]
          simp only [notLoad, refused, if_true, if_false]
          exact .refused length
      · have count := count_expression positive
        obtain ⟨buf, ran, rest, bufCells⟩ := @encodeInput_typed MAX typed.input.expression
          (by omega) (by decide) (CArray.replicate MAX 0#8)
        rw [← encodeInput_expression positive] at ran
        have accepts : ¬ (BitVec.ofInt 8 typed.input.opCount).toInt ≤ 0 := by
          intro refused
          obtain ⟨stopped, other, _⟩ :=
            @encodeInput_rejected MAX typed.input (CArray.replicate MAX 0#8) (by decide) refused
          rw [ran] at other
          cases other
        have opening : hw6_client typed = some ⟨greeting ++ literal "ID: " ++
            countPrompt ++ prompts typed.input.opCount, true,
            saveWord ++ (Id.cells ⟨typed.id, length, well.plain⟩ ++
              (typed.input.expression.encode ++ rest))⟩ := by
          simp only [hw6_client, modePrinted, isCommand, idPrinted, name, length,
            caculator_input, ran, Option.bind_eq_bind, Option.bind_some, ne_eq,
            not_true_eq_false, if_false, reduceCtorEq, Option.pure_def, word, same, bufCells,
            List.append_assoc]
        have tail : typed.tail = rest := by
          rw [Typed.tail, opening, Option.elim_some]
          rw [← List.append_assoc, ← List.append_assoc]
          refine List.drop_left' ?_
          simp only [List.length_append, Id.length_cells]
          rfl
        refine ⟨_, opening, ?_⟩
        rw [Typed.request, isId]
        simp only [notLoad, accepts, if_false, tail]
        refine .save _ rfl isSave rest (by omega) ?_
        rw [← bufCells, buf.length_cells]
        rfl
    · refine ⟨⟨greeting ++ literal "ID: ", true,
        loadWord ++ Id.cells ⟨typed.id, length, well.plain⟩⟩, ?_, ?_⟩
      · simp only [hw6_client, modePrinted, isCommand, idPrinted, name, length,
          Option.bind_eq_bind, Option.bind_some, ne_eq, not_true_eq_false, if_false, if_true,
          Option.pure_def, word, same]
      · rw [Typed.request, isId]
        simp only [isLoad, if_true]
        exact .load _ rfl isLoad
  · have isId : typed.id? = none := by simp [Typed.id?, length]
    refine ⟨⟨greeting ++ literal "ID: " ++ lengthError, true, []⟩, ?_, ?_⟩
    · rcases which with ⟨_, rfl, _⟩ | ⟨_, rfl, _⟩ <;>
        simp only [hw6_client, modePrinted, isCommand, idPrinted, name, length,
          Option.bind_eq_bind, Option.bind_some, ne_eq, not_false_eq_true, if_true,
          Option.pure_def]
    · rw [Typed.request, isId]
      exact .short length

/-! ## The answer of the map on the screen -/

/-- No saved text ends early when it is printed. -/
def Store.Plain (store : Store) : Prop := ∀ save ∈ store, 0#8 ∉ save.2

theorem Store.Plain.apply {store : Store} (plain : store.Plain) (request : Request) :
    (store.apply request).Plain := by
  cases request with
  | leave => exact plain
  | load id tail => exact plain
  | save id expression tail =>
      intro save member
      rcases List.mem_append.mp member with old | new
      · exact plain save old
      · cases List.mem_singleton.mp new
        exact expression.zero_notMem_line

theorem Store.Plain.texts {store : Store} (plain : store.Plain) (id : Id) :
    0#8 ∉ store.texts id := by
  intro member
  obtain ⟨save, saved, inside⟩ := List.mem_flatMap.mp member
  have kept : save ∈ store := List.mem_of_mem_filter saved
  have mark : 0#8 ∉ separator := by decide
  simp only [recordText, List.mem_append] at inside
  rcases inside with (letters | between) | text
  · exact save.1.plain letters
  · exact mark between
  · exact plain save kept text

theorem loaded_data {bytes : List Byte} (plain : 0#8 ∉ bytes)
    (short : bytes.length + 1 ≤ MAX) : loaded (.data bytes) = some bytes := by
  have whole : bytes.take (MAX - 1) = bytes := List.take_of_length_le (by omega)
  have inside : bytes.length < MAX := by omega
  obtain ⟨ended, stored⟩ : ∃ ended,
      ((CArray.replicate MAX 0#8).fill bytes).set? bytes.length 0#8 = some ended := by
    simp [CArray.set?, inside]
  rw [loaded, whole]
  simp only [stored, Option.bind_eq_bind, Option.bind_some]
  rw [CArray.cString?_terminated stored, cString_of_notMem plain]

theorem computed_toBytes (value : Word) :
    computed (.data (Word.toBytes value)) = operationResult value := by
  rw [computed, Hw5.receiveWord_toBytes]

theorem shown_reply {typed : Typed} (well : typed.Well) {store : Store}
    (plain : store.Plain) (admits : store.Admits typed.request) :
    typed.shown (store.reply typed.request) = some (typed.screen store) := by
  obtain ⟨opening, ran, opens⟩ := opens well
  rw [Typed.shown, Typed.screen, ran, Option.bind_eq_bind, Option.bind_some]
  generalize typed.request = request at opens admits
  cases opens with
  | short length => simp [Store.reply, length]
  | refused length => simp [Store.reply, length, List.append_assoc]
  | load id isId mode =>
      have notSave : typed.mode ≠ saveWord.take 4 := by
        rw [mode]
        decide
      have answer : loaded (.data
          (if store.saved id = [] then notExist else store.texts id)) =
            some (if store.saved id = [] then notExist else store.texts id) := by
        split
        · exact loaded_data (by decide) (by decide)
        · exact loaded_data (plain.texts id) admits
      simp only [Store.reply, notSave, if_false, answer, Option.bind_eq_bind,
        Option.bind_some, Option.pure_def]
  | save id isId mode tail small length =>
      simp only [Store.reply, mode, if_true, computed_toBytes, List.append_assoc,
        Option.pure_def]

/-! ## Every user of every run -/

/-- What all users should see, one after the other. -/
def Store.screens : Store → List Typed → List (List Byte)
  | _, [] => []
  | store, typed :: users =>
      typed.screen store :: (store.apply typed.request).screens users

theorem shown_answers {users : List Typed} (well : ∀ typed ∈ users, typed.Well)
    {store : Store} (plain : store.Plain)
    (bounds : WithinBounds store (users.map Typed.request)) :
    List.zipWith Typed.shown users (answers store (users.map Typed.request)) =
      (store.screens users).map some := by
  induction users generalizing store with
  | nil => rfl
  | cons typed users induction =>
      obtain ⟨admits, later⟩ := bounds
      have first := shown_reply (well typed (by simp)) plain admits
      have rest := induction (fun other member => well other (by simp [member]))
        (plain.apply typed.request) later
      rw [List.map_cons, answers, List.zipWith_cons_cons, first, rest, Store.screens,
        List.map_cons]

theorem result_request {typed : Typed} (well : typed.Well) :
    (hw6_client typed).map Opening.result = some typed.request.result ∧
      typed.request.Complete := by
  obtain ⟨opening, ran, opens⟩ := opens well
  rw [ran, Option.map_some]
  generalize typed.request = request at opens
  cases opens with
  | short length => exact ⟨rfl, trivial⟩
  | refused length => exact ⟨rfl, trivial⟩
  | load id isId mode =>
      have written : loadWord ++ id.cells ≠ [] := by simp [loadWord]
      refine ⟨?_, by simp [Request.Complete]⟩
      simp only [Opening.result, written, if_false, Request.result, List.append_nil]
  | save id isId mode tail small length =>
      have written : saveWord ++ (id.cells ++ (typed.input.expression.encode ++ tail)) ≠
        [] := by simp [saveWord]
      refine ⟨?_, small, by omega⟩
      simp only [Opening.result, written, if_false, Request.result]

/-- What the server reads from a user, and on which socket. -/
def session (user : Nat × Typed) : Nat × ReadResult :=
  (user.1, ((hw6_client user.2).map Opening.result).getD .closed)

theorem session_request {user : Nat × Typed} (well : user.2.Well) :
    session user = (user.1, user.2.request.result) := by
  rw [session, (result_request well).1, Option.getD_some]

/-- A state between two requests has seen the conversation of the map. -/
theorem Served.trace {serv_sock : Nat} {s : System} (served : Served serv_sock s)
    {requests : List (Nat × Request)}
    (complete : ∀ request ∈ requests, request.2.Complete)
    (bounds : WithinBounds [] (requests.map Prod.snd))
    (made : received s.trace =
      requests.map fun request => (request.1, request.2.result)) :
    (resume s.point s.i s.globals).isSome ∧
      (s.Idle → s.trace = conversation [] requests) := by
  obtain ⟨globals, ideal⟩ := serveAll_represents
    (show Represents Globals.initial.dataArray [] from .nil) complete bounds []
  have sequential := served.sequential
  rw [Sequential, serveAll, made, ideal] at sequential
  obtain ⟨rest, resumed, equal⟩ := Option.map_eq_some_iff.mp sequential.symm
  refine ⟨by rw [resumed]; rfl, ?_⟩
  intro idle
  rw [idle.resume] at resumed
  cases resumed
  simpa using congrArg Prod.snd equal

/-- Users of `hw6_client` share the server.  Between two requests every one of them whose
answer was sent sees on the screen what the map has for the calculations of the users
before, and the server gets there by its own steps. -/
theorem sessions_shown {serv_sock : Nat} {actions : List Action} {s : System}
    {users : List (Nat × Typed)} (well : ∀ user ∈ users, user.2.Well)
    (bounds : WithinBounds [] (users.map fun user => user.2.request))
    (made : received s.trace = users.map session)
    (reached : run (step serv_sock) (System.initial serv_sock) actions = some s) :
    ∃ internal final, (∀ action ∈ internal, Internal action) ∧
      run (step serv_sock) s internal = some final ∧ final.Idle ∧
        (s.Idle → internal = []) ∧
        List.zipWith Typed.shown (users.map Prod.snd) (replies final.trace) =
          (Store.screens [] (users.map Prod.snd)).map some := by
  have requests : users.map session = (users.map fun user =>
      (user.1, user.2.request)).map fun request => (request.1, request.2.result) := by
    rw [List.map_map]
    exact List.map_congr_left fun user member => session_request (well user member)
  have complete : ∀ request ∈ users.map fun user => (user.1, user.2.request),
      request.2.Complete := by
    intro request member
    obtain ⟨user, among, rfl⟩ := List.mem_map.mp member
    exact (result_request (well user among)).2
  have within : WithinBounds []
      ((users.map fun user => (user.1, user.2.request)).map Prod.snd) := by
    rwa [List.map_map]
  have screens {state : System} (served : Served serv_sock state)
      (same : received state.trace = received s.trace) (idle : state.Idle) :
      List.zipWith Typed.shown (users.map Prod.snd) (replies state.trace) =
        (Store.screens [] (users.map Prod.snd)).map some := by
    have conversed := (served.trace complete within
      (by rw [same, made, requests])).2 idle
    rw [conversed, replies_conversation, List.map_map,
      show Prod.snd ∘ (fun user : Nat × Typed => (user.1, user.2.request)) =
        Typed.request ∘ Prod.snd from rfl, ← List.map_map]
    refine shown_answers ?_ ?_ ?_
    · intro typed member
      obtain ⟨user, among, rfl⟩ := List.mem_map.mp member
      exact well user among
    · intro save member
      cases member
    · rwa [List.map_map]
  have served := served_run
    (guarded_of_received (by rw [made, requests]) reached) reached
  by_cases idle : s.Idle
  · exact ⟨[], s, by simp, rfl, idle, fun _ => rfl, screens served rfl idle⟩
  · obtain ⟨internal, final, allInternal, taken, servedFinal, same, idleFinal⟩ :=
      request_completes served
        (served.trace complete within (by rw [made, requests])).1
    exact ⟨internal, final, allInternal, taken, idleFinal, fun now => absurd now idle,
      screens servedFinal same idleFinal⟩

/-- One user saves `2+3` under an id, another one loads it. -/
def savesThenLoads : List (Nat × Typed) :=
  [(8, ⟨saveWord.take 4, fourLetters.letters, ⟨2, fun i => if i = 0 then 2 else 3,
      fun _ => ascii '+'⟩⟩),
    (9, ⟨loadWord.take 4, fourLetters.letters, ⟨0, fun _ => 0, fun _ => 0#8⟩⟩)]

def savesThenLoadsRun : List Action :=
  connectTwice ++ scanTo {8, 9} ++
    savesThenLoads.flatMap fun user => .readv (session user).2 ::
      if user.1 = 8 then [.parent, .parent, .parent, .parent]
      else [.parent, .parent, .child, .child, .child, .child, .child, .parent,
        .parent, .parent]

theorem sessions_shown_savesThenLoads :
    ∃ s, run (step 3) (System.initial 3) savesThenLoadsRun = some s ∧
      List.zipWith Typed.shown (savesThenLoads.map Prod.snd) (replies s.trace) =
        (Store.screens [] (savesThenLoads.map Prod.snd)).map some := by
  have reached : (run (step 3) (System.initial 3) savesThenLoadsRun).any (fun s =>
      s.point = .scan ∧ received s.trace = savesThenLoads.map session) = true := by
    decide +kernel
  obtain ⟨s, ran, facts⟩ := (Option.any_eq_true _ _).mp reached
  obtain ⟨idle, made⟩ := of_decide_eq_true facts
  have well : ∀ user ∈ savesThenLoads, user.2.Well := by
    intro user member
    have cases : user = savesThenLoads[0] ∨ user = savesThenLoads[1] := by
      simpa [savesThenLoads] using member
    rcases cases with rfl | rfl
    · exact ⟨.inl rfl, by decide, by decide, .inr (by decide)⟩
    · exact ⟨.inr rfl, by decide, by decide, .inl (by decide)⟩
  obtain ⟨internal, final, _, taken, _, none, shown⟩ :=
    sessions_shown well (by decide +kernel) made ran
  obtain rfl := none (.inr (.inl idle))
  cases taken
  exact ⟨s, ran, shown⟩

end NetworkProgramming.Hw6
