import NetworkProgramming.Hw6.Service

/-!
# The store as a map from ids to texts

What the server is for: a save appends a text under an id, a load sends all
texts of an id in the order of saving.  The sequential service does this for
complete requests as long as no array overflows, and so does every run of the
two processes.
-/

namespace NetworkProgramming.Hw6

open MachineInt Transition

/-- An id as a client sends it: four characters, then a NUL. -/
structure Id where
  letters : List Byte
  length_letters : letters.length = 4
  plain : 0#8 ∉ letters
deriving DecidableEq

def Id.cells (id : Id) : List Byte := id.letters ++ [0#8]

theorem Id.length_cells (id : Id) : id.cells.length = ID_SIZE := by
  simp [Id.cells, id.length_letters, ID_SIZE]

def fourLetters : Id := ⟨List.replicate 4 (ascii 'a'), rfl, by decide⟩

abbrev Store := List (Id × List Byte)

/-- What a client does on its connection.  `tail` is what it sends behind the
request. -/
inductive Request where
  | save (id : Id) (expression : Expression) (tail : List Byte)
  | load (id : Id) (tail : List Byte)
  | leave
deriving DecidableEq

/-- What `readv` returns for a request that arrives whole. -/
def Request.result : Request → ReadResult
  | .save id expression tail =>
      .data (saveWord ++ (id.cells ++ (expression.encode ++ tail)))
  | .load id tail => .data (loadWord ++ (id.cells ++ tail))
  | .leave => .closed

/-- The operand count is one that a `char` holds, and the request fits the
three buffers. -/
def Request.Complete : Request → Prop
  | .save _ expression tail =>
      expression.count ≤ 127 ∧ (expression.encode ++ tail).length ≤ BUF_SIZE
  | .load _ tail => tail.length ≤ BUF_SIZE
  | .leave => True

instance : DecidablePred Request.Complete
  | .save _ _ _ => inferInstanceAs (Decidable (_ ∧ _))
  | .load _ _ => inferInstanceAs (Decidable (_ ≤ _))
  | .leave => inferInstanceAs (Decidable True)

namespace Store

def saved (store : Store) (id : Id) : Store :=
  store.filter fun save => save.1 = id

/-- `"<id>: <text>"`. -/
def recordText (save : Id × List Byte) : List Byte :=
  save.1.letters ++ separator ++ save.2

def texts (store : Store) (id : Id) : List Byte :=
  (store.saved id).flatMap recordText

def apply (store : Store) : Request → Store
  | .save id expression _ => store ++ [(id, expression.line)]
  | .load _ _ | .leave => store

def reply (store : Store) : Request → Option (List Byte)
  | .save _ expression _ => some (Word.toBytes expression.value)
  | .load id _ =>
      some (if store.saved id = [] then notExist else store.texts id)
  | .leave => none

/-- No array of the server overflows in this request. -/
def Admits (store : Store) : Request → Prop
  | .save _ expression _ =>
      expression.line.length + 1 ≤ REQ_SIZE ∧ store.length < DATA_MAX
  | .load id _ => (store.texts id).length + 1 ≤ BUF_SIZE
  | .leave => True

instance (store : Store) : DecidablePred store.Admits
  | .save _ _ _ => inferInstanceAs (Decidable (_ ∧ _))
  | .load _ _ => inferInstanceAs (Decidable (_ ≤ _))
  | .leave => inferInstanceAs (Decidable True)

end Store

/-- No array overflows in a sequence of requests. -/
def WithinBounds : Store → List Request → Prop
  | _, [] => True
  | store, request :: requests =>
      store.Admits request ∧ WithinBounds (store.apply request) requests

instance WithinBounds.decidable :
    (store : Store) → (requests : List Request) →
      Decidable (WithinBounds store requests)
  | _, [] => isTrue trivial
  | store, request :: requests =>
      have := WithinBounds.decidable (store.apply request) requests
      inferInstanceAs (Decidable (_ ∧ _))

/-- What the sockets see when each request is served at once on the map. -/
def conversation : Store → List (Nat × Request) → List Event
  | _, [] => []
  | store, (socket, request) :: requests =>
      .received socket request.result ::
          ((store.reply request).map (Event.sent socket)).toList ++
        conversation (store.apply request) requests

/-! ## Records and entries of the map -/

/-- The record keeps this save. -/
structure RecordOf (record : Data) (save : Id × List Byte) : Prop where
  id : record.id.cells = save.1.cells
  text : record.req.cString? = some save.2

def Represents (dataArray : List Data) (store : Store) : Prop :=
  List.Forall₂ RecordOf dataArray store

theorem cString?_id {id : CArray Byte ID_SIZE} {name : Id}
    (cells : id.cells = name.cells) : id.cString? = some name.letters :=
  CArray.cString?_eq_some.mpr ⟨name.plain, [], cells⟩

theorem Id.ext {first second : Id} (same : first.letters = second.letters) :
    first = second := by
  cases first
  cases second
  cases same
  rfl

theorem collectRecord_eq {id : CArray Byte ID_SIZE} {name : Id}
    (cells : id.cells = name.cells) {result : CArray Byte BUF_SIZE}
    {old : List Byte} (printed : result.cString? = some old)
    {record : Data} {save : Id × List Byte} (holds : RecordOf record save)
    (room : old.length + (Store.texts [save] name).length + 1 ≤ BUF_SIZE) :
    ∃ extended, collectRecord id result record = some extended ∧
      extended.cString? = some (old ++ Store.texts [save] name) := by
  have texts : Store.texts [save] name =
      if name.letters = save.1.letters then Store.recordText save else [] := by
    by_cases same : name.letters = save.1.letters
    · simp [Store.texts, Store.saved, Id.ext same]
    · have different : save.1 ≠ name := fun equal => same (by rw [equal])
      simp [Store.texts, Store.saved, same, different]
  rw [texts] at room ⊢
  refine collectRecord_spec (cString?_id cells) (cString?_id holds.id) holds.text
    printed ?_
  intro same
  rwa [if_pos same] at room

theorem Store.texts_cons (save : Id × List Byte) (store : Store) (id : Id) :
    Store.texts (save :: store) id =
      Store.texts [save] id ++ Store.texts store id := by
  by_cases same : save.1 = id <;> simp [Store.texts, Store.saved, same]

theorem collectRecords_eq {id : CArray Byte ID_SIZE} {name : Id}
    (cells : id.cells = name.cells) {dataArray : List Data} {store : Store}
    (holds : Represents dataArray store) {result : CArray Byte BUF_SIZE}
    {old : List Byte} (printed : result.cString? = some old)
    (room : old.length + (store.texts name).length + 1 ≤ BUF_SIZE) :
    ∃ final, dataArray.foldlM (collectRecord id) result = some final ∧
      final.cString? = some (old ++ store.texts name) := by
  unfold Represents at holds
  induction holds generalizing result old with
  | nil => exact ⟨result, rfl, by simpa [Store.texts, Store.saved] using printed⟩
  | @cons record save dataArray store head tail induction =>
      rw [Store.texts_cons, List.length_append] at room
      obtain ⟨extended, taken, holdsExtended⟩ :=
        collectRecord_eq cells printed head (by omega)
      obtain ⟨final, rest, holdsFinal⟩ := induction holdsExtended
        (by rw [List.length_append]; omega)
      refine ⟨final, ?_, ?_⟩
      · simpa [taken] using rest
      · rw [holdsFinal, List.append_assoc, ← Store.texts_cons]

theorem Store.texts_eq_nil {store : Store} {id : Id} :
    store.texts id = [] ↔ store.saved id = [] := by
  constructor
  · intro empty
    cases saved : store.saved id with
    | nil => rfl
    | cons save saves =>
        simp [Store.texts, saved, Store.recordText, separator] at empty
  · intro empty
    simp [Store.texts, empty]

theorem loadReply_eq {id : CArray Byte ID_SIZE} {name : Id}
    (cells : id.cells = name.cells) {dataArray : List Data} {store : Store}
    (holds : Represents dataArray store)
    (room : (store.texts name).length + 1 ≤ BUF_SIZE) :
    loadReply id dataArray = some
      (if store.saved name = [] then notExist else store.texts name) := by
  have cleared : (CArray.replicate BUF_SIZE 0#8).cString? = some [] :=
    CArray.cString?_replicate_zero (by decide)
  obtain ⟨final, collected, printed⟩ :=
    collectRecords_eq cells holds cleared (by simpa using room)
  simp only [loadReply, collected, printed, List.nil_append,
    Option.bind_eq_bind, Option.bind_some, Store.texts_eq_nil]
  split <;> rfl

/-! ## One request -/

theorem cells_scatter (globals : Globals) {word rest : List Byte} (id : Id)
    (wordLength : word.length = MOD_SIZE) (restLength : rest.length ≤ BUF_SIZE) :
    (globals.scatter (word ++ (id.cells ++ rest))).mode.cells = word ∧
      (globals.scatter (word ++ (id.cells ++ rest))).id.cells = id.cells ∧
      (globals.scatter (word ++ (id.cells ++ rest))).result.cells =
        rest ++ globals.result.cells.drop rest.length := by
  have afterId : (word ++ (id.cells ++ rest)).drop (MOD_SIZE + ID_SIZE) = rest := by
    rw [← List.drop_drop, List.drop_left' wordLength,
      List.drop_left' id.length_cells]
  unfold Globals.scatter
  refine ⟨?_, ?_, ?_⟩
  · rw [List.take_left' wordLength, CArray.cells_fill_full _ wordLength]
  · rw [List.drop_left' wordLength, List.take_left' id.length_cells,
      CArray.cells_fill_full _ id.length_cells]
  · rw [afterId, CArray.cells_fill _ restLength]

theorem expression_scatter_save (globals : Globals) (id : Id)
    {expression : Expression} {tail : List Byte} (small : expression.count ≤ 127)
    (fits : (expression.encode ++ tail).length ≤ BUF_SIZE) :
    (globals.scatter
      (saveWord ++ (id.cells ++ (expression.encode ++ tail)))).expression =
        expression := by
  obtain ⟨_, _, result⟩ := cells_scatter globals id
    (show saveWord.length = MOD_SIZE from rfl) fits
  exact requestedExpression_encode small (by rw [result, List.append_assoc])

theorem Recorded.recordOf {id : Id} {text : List Byte} {record : Data}
    (recorded : Recorded id.letters text record) (plain : 0#8 ∉ text) :
    RecordOf record (id, text) := by
  obtain ⟨_, cells⟩ := CArray.write?_eq_some.mp recorded.id
  constructor
  · rw [cells]
    simp [Id.cells, id.length_letters, Data.zero, ID_SIZE]
  · have copied := CArray.cString?_print recorded.req
    rwa [cString_of_notMem plain] at copied

/-- The sequential service follows the map. -/
theorem serve_represents {globals : Globals} {store : Store}
    (holds : Represents globals.dataArray store) {request : Request}
    (complete : request.Complete) (admitted : store.Admits request) :
    ∃ next response, serve globals request.result = some (next, response) ∧
      response.reply = store.reply request ∧
      Represents next.dataArray (store.apply request) := by
  cases request with
  | leave => exact ⟨globals, _, rfl, rfl, holds⟩
  | load id tail =>
      obtain ⟨mode, idCells, _⟩ := cells_scatter globals id
        (show loadWord.length = MOD_SIZE from rfl) complete
      generalize scattered : globals.scatter (loadWord ++ (id.cells ++ tail)) =
        read at mode idCells
      have records : read.dataArray = globals.dataArray := by
        rw [← scattered]
        rfl
      have chosen : modeOf read.mode = some .load := by
        rw [modeOf_eq, mode, branch_eq_load.mpr rfl]
      have replied := loadReply_eq idCells holds admitted
      refine ⟨read, ⟨.load, store.reply (.load id tail), none⟩, ?_, rfl,
        records ▸ holds⟩
      simp only [serve, Request.result, mode_check, scattered, chosen,
        cString?_id idCells, records, replied, Store.reply, Option.bind_eq_bind,
        Option.bind_some, Option.pure_def]
  | save id expression tail =>
      obtain ⟨small, fitsResult⟩ := complete
      obtain ⟨short, free⟩ := admitted
      obtain ⟨mode, idCells, _⟩ := cells_scatter globals id
        (show saveWord.length = MOD_SIZE from rfl) fitsResult
      have computes := @expression_scatter_save globals id _ tail small fitsResult
      generalize scattered : globals.scatter
        (saveWord ++ (id.cells ++ (expression.encode ++ tail))) = read
        at mode idCells computes
      have records : read.dataArray = globals.dataArray := by
        rw [← scattered]
        rfl
      have room : read.dataArray.length < DATA_MAX := by
        rw [records, holds.length_eq]
        exact free
      obtain ⟨next, record, ran, recorded, added⟩ := mode_check_save_isSome
        (by rw [mode, branch_eq_save.mpr rfl]) (cString?_id idCells)
        (by rwa [computes]) room
      rw [computes] at ran recorded
      refine ⟨next, _, by rw [Request.result, serve, scattered, ran], rfl, ?_⟩
      rw [added, records]
      exact List.rel_append holds
        (.cons (recorded.recordOf expression.zero_notMem_line) .nil)

/-- Serving complete requests in order holds the conversation of the map. -/
theorem serveAll_represents {requests : List (Nat × Request)} {globals : Globals}
    {store : Store} (holds : Represents globals.dataArray store)
    (complete : ∀ request ∈ requests, request.2.Complete)
    (bounds : WithinBounds store (requests.map Prod.snd)) (trace : List Event) :
    ∃ final, (requests.map fun request => (request.1, request.2.result)).foldlM
      serveNext (globals, trace) =
        some (final, trace ++ conversation store requests) := by
  induction requests generalizing globals store trace with
  | nil => exact ⟨globals, by simp [conversation]⟩
  | cons request requests induction =>
      obtain ⟨admitted, later⟩ := bounds
      obtain ⟨next, response, served, reply, nextHolds⟩ :=
        serve_represents holds (complete request (by simp)) admitted
      obtain ⟨final, rest⟩ := induction nextHolds
        (fun other member => complete other (by simp [member])) later
        (trace ++ .received request.1 request.2.result ::
          response.events request.1)
      have first : serveNext (globals, trace) (request.1, request.2.result) =
          some (next, trace ++ .received request.1 request.2.result ::
            response.events request.1) := by
        simp only [serveNext, served, Option.bind_eq_bind, Option.bind_some,
          Option.pure_def]
      refine ⟨final, ?_⟩
      rw [List.map_cons, List.foldlM_cons, first]
      simp only [Option.bind_eq_bind, Option.bind_some, rest]
      simp [conversation, Response.events, reply]

/-! ## Every run -/

theorem servedMode_load (s : System) (id : Id) (tail : List Byte) :
    s.servedMode (Request.load id tail).result = .load :=
  branch_eq_load.mpr (CArray.cells_fill_full _ rfl)

theorem servedMode_save (s : System) (id : Id) (expression : Expression)
    (tail : List Byte) :
    s.servedMode (Request.save id expression tail).result = .save :=
  branch_eq_save.mpr (CArray.cells_fill_full _ rfl)

theorem servedMode_ne_quit (s : System) (request : Request) :
    s.servedMode request.result ≠ .quit := by
  cases request with
  | leave => simp [System.servedMode, Request.result]
  | load id tail => simp [servedMode_load]
  | save id expression tail => simp [servedMode_save]

theorem guarded_of_received {serv_sock : Nat} {actions : List Action}
    {s : System} {requests : List (Nat × Request)}
    (made : received s.trace =
      requests.map fun request => (request.1, request.2.result))
    (reached : run (step serv_sock) (System.initial serv_sock) actions =
      some s) :
    Guarded (step serv_sock) (ServedBeforeQuit serv_sock)
      (System.initial serv_sock) actions := by
  refine guarded_of_noQuit (Guarded.of_forall ?_ _)
  rintro state action member result rfl
  obtain ⟨socket, logged⟩ := (received_run reached).2 result member
  rw [made] at logged
  obtain ⟨request, _, equal⟩ := List.mem_map.mp logged
  cases equal
  exact servedMode_ne_quit state request.2

/-- Every run made of complete saves and loads in which no array overflows does
what the map does: the sockets have seen a part of its conversation, all of it
when the parent is between two requests, and the server gets there by its own
steps, of which there are finitely many. -/
theorem store_refines_map {serv_sock : Nat} {actions : List Action} {s : System}
    {requests : List (Nat × Request)}
    (complete : ∀ request ∈ requests, request.2.Complete)
    (bounds : WithinBounds [] (requests.map Prod.snd))
    (made : received s.trace =
      requests.map fun request => (request.1, request.2.result))
    (reached : run (step serv_sock) (System.initial serv_sock) actions =
      some s) :
    List.IsPrefix s.trace (conversation [] requests) ∧
      (s.Idle → s.trace = conversation [] requests) ∧
      (∃ internal final, (∀ action ∈ internal, Internal action) ∧
        run (step serv_sock) s internal = some final ∧ final.Idle ∧
          final.trace = conversation [] requests) ∧
      ∀ internal final, (∀ action ∈ internal, Internal action) →
        run (step serv_sock) s internal = some final →
          internal.length ≤ s.work := by
  have served := served_run (guarded_of_received made reached) reached
  obtain ⟨globals, ideal⟩ := serveAll_represents
    (show Represents Globals.initial.dataArray [] from .nil) complete bounds []
  rw [← made, List.nil_append] at ideal
  -- At any state that has read these requests, the trace is the conversation
  -- without what `resume` still has to send.
  have split {state : System} (sequential : Sequential state)
      (same : received state.trace = received s.trace) :
      ∃ rest, resume state.point state.i state.globals = some (globals, rest) ∧
        state.trace ++ rest = conversation [] requests := by
    unfold Sequential serveAll at sequential
    rw [same, ideal] at sequential
    obtain ⟨rest, resumed, equal⟩ := Option.map_eq_some_iff.mp sequential.symm
    obtain ⟨sameGlobals, sameTrace⟩ := Prod.mk.inj equal
    exact ⟨rest.2, by rw [resumed, ← sameGlobals], sameTrace⟩
  have whole {state : System} (sequential : Sequential state)
      (same : received state.trace = received s.trace) (idle : state.Idle) :
      state.trace = conversation [] requests := by
    obtain ⟨rest, resumed, equal⟩ := split sequential same
    rw [idle.resume] at resumed
    cases resumed
    simpa using equal
  obtain ⟨rest, resumed, equal⟩ := split served.sequential rfl
  refine ⟨⟨rest, equal⟩, whole served.sequential rfl, ?_, ?_⟩
  · obtain ⟨internal, final, allInternal, taken, servedFinal, same, idle⟩ :=
      request_completes served (by rw [resumed]; rfl)
    exact ⟨internal, final, allInternal, taken, idle,
      whole servedFinal.sequential same idle⟩
  · intro internal final allInternal taken
    have bound := length_le_of_measure
      (fun isInternal lowered => internal_work isInternal lowered)
      allInternal taken
    omega

def savedThenLoaded (id : Id) : List (Nat × Request) :=
  [(8, .save id ⟨1, [(ascii '+', 2)]⟩ []), (9, .load id [])]

/-- A run of these two requests in which the child starts only when the parent
already waits for it. -/
def lateChild (id : Id) : List Action :=
  connectTwice ++ scanTo {8, 9} ++
    (savedThenLoaded id).flatMap (fun request => .readv request.2.result ::
      if request.1 = 8 then [.parent, .parent, .parent, .parent]
      else [.parent, .parent, .child, .child, .child, .child, .child, .parent,
        .parent, .parent])

theorem store_refines_map_lateChild :
    ∃ s, run (step 3) (System.initial 3)
        (lateChild ⟨List.replicate 4 (ascii 'a'), rfl, by decide⟩) = some s ∧
      s.trace = conversation []
        (savedThenLoaded ⟨List.replicate 4 (ascii 'a'), rfl, by decide⟩) := by
  have reached : (run (step 3) (System.initial 3)
      (lateChild ⟨List.replicate 4 (ascii 'a'), rfl, by decide⟩)).any (fun s =>
        s.point = .scan ∧ received s.trace =
          (savedThenLoaded ⟨List.replicate 4 (ascii 'a'), rfl, by decide⟩).map
            fun request => (request.1, request.2.result)) = true := by
    decide +kernel
  obtain ⟨s, ran, facts⟩ := (Option.any_eq_true _ _).mp reached
  obtain ⟨idle, made⟩ := of_decide_eq_true facts
  exact ⟨s, ran, (store_refines_map (by decide +kernel) (by decide +kernel) made
    ran).2.1 (.inr (.inl idle))⟩

end NetworkProgramming.Hw6
