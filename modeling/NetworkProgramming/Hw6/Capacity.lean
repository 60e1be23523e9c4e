import NetworkProgramming.Hw6.Store

/-!
# The arrays of `hw6_server` over whole runs

Neither process compares anything with a bound before it writes into
`dataArray` or appends to `result`.  Whether the writes stay inside depends on
all the requests so far: they do for the requests within bounds, and for other
well-formed requests one of the two processes comes to a write outside.
-/

namespace NetworkProgramming.Hw6

open MachineInt Transition

/-- The next write of a record, in the parent or in the child, is inside
`dataArray`, and the reply to the load that the child reads next is inside
`result` with its NUL. -/
structure System.CapacityKept (s : System) : Prop where
  parent : s.point = .saveRecord → s.globals.dataArray.length < DATA_MAX
  child : s.child.point = .readRecord → s.child.dataArray.length < DATA_MAX
  result : ∀ received rest, s.child.point = .readId →
    Channel.read ID_SIZE s.fdsA = some (received, rest) →
      ∃ reply, loadReply (s.child.id.fill received) s.child.dataArray = some reply

instance (s : System) : Decidable s.CapacityKept :=
  decidable_of_iff
    ((s.point = .saveRecord → s.globals.dataArray.length < DATA_MAX) ∧
      (s.child.point = .readRecord → s.child.dataArray.length < DATA_MAX) ∧
      (s.child.point = .readId → ∀ read ∈ Channel.read ID_SIZE s.fdsA,
        (loadReply (s.child.id.fill read.1) s.child.dataArray).isSome))
    ⟨fun ⟨parent, child, result⟩ => ⟨parent, child, fun _ _ waits read =>
        Option.isSome_iff_exists.mp (result waits _ read)⟩,
      fun kept => ⟨kept.parent, kept.child, fun waits read isRead =>
        Option.isSome_iff_exists.mpr (kept.result read.1 read.2 waits isRead)⟩⟩

/-- The line of a save fits `req`. -/
def Request.Short : Request → Prop
  | .save _ expression _ => expression.line.length + 1 ≤ REQ_SIZE
  | .load _ _ | .leave => True

instance : DecidablePred Request.Short
  | .save _ _ _ => inferInstanceAs (Decidable (_ ≤ _))
  | .load _ _ | .leave => inferInstanceAs (Decidable True)

/-! ## A request that can be finished -/

section defined

variable {serv_sock : Nat} {s : System}

theorem free_of_resume (defined : (resume s.point s.i s.globals).isSome)
    (saving : s.point.openPoint = some .readRecord) :
    s.globals.dataArray.length < DATA_MAX := by
  obtain ⟨rest, resumed⟩ := Option.isSome_iff_exists.mp defined
  cases point : s.point <;> simp [point, ParentPoint.openPoint] at saving
  · simp only [point, resume, Option.bind_eq_bind, Option.bind_eq_some_iff] at resumed
    obtain ⟨computed, calculated, ⟨stored, record⟩, storing, _⟩ := resumed
    rw [← (calculator_frame calculated).2.2.2]
    exact (storeRecord_frame storing).2.2.2
  · simp only [point, resume, Option.bind_eq_bind, Option.bind_eq_some_iff] at resumed
    obtain ⟨⟨stored, record⟩, storing, _⟩ := resumed
    exact (storeRecord_frame storing).2.2.2

/-- While the child is behind, its next slot is one that the parent has
filled. -/
theorem child_free {records : List Data} {others : List Message}
    (stored : s.globals.dataArray = s.child.dataArray ++ records)
    (room : s.globals.dataArray.length ≤ DATA_MAX)
    (defined : (resume s.point s.i s.globals).isSome)
    (noSave : ∀ record, .save record ∉ others)
    (view : ChildAt s.point s.child.point s.fdsA (records.map .save ++ others))
    (waits : s.child.point = .readRecord) :
    s.child.dataArray.length < DATA_MAX := by
  have length := congrArg List.length stored
  rw [List.length_append] at length
  rw [waits] at view
  rcases view.record_underway noSave with behind | saving
  · have := List.length_pos_iff.mpr behind
    omega
  · have := free_of_resume defined saving
    omega

theorem capacityKept_of_resume (held : Served serv_sock s)
    (defined : (resume s.point s.i s.globals).isSome) : s.CapacityKept where
  parent := fun point => free_of_resume defined (by rw [point]; rfl)
  child := by
    intro waits
    cases held.protocol with
    | storing records stored view =>
        exact @child_free _ records [] stored held.room defined (by simp)
          (by simpa using view) waits
    | loading records stored waiting view =>
        exact child_free stored held.room defined (by simp) view waits
    | replying reply stored waiting computed drained underway =>
        rcases underway with ⟨point, _⟩ | ⟨point, _⟩ <;> simp [point] at waits
    | quitting records quits stored view =>
        exact child_free stored held.room defined (by simp) view waits
    | returned stored left => simp [left] at waits
  result := by
    intro received rest waits read
    cases held.protocol with
    | storing records stored view =>
        rw [waits] at view
        obtain ⟨id, later, isLoad, _⟩ := view.load_underway read
        cases records <;> cases isLoad
    | loading records stored waiting view =>
        rw [waiting] at defined
        obtain ⟨⟨_, _⟩, resumed⟩ := Option.isSome_iff_exists.mp defined
        simp only [resume, Option.bind_eq_bind, Option.bind_eq_some_iff] at resumed
        obtain ⟨reply, replied, _⟩ := resumed
        exact ⟨reply, answered_of_replied stored view replied waits read⟩
    | replying reply stored waiting computed drained underway =>
        simp [drained, Channel.read] at read
    | quitting records quits stored view =>
        rw [waits] at view
        obtain ⟨id, later, isLoad, _⟩ := view.load_underway read
        have member : Message.load id ∈
            records.map .save ++ List.replicate quits .quit := by
          simp [isLoad]
        simp at member
    | returned stored left => simp [left] at waits

end defined

/-! ## What is served is within bounds -/

theorem length_of_collectRecord {id : CArray Byte ID_SIZE} {name : Id}
    (cells : id.cells = name.cells) {result extended : CArray Byte BUF_SIZE}
    {old : List Byte} (printed : result.cString? = some old)
    {record : Data} {save : Id × List Byte} (holds : RecordOf record save)
    (collected : collectRecord id result record = some extended) :
    old.length + (Store.texts [save] name).length + 1 ≤ BUF_SIZE := by
  by_cases same : save.1 = name
  · have idCells : id.cells = record.id.cells := by rw [cells, holds.id, same]
    have compared : strEqual id.cells record.id.cells = some true := by
      rw [idCells, holds.id, Id.cells,
        strEqual_terminated save.1.plain save.1.plain [] [], decide_eq_true rfl]
    simp only [collectRecord, compared, cString?_id holds.id, holds.text,
      Option.bind_eq_bind, Option.bind_some, if_true, Option.bind_eq_some_iff]
      at collected
    obtain ⟨loadBuf, loaded, line, isLine, appended⟩ := collected
    have mark : 0#8 ∉ separator := by decide
    have plain : 0#8 ∉ save.1.letters ++ separator ++ save.2 := by
      simp [save.1.plain, mark, CArray.zero_notMem_of_cString? holds.text]
    have copied := CArray.cString?_print loaded
    rw [isLine, cString_of_notMem plain] at copied
    cases copied
    have bound := CArray.length_of_append? printed appended
    simpa [Store.texts, Store.saved, Store.recordText, same] using bound
  · have bound := CArray.length_lt_of_cString? printed
    simpa [Store.texts, Store.saved, same] using bound

theorem length_of_collectRecords {id : CArray Byte ID_SIZE} {name : Id}
    (cells : id.cells = name.cells) {dataArray : List Data} {store : Store}
    (holds : Represents dataArray store) {result final : CArray Byte BUF_SIZE}
    {old : List Byte} (printed : result.cString? = some old)
    (collected : dataArray.foldlM (collectRecord id) result = some final) :
    old.length + (store.texts name).length + 1 ≤ BUF_SIZE := by
  unfold Represents at holds
  induction holds generalizing result old with
  | nil => exact CArray.length_lt_of_cString? printed
  | @cons record save dataArray store head tail induction =>
      simp only [List.foldlM_cons, Option.bind_eq_bind, Option.bind_eq_some_iff]
        at collected
      obtain ⟨extended, taken, rest⟩ := collected
      have room := length_of_collectRecord cells printed head taken
      obtain ⟨_, same, holdsExtended⟩ := collectRecord_eq cells printed head room
      rw [taken] at same
      cases same
      have bound := induction holdsExtended rest
      rw [Store.texts_cons, List.length_append]
      rw [List.length_append] at bound
      omega

theorem admits_of_serve {globals next : Globals} {store : Store}
    (holds : Represents globals.dataArray store) {request : Request}
    (complete : request.Complete) (short : request.Short) {response : Response}
    (served : serve globals request.result = some (next, response)) :
    store.Admits request := by
  cases request with
  | leave => trivial
  | load id tail =>
      obtain ⟨mode, idCells, _⟩ := cells_scatter globals id
        (show loadWord.length = MOD_SIZE from rfl) complete
      simp only [serve, Request.result, mode_check, modeOf_eq, mode,
        branch_eq_load.mpr, Option.bind_eq_bind, Option.bind_some,
        Option.bind_eq_some_iff] at served
      obtain ⟨_, _, reply, replied, _⟩ := served
      simp only [loadReply, Option.bind_eq_bind, Option.bind_eq_some_iff] at replied
      obtain ⟨result, collected, _⟩ := replied
      have cleared : (CArray.replicate BUF_SIZE 0#8).cString? = some [] :=
        CArray.cString?_replicate_zero (by decide)
      simpa [Store.Admits] using length_of_collectRecords idCells holds cleared collected
  | save id expression tail =>
      obtain ⟨mode, _, _⟩ := cells_scatter globals id
        (show saveWord.length = MOD_SIZE from rfl) complete.2
      refine ⟨short, ?_⟩
      simp only [serve, Request.result, mode_check, modeOf_eq, mode,
        branch_eq_save.mpr, Option.bind_eq_bind, Option.bind_some,
        Option.bind_eq_some_iff] at served
      obtain ⟨computed, calculated, ⟨stored, record⟩, storing, _⟩ := served
      have free := (storeRecord_frame storing).2.2.2
      rwa [(calculator_frame calculated).2.2.2, Globals.scatter, holds.length_eq] at free

theorem withinBounds_of_serveAll {requests : List (Nat × Request)}
    {globals : Globals} {store : Store} (holds : Represents globals.dataArray store)
    (wellFormed : ∀ request ∈ requests, request.2.Complete ∧ request.2.Short)
    {trace : List Event}
    (served : ((requests.map fun request => (request.1, request.2.result)).foldlM
      serveNext (globals, trace)).isSome) :
    WithinBounds store (requests.map Prod.snd) := by
  induction requests generalizing globals store trace with
  | nil => trivial
  | cons request requests induction =>
      obtain ⟨complete, short⟩ := wellFormed request (by simp)
      obtain ⟨final, ran⟩ := Option.isSome_iff_exists.mp served
      simp only [List.map_cons, List.foldlM_cons, serveNext, Option.bind_eq_bind,
        Option.bind_eq_some_iff] at ran
      obtain ⟨_, ⟨⟨next, response⟩, taken, first⟩, rest⟩ := ran
      cases first
      have admitted := admits_of_serve holds complete short taken
      obtain ⟨_, _, same, _, nextHolds⟩ := serve_represents holds complete admitted
      rw [taken] at same
      cases same
      exact ⟨admitted, induction nextHolds
        (fun other member => wellFormed other (by simp [member]))
        (Option.isSome_iff_exists.mpr ⟨_, rest⟩)⟩

/-! ## A request that cannot be finished -/

/-- What is left of a save with a terminated id and a line that fits `req`, or of
a load with a terminated id. -/
def System.Tidy (s : System) : Prop :=
  match s.point with
  | .saveMode | .saveReply =>
      0#8 ∈ s.globals.id.cells ∧ s.globals.expression.line.length + 1 ≤ REQ_SIZE
  | .saveRecord =>
      0#8 ∈ s.globals.id.cells ∧ ∃ buf line,
        s.globals.buf.append? (resultText s.globals.opResult) = some buf ∧
          buf.cString? = some line ∧ line.length + 1 ≤ REQ_SIZE
  | .loadMode => 0#8 ∈ s.globals.id.cells
  | _ => True

/-- Only well-formed requests are read. -/
def ReadsWellFormed (_ : System) (action : Action) : Prop :=
  ∀ result, action = .readv result → ∃ request : Request,
    result = request.result ∧ request.Complete ∧ request.Short

section stuck

variable {serv_sock : Nat} {s next : System}

theorem System.Idle.tidy (idle : s.Idle) : s.Tidy := by
  rcases idle with point | point | point <;> simp [System.Tidy, point]

theorem tidy_reads {request : Request} (complete : request.Complete)
    (short : request.Short) (reads : Reads serv_sock s request.result next) :
    next.Tidy := by
  unfold System.Tidy
  rw [reads.point, reads.globals]
  cases request with
  | leave => trivial
  | load id tail =>
      obtain ⟨_, idCells, _⟩ := cells_scatter s.globals id
        (show loadWord.length = MOD_SIZE from rfl) complete
      rw [servedMode_load, entry, Request.result, Globals.receive]
      dsimp only
      rw [idCells]
      simp [Id.cells]
  | save id expression tail =>
      obtain ⟨_, idCells, _⟩ := cells_scatter s.globals id
        (show saveWord.length = MOD_SIZE from rfl) complete.2
      rw [servedMode_save, entry, Request.result, Globals.receive]
      dsimp only
      rw [idCells, expression_scatter_save s.globals id complete.1 complete.2]
      exact ⟨by simp [Id.cells], short⟩

theorem tidy_parent (tidy : s.Tidy) (taken : parentStep serv_sock s = some next) :
    next.Tidy := by
  cases parentStep_moves taken with
  | saveMode point => simpa [System.Tidy, point] using tidy
  | saveReply computed point calculated =>
      obtain ⟨terminated, short⟩ : 0#8 ∈ s.globals.id.cells ∧
          s.globals.expression.line.length + 1 ≤ REQ_SIZE := by
        simpa [System.Tidy, point] using tidy
      obtain ⟨_, buf, same, appended⟩ := line_isSome short
      rw [calculated] at same
      cases same
      obtain ⟨_, holds⟩ := cString?_line calculated appended
      refine ⟨?_, buf, _, appended, holds, short⟩
      rw [(calculator_frame calculated).2.1]
      exact terminated
  | _ => trivial

theorem tidy_step {action : Action} (tidy : s.Tidy)
    (wellFormed : ReadsWellFormed s action)
    (taken : step serv_sock s action = some next) : next.Tidy := by
  cases step_stage taken with
  | scans _ scans => exact scans.after.tidy
  | @reads result _ reads =>
      obtain ⟨request, rfl, complete, short⟩ := wellFormed result rfl
      exact tidy_reads complete short reads
  | parent moved => exact tidy_parent tidy moved
  | child moved =>
      rw [childStep_frame moved]
      exact tidy

/-- Only a write outside the arrays keeps a well-formed request from going on. -/
theorem progress_of_capacityKept (held : Served serv_sock s) (tidy : s.Tidy)
    (kept : s.CapacityKept) (busy : ¬ s.Idle) :
    ∃ action next, Internal action ∧ step serv_sock s action = some next := by
  by_cases defined : (resume s.point s.i s.globals).isSome
  · exact internal_progress held defined busy
  have parent (possible : (parentStep serv_sock s).isSome) :
      ∃ action next, Internal action ∧ step serv_sock s action = some next := by
    obtain ⟨next, taken⟩ := Option.isSome_iff_exists.mp possible
    exact ⟨.parent, next, .inl rfl, taken⟩
  cases point : s.point with
  | saveMode | loadId => exact parent (by simp [parentStep, point])
  | saveReply =>
      obtain ⟨_, short⟩ : _ ∧ s.globals.expression.line.length + 1 ≤ REQ_SIZE := by
        simpa [System.Tidy, point] using tidy
      obtain ⟨computed, _, calculated, _⟩ := line_isSome short
      exact parent (by simp [parentStep, point, calculated])
  | saveRecord =>
      obtain ⟨terminated, buf, line, appended, isLine, fits⟩ :
          0#8 ∈ s.globals.id.cells ∧ ∃ buf line,
            s.globals.buf.append? (resultText s.globals.opResult) = some buf ∧
              buf.cString? = some line ∧ line.length + 1 ≤ REQ_SIZE := by
        simpa [System.Tidy, point] using tidy
      obtain ⟨record, _, storing⟩ := storeRecord_isSome
        (CArray.cString?_of_mem terminated) appended isLine fits (kept.parent point)
      exact parent (by simp [parentStep, point, storing])
  | loadMode =>
      have terminated : 0#8 ∈ s.globals.id.cells := by
        simpa [System.Tidy, point] using tidy
      exact parent (by simp [parentStep, point, CArray.cString?_of_mem terminated])
  | loadWait =>
      cases held.protocol with
      | storing _ _ _ _ notLoading => exact absurd point notLoading
      | quitting _ _ _ _ _ quiet => simp [point, ParentPoint.Quiet] at quiet
      | returned _ _ _ quiet => simp [point, ParentPoint.Quiet] at quiet
      | replying reply _ _ computed => simp [point, resume, computed] at defined
      | loading records stored _ view =>
          obtain ⟨next, taken⟩ :=
            exists_of_loading stored view held.room kept.result
          exact ⟨.child, next, .inr rfl, taken⟩
  | select | scan | exited | quitMode | closeClient | closeServer | loadSend =>
      simp [point, resume] at defined

/-- Whatever the server comes to by itself keeps its writes inside the arrays. -/
def KeepsCapacity (serv_sock : Nat) (s : System) : Prop :=
  ∀ internal final, (∀ action ∈ internal, Internal action) →
    run (step serv_sock) s internal = some final → final.CapacityKept

theorem resume_of_keepsCapacity (held : Served serv_sock s) (tidy : s.Tidy)
    (kept : KeepsCapacity serv_sock s) :
    (resume s.point s.i s.globals).isSome := by
  obtain ⟨_, final, _, _, ⟨servedFinal, _, same, _⟩, idle⟩ :=
    @exists_run_of_measure _ _ (step serv_sock) Internal System.work
      (fun state => Served serv_sock state ∧ state.Tidy ∧
        received state.trace = received s.trace ∧ KeepsCapacity serv_sock state)
      System.Idle (fun isInternal taken => internal_work isInternal taken)
      (by
        intro state held busy
        obtain ⟨served, tidy, same, kept⟩ := held
        obtain ⟨action, next, isInternal, taken⟩ :=
          progress_of_capacityKept served tidy (kept [] state (by simp) rfl) busy
        refine ⟨action, next, isInternal, taken, served_step served ?_ taken,
          tidy_step tidy ?_ taken, (received_internal isInternal taken).trans same, ?_⟩
        · exact isInternal.servedBeforeQuit
        · rintro result rfl
          rcases isInternal with impossible | impossible <;> cases impossible
        · intro internal final allInternal rest
          exact kept (action :: internal) final
            (List.forall_mem_cons.mpr ⟨isInternal, allInternal⟩)
            (run_cons_eq_some.mpr ⟨next, taken, rest⟩))
      s ⟨held, tidy, rfl, kept⟩
  rw [← held.sequential.isSome, ← same, servedFinal.sequential.isSome, idle.resume]
  rfl

theorem keepsCapacity_of_resume (held : Served serv_sock s)
    (defined : (resume s.point s.i s.globals).isSome) :
    KeepsCapacity serv_sock s := by
  intro internal final allInternal taken
  obtain ⟨served, resumed⟩ := run_invariant
    (fun state => Served serv_sock state ∧
      (resume state.point state.i state.globals).isSome)
    (fun held isInternal taken =>
      have ⟨served, _, resumed⟩ := internal_step held.1 held.2 isInternal taken
      ⟨served, resumed⟩)
    ⟨held, defined⟩ (Guarded.of_forall (fun _ => allInternal) s) taken
  exact capacityKept_of_resume served resumed

end stuck

/-- Every run of well-formed requests, with whatever the server then does by
itself, writes inside the arrays exactly when the requests are within bounds. -/
theorem capacity_kept_iff {serv_sock : Nat} {actions : List Action} {s : System}
    {requests : List (Nat × Request)}
    (wellFormed : ∀ request ∈ requests, request.2.Complete ∧ request.2.Short)
    (made : received s.trace =
      requests.map fun request => (request.1, request.2.result))
    (reached : run (step serv_sock) (System.initial serv_sock) actions =
      some s) :
    KeepsCapacity serv_sock s ↔ WithinBounds [] (requests.map Prod.snd) := by
  have served := served_run (guarded_of_received made reached) reached
  have start : Represents Globals.initial.dataArray [] := .nil
  have finishes := served.sequential.isSome
  rw [made, serveAll] at finishes
  constructor
  · intro kept
    have tidy : s.Tidy := by
      refine run_invariant System.Tidy tidy_step (System.Idle.tidy (.inl rfl))
        (Guarded.of_forall ?_ _) reached
      rintro state action member result rfl
      obtain ⟨socket, logged⟩ := (received_run reached).2 result member
      rw [made] at logged
      obtain ⟨request, isRequest, equal⟩ := List.mem_map.mp logged
      cases equal
      exact ⟨request.2, rfl, wellFormed request isRequest⟩
    exact withinBounds_of_serveAll start wellFormed
      (finishes.trans (resume_of_keepsCapacity served tidy kept))
  · intro bounds
    obtain ⟨globals, ideal⟩ := serveAll_represents start
      (fun request member => (wellFormed request member).1) bounds []
    exact keepsCapacity_of_resume served (by rw [← finishes, ideal]; rfl)

theorem capacity_kept_iff_savedThenLoaded :
    ∃ s, run (step 3) (System.initial 3)
        (lateChild fourLetters) = some s ∧ KeepsCapacity 3 s := by
  have reached : (run (step 3) (System.initial 3) (lateChild fourLetters)).any
      (fun s => received s.trace = (savedThenLoaded fourLetters).map
        fun request => (request.1, request.2.result)) = true := by
    decide +kernel
  obtain ⟨s, ran, made⟩ := (Option.any_eq_true _ _).mp reached
  exact ⟨s, ran, (capacity_kept_iff (by decide +kernel) (of_decide_eq_true made)
    ran).mpr (by decide +kernel)⟩

/-- A client connects on descriptor 8 and sends its request. -/
def connectWith (request : Request) : List Action :=
  connect 8 ++ scanTo {8} ++ [.readv request.result]

/-- It is served to its end, and the child follows. -/
def saveWith (request : Request) : List Action :=
  connectWith request ++
    [.parent, .child, .parent, .parent, .child, .parent, .skip]

/-- Behind the saves `before`, the parts `steps` of `last` lead to a write outside
the arrays. -/
def Exceeded (before : List Request) (last : Request) (steps : List Action) : Prop :=
  (∀ request ∈ before ++ [last], request.Complete ∧ request.Short) ∧
    ∃ s, run (step 3) (System.initial 3)
        (before.flatMap saveWith ++ connectWith last ++ steps) = some s ∧
      received s.trace = (before ++ [last]).map (fun request => (8, request.result)) ∧
        ¬ s.CapacityKept

/-- The 101st save of `2=2` is written behind `dataArray`, and ten lines of 98
characters saved under one id do not fit `result`. -/
theorem capacity_exceeded :
    Exceeded
        (List.replicate 100 (.save fourLetters ⟨2, []⟩ []))
        (.save fourLetters ⟨2, []⟩ []) [.parent, .parent] ∧
      Exceeded
        (List.replicate 10 (.save fourLetters
          ⟨-2147483648#32, List.replicate 7 (ascii '*', -2147483648#32)⟩ []))
        (.load fourLetters []) [.parent, .parent, .child] := by
  have exceeded {before : List Request} {last : Request} {steps : List Action}
      (wellFormed : ∀ request ∈ before ++ [last], request.Complete ∧ request.Short)
      (reached : (run (step 3) (System.initial 3)
        (before.flatMap saveWith ++ connectWith last ++ steps)).any (fun s =>
          received s.trace = (before ++ [last]).map (fun request =>
            (8, request.result)) ∧ ¬ s.CapacityKept) = true) :
      Exceeded before last steps := by
    obtain ⟨s, ran, facts⟩ := (Option.any_eq_true _ _).mp reached
    exact ⟨wellFormed, s, ran, of_decide_eq_true facts⟩
  exact ⟨exceeded (by decide +kernel) (by decide +kernel),
    exceeded (by decide +kernel) (by decide +kernel)⟩

end NetworkProgramming.Hw6
