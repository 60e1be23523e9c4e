import NetworkProgramming.Hw6.Service

/-!
# What a request inherits from earlier clients

The globals of the parent are refilled only as far as `readv` reached.  A
request is isolated when what it gets and stores depends on its own bytes and
on the stored records alone.  This is so exactly for the requests that bring
everything their branch looks at: the mode word, a terminated id and, for a
save, a positive count with all operands and operators.
-/

namespace NetworkProgramming.Hw6

open MachineInt Transition

/-- A result that `readv` can have for the bytes of `vec`. -/
def ReadResult.Valid : ReadResult → Prop
  | .data bytes => 0 < bytes.length ∧
      bytes.length ≤ MOD_SIZE + ID_SIZE + BUF_SIZE
  | .closed | .failed => True

/-- The globals that earlier connections can leave while the child still
serves. -/
inductive History : Globals → Prop where
  | start : History Globals.initial
  | next {globals after : Globals} {result : ReadResult} {response : Response}
      (earlier : History globals) (valid : result.Valid)
      (served : serve globals result = some (after, response))
      (serving : response.mode ≠ .quit) : History after

/-- The stored records leave room: one more fits, and the reply to a load of
any id does. -/
structure Room (dataArray : List Data) : Prop where
  free : dataArray.length < DATA_MAX
  replies : ∀ id : CArray Byte ID_SIZE, 0#8 ∈ id.cells →
    ∃ reply, loadReply id dataArray = some reply

/-- Any two histories with the same records lead to the same branch, reply and
record. -/
def Isolated (bytes : List Byte) : Prop :=
  ∀ first second, History first → History second →
    first.dataArray = second.dataArray → Room first.dataArray →
      ∃ response firstNext secondNext,
        serve first (.data bytes) = some (firstNext, response) ∧
          serve second (.data bytes) = some (secondNext, response)

def idPart (bytes : List Byte) : List Byte := (bytes.drop MOD_SIZE).take ID_SIZE

/-- The bytes of the request that go to `result`. -/
def resultPart (bytes : List Byte) : List Byte := bytes.drop (MOD_SIZE + ID_SIZE)

/-- A save that brings its whole formula, short enough for `req`. -/
def WholeSave (bytes : List Byte) : Prop :=
  ∃ opCount : Byte, (resultPart bytes)[0]? = some opCount ∧
    0 < opCount.toInt ∧ 5 * opCount.toInt.toNat ≤ (resultPart bytes).length ∧
      (decodeExpression (resultPart bytes) opCount.toInt.toNat).line.length + 1 ≤
        REQ_SIZE

/-- The request brings everything its branch looks at. -/
def Determined (bytes : List Byte) : Prop :=
  if bytes.length < MOD_SIZE then
    ¬ (List.IsPrefix bytes saveWord ∨ List.IsPrefix bytes loadWord ∨
      List.IsPrefix bytes quitWord)
  else
    match branch (bytes.take MOD_SIZE) with
    | .save => 0#8 ∈ idPart bytes ∧ WholeSave bytes
    | .load => 0#8 ∈ idPart bytes
    | .quit | .unknown => True

/-! ## Histories are what runs leave -/

theorem mode_check_mode {globals next : Globals} {response : Response}
    (ran : mode_check globals = some (next, response)) :
    response.mode = branch globals.mode.cells := by
  simp only [mode_check, modeOf_eq, Option.bind_eq_bind, Option.bind_some] at ran
  cases taken : branch globals.mode.cells <;>
    simp only [taken, Option.bind_eq_some_iff] at ran
  · obtain ⟨_, _, _, _, final⟩ := ran
    cases final
    rfl
  · obtain ⟨_, _, _, _, final⟩ := ran
    cases final
    rfl
  · cases ran
    rfl
  · cases ran
    rfl

theorem serve_mode {s : System} {next : Globals} {result : ReadResult}
    {response : Response} (served : serve s.globals result = some (next, response)) :
    response.mode = s.servedMode result := by
  cases result with
  | closed =>
      cases served
      rfl
  | data bytes => exact mode_check_mode served
  | failed => exact mode_check_mode served

/-- When the current request of a run is done, its globals have a history. -/
def HistoryAhead (s : System) : Prop :=
  ∀ globals rest, resume s.point s.i s.globals = some (globals, rest) →
    History globals

section runs

variable {serv_sock : Nat} {s next : System}

theorem historyAhead_reads {result : ReadResult} (held : HistoryAhead s)
    (reads : Reads serv_sock s result next) (valid : result.Valid)
    (noQuit : s.servedMode result ≠ .quit) : HistoryAhead next := by
  have idle : s.Idle := .inr (.inl reads.before)
  intro globals rest resumed
  rw [reads.resume, ← serve_events] at resumed
  obtain ⟨⟨after, response⟩, served, equal⟩ := Option.map_eq_some_iff.mp resumed
  cases equal
  exact .next (held _ _ (idle.resume s.i s.globals)) valid served
    (serve_mode served ▸ noQuit)

theorem valid_of_step {result : ReadResult}
    (taken : step serv_sock s (.readv result) = some next) : result.Valid := by
  cases step_moves taken with
  | closed => trivial
  | readv _ _ _ _ canRead =>
      cases result with
      | data bytes => exact canRead.2
      | closed => trivial
      | failed => trivial

theorem historyAhead_scans (held : HistoryAhead s)
    (scans : Scans serv_sock s next) : HistoryAhead next := by
  intro globals rest resumed
  rw [scans.after.resume, scans.globals] at resumed
  cases resumed
  exact held _ _ (scans.before.resume s.i s.globals)

theorem historyAhead_step {action : Action} (held : HistoryAhead s)
    (protocol : Protocol serv_sock s) (noQuit : NoQuit s action)
    (taken : step serv_sock s action = some next) : HistoryAhead next := by
  cases step_stage taken with
  | scans _ scans => exact historyAhead_scans held scans
  | reads reads =>
      exact historyAhead_reads held reads (valid_of_step taken) (noQuit _ rfl)
  | parent moved =>
      obtain ⟨sent, _, _, resumed⟩ := resume_parent protocol moved
      intro globals rest ahead
      exact held globals (sent ++ rest) (by rw [resumed, ahead]; rfl)
  | child moved =>
      rw [childStep_frame moved]
      exact held

theorem history_of_run {actions : List Action}
    (guarded : Guarded (step serv_sock) NoQuit (System.initial serv_sock) actions)
    (reached : run (step serv_sock) (System.initial serv_sock) actions = some s)
    (idle : s.Idle) : History s.globals := by
  have all : Served serv_sock s ∧ Listening serv_sock s ∧ HistoryAhead s := by
    refine run_invariant
      (fun s => Served serv_sock s ∧ Listening serv_sock s ∧ HistoryAhead s) ?_
      ⟨served_initial serv_sock, listening_initial serv_sock, ?_⟩ guarded reached
    · intro state action next held noQuit taken
      obtain ⟨served, listening, ahead⟩ := held
      exact ⟨served_step served (fun _ _ _ => listening.isOpen) taken,
        listening_step listening noQuit taken,
        historyAhead_step ahead served.protocol noQuit taken⟩
    · intro globals rest resumed
      cases resumed
      exact .start
  exact all.2.2 _ _ (idle.resume s.i s.globals)

end runs

/-! ## What is determined is isolated -/

section sufficient

variable {bytes : List Byte} {globals : Globals}

theorem cells_scatter_mode (enough : MOD_SIZE ≤ bytes.length) :
    (globals.scatter bytes).mode.cells = bytes.take MOD_SIZE :=
  CArray.cells_fill_full _ (by simpa using enough)

theorem cells_scatter_short (short : bytes.length < MOD_SIZE) :
    (globals.scatter bytes).mode.cells =
      bytes ++ globals.mode.cells.drop bytes.length := by
  have whole : bytes.take MOD_SIZE = bytes :=
    List.take_of_length_le (Nat.le_of_lt short)
  unfold Globals.scatter
  rw [whole, CArray.cells_fill _ (Nat.le_of_lt short)]

theorem length_idPart : (idPart bytes).length ≤ ID_SIZE := by
  simp only [idPart, List.length_take]
  exact Nat.min_le_left _ _

theorem cells_scatter_id :
    (globals.scatter bytes).id.cells =
      idPart bytes ++ globals.id.cells.drop (idPart bytes).length :=
  CArray.cells_fill _ length_idPart

theorem cString?_scatter_id (terminated : 0#8 ∈ idPart bytes) :
    (globals.scatter bytes).id.cString? = some (cString (idPart bytes)) :=
  CArray.cString?_fill _ length_idPart terminated

theorem length_resultPart
    (bound : bytes.length ≤ MOD_SIZE + ID_SIZE + BUF_SIZE) :
    (resultPart bytes).length ≤ BUF_SIZE := by
  simp only [resultPart, List.length_drop]
  omega

theorem cells_scatter_result
    (bound : bytes.length ≤ MOD_SIZE + ID_SIZE + BUF_SIZE) :
    (globals.scatter bytes).result.cells =
      resultPart bytes ++ globals.result.cells.drop (resultPart bytes).length :=
  CArray.cells_fill _ (length_resultPart bound)

theorem expression_scatter
    (bound : bytes.length ≤ MOD_SIZE + ID_SIZE + BUF_SIZE) {opCount : Byte}
    (head : (resultPart bytes)[0]? = some opCount) :
    (globals.scatter bytes).expression =
      if 0 < opCount.toInt then
        decodeExpression (resultPart bytes ++
          globals.result.cells.drop (resultPart bytes).length)
            opCount.toInt.toNat
      else ⟨globals.operand.cells.getD 0 0, []⟩ := by
  have first : (resultPart bytes ++
      globals.result.cells.drop (resultPart bytes).length).getD 0 0#8 =
        opCount := by
    obtain ⟨inside, _⟩ := List.getElem?_eq_some_iff.mp head
    rw [List.getD_eq_getElem?_getD, List.getElem?_append_left inside, head,
      Option.getD_some]
  simp only [Globals.expression, requestedExpression, cells_scatter_result bound,
    first]
  rfl

theorem loadReply_congr {first second : CArray Byte ID_SIZE}
    {name firstRest secondRest : List Byte} (terminated : 0#8 ∈ name)
    (left : first.cells = name ++ firstRest)
    (right : second.cells = name ++ secondRest) (dataArray : List Data) :
    loadReply first dataArray = loadReply second dataArray := by
  have collect : collectRecord first = collectRecord second := by
    funext result record
    unfold collectRecord
    rw [left, right, strEqual_append terminated, strEqual_append terminated]
  unfold loadReply
  rw [collect]

theorem mode_check_silent
    (silent : branch globals.mode.cells = .quit ∨
      branch globals.mode.cells = .unknown) :
    mode_check globals =
      some (globals, ⟨branch globals.mode.cells, none, none⟩) := by
  rcases silent with mode | mode <;>
    simp [mode_check, modeOf_eq, mode]

theorem mode_check_load {name reply : List Byte}
    (loads : branch globals.mode.cells = .load)
    (isName : globals.id.cString? = some name)
    (replied : loadReply globals.id globals.dataArray = some reply) :
    mode_check globals = some (globals, ⟨.load, some reply, none⟩) := by
  simp [mode_check, modeOf_eq, loads, isName, replied]

theorem branch_append_unknown {rest : List Byte}
    (noWord : ¬ (List.IsPrefix bytes saveWord ∨ List.IsPrefix bytes loadWord ∨
      List.IsPrefix bytes quitWord)) : branch (bytes ++ rest) = .unknown := by
  have front : List.IsPrefix bytes (bytes ++ rest) := List.prefix_append _ _
  cases taken : branch (bytes ++ rest) with
  | save => exact absurd (.inl (branch_eq_save.mp taken ▸ front)) noWord
  | load => exact absurd (.inr (.inl (branch_eq_load.mp taken ▸ front))) noWord
  | quit => exact absurd (.inr (.inr (branch_eq_quit.mp taken ▸ front))) noWord
  | unknown => rfl

theorem serve_wholeSave
    (bound : bytes.length ≤ MOD_SIZE + ID_SIZE + BUF_SIZE)
    (saves : branch (globals.scatter bytes).mode.cells = .save)
    (terminated : 0#8 ∈ idPart bytes) {opCount : Byte}
    (head : (resultPart bytes)[0]? = some opCount)
    (positive : 0 < opCount.toInt)
    (complete : 5 * opCount.toInt.toNat ≤ (resultPart bytes).length)
    (short : (decodeExpression (resultPart bytes)
      opCount.toInt.toNat).line.length + 1 ≤ REQ_SIZE)
    (free : globals.dataArray.length < DATA_MAX) :
    ∃ next record,
      serve globals (.data bytes) = some (next,
        ⟨.save, some (Word.toBytes (decodeExpression (resultPart bytes)
          opCount.toInt.toNat).value), some record⟩) ∧
      Recorded (cString (idPart bytes)) (decodeExpression (resultPart bytes)
        opCount.toInt.toNat).line record := by
  have computes : (globals.scatter bytes).expression =
      decodeExpression (resultPart bytes) opCount.toInt.toNat := by
    rw [expression_scatter bound head, if_pos positive,
      decodeExpression_append (by omega) complete]
  obtain ⟨next, record, ran, recorded, _⟩ := mode_check_save_isSome saves
    (cString?_scatter_id terminated) (by rwa [computes]) free
  rw [computes] at ran recorded
  exact ⟨next, record, ran, recorded⟩

theorem isolated_of_determined
    (bound : bytes.length ≤ MOD_SIZE + ID_SIZE + BUF_SIZE)
    (determined : Determined bytes) : Isolated bytes := by
  intro first second _ _ records room
  unfold Determined at determined
  split at determined <;> rename_i length
  · have mode (globals : Globals) :
        branch (globals.scatter bytes).mode.cells = .unknown := by
      rw [cells_scatter_short length, branch_append_unknown determined]
    have silent (globals : Globals) :=
      mode_check_silent (.inr (mode globals))
    simp only [mode] at silent
    exact ⟨_, _, _, silent first, silent second⟩
  · have enough : MOD_SIZE ≤ bytes.length := Nat.le_of_not_lt length
    have mode (globals : Globals) :
        branch (globals.scatter bytes).mode.cells =
          branch (bytes.take MOD_SIZE) := by rw [cells_scatter_mode enough]
    cases taken : branch (bytes.take MOD_SIZE) with
    | save =>
        simp only [taken] at determined
        obtain ⟨terminated, whole⟩ := determined
        obtain ⟨opCount, head, positive, complete, short⟩ := whole
        obtain ⟨firstNext, firstRecord, firstServed, firstRecorded⟩ :=
          serve_wholeSave bound ((mode first).trans taken) terminated head
            positive complete short room.free
        obtain ⟨secondNext, secondRecord, secondServed, secondRecorded⟩ :=
          serve_wholeSave bound ((mode second).trans taken) terminated head
            positive complete short (records ▸ room.free)
        obtain rfl := firstRecorded.unique secondRecorded
        exact ⟨_, firstNext, secondNext, firstServed, secondServed⟩
    | load =>
        simp only [taken] at determined
        obtain ⟨reply, replied⟩ := room.replies (first.scatter bytes).id (by
          rw [cells_scatter_id]
          exact List.mem_append_left _ determined)
        have other : loadReply (second.scatter bytes).id second.dataArray =
            some reply := by
          rw [← records, ← replied]
          exact loadReply_congr determined cells_scatter_id cells_scatter_id _
        have isName := @cString?_scatter_id bytes
        exact ⟨_, _, _,
          mode_check_load ((mode first).trans taken) (isName determined) replied,
          mode_check_load ((mode second).trans taken) (isName determined) other⟩
    | quit =>
        have silent (globals : Globals) :=
          mode_check_silent (.inl ((mode globals).trans taken))
        simp only [mode, taken] at silent
        exact ⟨_, _, _, silent first, silent second⟩
    | unknown =>
        have silent (globals : Globals) :=
          mode_check_silent (.inr ((mode globals).trans taken))
        simp only [mode, taken] at silent
        exact ⟨_, _, _, silent first, silent second⟩

end sufficient

/-! ## What is isolated is determined -/

theorem room_nil : Room [] where
  free := by decide
  replies := by
    intro id _
    refine ⟨notExist, ?_⟩
    have cleared : (CArray.replicate BUF_SIZE 0#8).cString? = some [] :=
      CArray.cString?_replicate_zero (by decide)
    simp [loadReply, cleared]

/-- An earlier client that saved nothing has left these bytes. -/
structure Primed (word id result : List Byte) (globals : Globals) : Prop where
  history : History globals
  mode : globals.mode.cells = word
  id : globals.id.cells = id
  result : globals.result.cells = result
  dataArray : globals.dataArray = []

theorem exists_primed {word id result : List Byte}
    (wordLength : word.length = MOD_SIZE) (idLength : id.length = ID_SIZE)
    (resultLength : result.length = BUF_SIZE) (unknown : branch word = .unknown) :
    ∃ globals, Primed word id result globals := by
  have bytesLength : (word ++ (id ++ result)).length =
      MOD_SIZE + ID_SIZE + BUF_SIZE := by
    simp only [List.length_append, wordLength, idLength, resultLength]
    omega
  have positive : 0 < MOD_SIZE := by decide
  have mode : (Globals.initial.scatter (word ++ (id ++ result))).mode.cells =
      word := by
    rw [cells_scatter_mode (by omega), List.take_left' wordLength]
  have idCells : idPart (word ++ (id ++ result)) = id := by
    rw [idPart, List.drop_left' wordLength, List.take_left' idLength]
  have resultCells : resultPart (word ++ (id ++ result)) = result := by
    rw [resultPart, ← List.drop_drop, List.drop_left' wordLength,
      List.drop_left' idLength]
  have valid : (ReadResult.data (word ++ (id ++ result))).Valid :=
    ⟨by omega, by omega⟩
  have served : serve Globals.initial (.data (word ++ (id ++ result))) =
      some (Globals.initial.scatter (word ++ (id ++ result)),
        ⟨.unknown, none, none⟩) := by
    have silent := @mode_check_silent
      (Globals.initial.scatter (word ++ (id ++ result)))
      (.inr (by rw [mode, unknown]))
    rwa [mode, unknown] at silent
  refine ⟨Globals.initial.scatter (word ++ (id ++ result)),
    .next .start valid served (by simp), mode, ?_, ?_, rfl⟩
  · rw [cells_scatter_id, idCells, List.drop_of_length_le]
    · simp
    · rw [idLength]
      exact (Globals.initial.id.length_cells).le
  · rw [cells_scatter_result (by omega), resultCells, List.drop_of_length_le]
    · simp
    · rw [resultLength]
      exact (Globals.initial.result.length_cells).le

section necessary

variable {bytes word id result otherWord otherId otherResult : List Byte}
  {first second : Globals}

theorem Isolated.primed (isolated : Isolated bytes)
    (left : Primed word id result first)
    (right : Primed otherWord otherId otherResult second) :
    ∃ response firstNext secondNext,
      mode_check (first.scatter bytes) = some (firstNext, response) ∧
        mode_check (second.scatter bytes) = some (secondNext, response) :=
  isolated first second left.history right.history
    (left.dataArray.trans right.dataArray.symm) (left.dataArray ▸ room_nil)

/-- A short request that begins a word is completed by the old mode. -/
theorem Isolated.noWord (isolated : Isolated bytes) (nonempty : 0 < bytes.length)
    (short : bytes.length < MOD_SIZE) :
    ¬ (List.IsPrefix bytes saveWord ∨ List.IsPrefix bytes loadWord ∨
      List.IsPrefix bytes quitWord) := by
  intro begins
  have completed : ∀ length < MOD_SIZE, 0 < length →
      ∀ word ∈ [saveWord, loadWord, quitWord],
        branch (word.take length ++ (ascii 'x' :: word.tail).drop length) ≠
            .unknown ∧
          branch (word.take length ++
            (List.replicate MOD_SIZE (ascii 'x')).drop length) = .unknown ∧
          branch (ascii 'x' :: word.tail) = .unknown ∧
          word.length = MOD_SIZE := by
    decide
  obtain ⟨word, isWord, start⟩ : ∃ word ∈ [saveWord, loadWord, quitWord],
      word.take bytes.length = bytes := by
    rcases begins with begins | begins | begins <;>
      exact ⟨_, by simp, (List.prefix_iff_eq_take.mp begins).symm⟩
  obtain ⟨known, unknown, past, wordLength⟩ :=
    completed bytes.length short nonempty word isWord
  obtain ⟨first, left⟩ := @exists_primed (ascii 'x' :: word.tail)
    (List.replicate ID_SIZE 0#8) (List.replicate BUF_SIZE 0#8)
    (by simp [wordLength, MOD_SIZE]) (by simp) (by simp) past
  obtain ⟨second, right⟩ := @exists_primed (List.replicate MOD_SIZE (ascii 'x'))
    (List.replicate ID_SIZE 0#8) (List.replicate BUF_SIZE 0#8)
    (by simp) (by simp) (by simp) (by decide)
  obtain ⟨response, firstNext, secondNext, firstRan, secondRan⟩ :=
    isolated.primed left right
  have same := (mode_check_mode firstRan).symm.trans (mode_check_mode secondRan)
  rw [cells_scatter_short short, cells_scatter_short short, left.mode,
    right.mode, ← start, List.length_take, Nat.min_eq_left (by omega),
    unknown] at same
  exact known same

theorem mode_check_load_id {globals next : Globals} {response : Response}
    (loads : branch globals.mode.cells = .load)
    (ran : mode_check globals = some (next, response)) :
    ∃ name, globals.id.cString? = some name := by
  simp only [mode_check, modeOf_eq, loads, Option.bind_eq_bind,
    Option.bind_some, Option.bind_eq_some_iff] at ran
  obtain ⟨name, isName, _⟩ := ran
  exact ⟨name, isName⟩

/-- A save or load without the NUL of its id runs into the old one. -/
theorem Isolated.terminated (isolated : Isolated bytes)
    (enough : MOD_SIZE ≤ bytes.length)
    (reads : branch (bytes.take MOD_SIZE) = .save ∨
      branch (bytes.take MOD_SIZE) = .load) : 0#8 ∈ idPart bytes := by
  obtain ⟨globals, past⟩ := @exists_primed (List.replicate MOD_SIZE (ascii 'x'))
    (List.replicate ID_SIZE (ascii 'x')) (List.replicate BUF_SIZE 0#8)
    (by simp) (by simp) (by simp) (by decide)
  obtain ⟨response, next, _, ran, _⟩ := isolated.primed past past
  have isName : ∃ name, (globals.scatter bytes).id.cString? = some name := by
    rcases reads with saves | loads
    · obtain ⟨name, _, isName, _⟩ :=
        mode_check_save (by rw [cells_scatter_mode enough, saves]) ran
      exact ⟨name, isName⟩
    · exact mode_check_load_id (by rw [cells_scatter_mode enough, loads]) ran
  obtain ⟨name, isName⟩ := isName
  have terminated := CArray.zero_mem_of_cString? isName
  rw [cells_scatter_id, past.id, List.mem_append] at terminated
  rcases terminated with own | old
  · exact own
  · have letter := List.eq_of_mem_replicate (List.mem_of_mem_drop old)
    exact absurd letter (by decide)

theorem same_save {globals other next otherNext : Globals} {response : Response}
    (saves : branch globals.mode.cells = .save)
    (otherSaves : branch other.mode.cells = .save)
    (ran : mode_check globals = some (next, response))
    (otherRan : mode_check other = some (otherNext, response)) :
    globals.expression.value = other.expression.value ∧
      globals.expression.line = other.expression.line ∧
      globals.expression.line.length + 1 ≤ REQ_SIZE := by
  obtain ⟨_, record, _, recorded, shape⟩ := mode_check_save saves ran
  obtain ⟨_, otherRecord, _, otherRecorded, otherShape⟩ :=
    mode_check_save otherSaves otherRan
  rw [shape] at otherShape
  simp only [Response.mk.injEq, Option.some.injEq, true_and] at otherShape
  obtain ⟨reply, rfl⟩ := otherShape
  have line := CArray.cString?_print recorded.req
  have otherLine := CArray.cString?_print otherRecorded.req
  rw [line, cString_of_notMem globals.expression.zero_notMem_line,
    cString_of_notMem other.expression.zero_notMem_line] at otherLine
  exact ⟨Word.toBytes_injective reply, Option.some.inj otherLine,
    CArray.length_of_print? recorded.req⟩

theorem Isolated.same_result (isolated : Isolated bytes)
    (enough : MOD_SIZE ≤ bytes.length)
    (saves : branch (bytes.take MOD_SIZE) = .save)
    (resultLength : result.length = BUF_SIZE)
    (otherLength : otherResult.length = BUF_SIZE) :
    ∃ first second : Globals, first.result.cells = result ∧
      second.result.cells = otherResult ∧
      (first.scatter bytes).expression.value =
        (second.scatter bytes).expression.value ∧
      (first.scatter bytes).expression.line =
        (second.scatter bytes).expression.line ∧
      (first.scatter bytes).expression.line.length + 1 ≤ REQ_SIZE := by
  obtain ⟨first, left⟩ := @exists_primed (List.replicate MOD_SIZE (ascii 'x'))
    (List.replicate ID_SIZE 0#8) result (by simp) (by simp) resultLength
    (by decide)
  obtain ⟨second, right⟩ := @exists_primed (List.replicate MOD_SIZE (ascii 'x'))
    (List.replicate ID_SIZE 0#8) otherResult (by simp) (by simp) otherLength
    (by decide)
  obtain ⟨response, firstNext, secondNext, firstRan, secondRan⟩ :=
    isolated.primed left right
  exact ⟨first, second, left.result, right.result,
    same_save (by rw [cells_scatter_mode enough, saves])
      (by rw [cells_scatter_mode enough, saves]) firstRan secondRan⟩

/-- A save without its count byte computes what an earlier client sent. -/
theorem Isolated.counted (isolated : Isolated bytes)
    (bound : bytes.length ≤ MOD_SIZE + ID_SIZE + BUF_SIZE)
    (enough : MOD_SIZE ≤ bytes.length)
    (saves : branch (bytes.take MOD_SIZE) = .save) :
    ∃ opCount, (resultPart bytes)[0]? = some opCount := by
  cases head : (resultPart bytes)[0]? with
  | some opCount => exact ⟨opCount, rfl⟩
  | none =>
      have empty : resultPart bytes = [] := by simpa using head
      obtain ⟨first, second, left, right, value, _⟩ := @Isolated.same_result bytes
        (1#8 :: List.replicate 1023 0#8)
        (1#8 :: 1#8 :: List.replicate 1022 0#8) isolated enough saves
        (by rw [List.length_cons, List.length_replicate, BUF_SIZE])
        (by rw [List.length_cons, List.length_cons, List.length_replicate, BUF_SIZE])
      have firstCells := @cells_scatter_result bytes first bound
      have secondCells := @cells_scatter_result bytes second bound
      rw [empty, left] at firstCells
      rw [empty, right] at secondCells
      have values : (decodeExpression (1#8 :: List.replicate 1023 0#8) 1).value ≠
          (decodeExpression (1#8 :: 1#8 :: List.replicate 1022 0#8) 1).value := by
        decide +kernel
      simp only [Globals.expression, requestedExpression, firstCells, secondCells,
        List.length_nil, List.drop_zero, List.nil_append, List.getD_cons_zero] at value
      exact absurd value values

def staleSave (expression : Expression) : List Byte :=
  saveWord ++ (List.replicate ID_SIZE 0#8 ++ expression.encode)

def staleRecord : Data where
  id := CArray.replicate ID_SIZE 0#8
  req := ⟨[ascii '1', ascii '2', ascii '0', ascii '*', ascii '0', ascii '=',
    ascii '0', ascii '\n'] ++ List.replicate 92 0#8, rfl⟩

theorem exists_stale {expression : Expression} {operand : Word}
    (small : (staleSave expression).length ≤ MOD_SIZE + ID_SIZE + BUF_SIZE)
    (saved : (serve Globals.initial (.data (staleSave expression))).any
      (fun served => served.2.mode = .save ∧
        served.1.dataArray = [staleRecord] ∧
          served.1.operand.cells.getD 0 0 = operand) = true) :
    ∃ globals, History globals ∧ globals.dataArray = [staleRecord] ∧
      globals.operand.cells.getD 0 0 = operand := by
  obtain ⟨⟨globals, response⟩, ran, facts⟩ := (Option.any_eq_true _ _).mp saved
  obtain ⟨mode, records, stale⟩ :
      response.mode = .save ∧ globals.dataArray = [staleRecord] ∧
        globals.operand.cells.getD 0 0 = operand := of_decide_eq_true facts
  have valid : (ReadResult.data (staleSave expression)).Valid :=
    ⟨by simp [staleSave, saveWord], small⟩
  exact ⟨globals, .next .start valid ran (by simp [mode]), records, stale⟩

theorem room_stale : Room [staleRecord] where
  free := by decide
  replies := by
    intro id terminated
    have isName := CArray.cString?_of_mem terminated
    have isOther : staleRecord.id.cString? = some [] := by decide
    have isText : staleRecord.req.cString? =
        some (staleRecord.req.cells.take 8) := by decide
    have cleared : (CArray.replicate BUF_SIZE 0#8).cString? = some [] :=
      CArray.cString?_replicate_zero (by decide)
    obtain ⟨result, collected, printed⟩ :=
      collectRecord_spec isName isOther isText cleared (fun _ => by decide)
    simp only [loadReply, List.foldlM_cons, List.foldlM_nil, collected, printed,
      Option.bind_eq_bind, Option.bind_some, Option.pure_def]
    split <;> exact ⟨_, rfl⟩

/-- A save whose count is not positive computes with an old operand.  The two
pasts leave the record `120*0=0`, but one of them was sent the operands 1, 0, 0
and the operator `2`, which is no operator and prints like a digit. -/
theorem Isolated.positive (isolated : Isolated bytes)
    (bound : bytes.length ≤ MOD_SIZE + ID_SIZE + BUF_SIZE)
    (enough : MOD_SIZE ≤ bytes.length)
    (saves : branch (bytes.take MOD_SIZE) = .save) {opCount : Byte}
    (head : (resultPart bytes)[0]? = some opCount) : 0 < opCount.toInt := by
  by_contra nonpositive
  obtain ⟨first, firstHistory, firstRecords, firstOperand⟩ :=
    @exists_stale ⟨1, [(ascii '2', 0), (ascii '*', 0)]⟩ 1 (by decide)
      (by decide +kernel)
  obtain ⟨second, secondHistory, secondRecords, secondOperand⟩ :=
    @exists_stale ⟨120, [(ascii '*', 0)]⟩ 120 (by decide) (by decide +kernel)
  obtain ⟨response, firstNext, secondNext, firstRan, secondRan⟩ :=
    isolated first second firstHistory secondHistory
      (firstRecords.trans secondRecords.symm) (firstRecords ▸ room_stale)
  obtain ⟨value, _⟩ := same_save (by rw [cells_scatter_mode enough, saves])
    (by rw [cells_scatter_mode enough, saves]) firstRan secondRan
  rw [expression_scatter bound head, expression_scatter bound head,
    if_neg nonpositive, if_neg nonpositive, firstOperand, secondOperand] at value
  exact absurd value (by decide)

theorem append_drop_set {own old : List Byte} {index : Nat}
    (behind : own.length ≤ index) (byte : Byte) :
    own ++ (old.set index byte).drop own.length =
      (own ++ old.drop own.length).set index byte := by
  rw [List.drop_set, if_neg (by omega), List.set_append_right _ _ behind]

/-- An incomplete save takes its last byte from an earlier client. -/
theorem Isolated.complete (isolated : Isolated bytes)
    (bound : bytes.length ≤ MOD_SIZE + ID_SIZE + BUF_SIZE)
    (enough : MOD_SIZE ≤ bytes.length)
    (saves : branch (bytes.take MOD_SIZE) = .save) {opCount : Byte}
    (head : (resultPart bytes)[0]? = some opCount)
    (positive : 0 < opCount.toInt) :
    5 * opCount.toInt.toNat ≤ (resultPart bytes).length := by
  by_contra incomplete
  have small := @BitVec.toInt_lt 8 opCount
  generalize count : opCount.toInt.toNat = n at incomplete
  have countBound : 0 < n ∧ n < 128 := by omega
  have whole : BUF_SIZE = 1024 := rfl
  obtain ⟨first, second, left, right, value, line, _⟩ :=
    @Isolated.same_result bytes
      ((List.replicate BUF_SIZE 0#8).set (5 * n - 1) 0#8)
      ((List.replicate BUF_SIZE 0#8).set (5 * n - 1) (ascii '+'))
      isolated enough saves (by simp) (by simp)
  rw [expression_scatter bound head, expression_scatter bound head,
    if_pos positive, if_pos positive, left, right,
    append_drop_set (by omega), append_drop_set (by omega), count] at value line
  have ownLength := length_resultPart bound
  generalize base : resultPart bytes ++
    (List.replicate BUF_SIZE 0#8).drop (resultPart bytes).length = filled
      at value line
  have filledLength : filled.length = BUF_SIZE := by
    rw [← base]
    simp
    omega
  obtain rfl | ⟨rest, rfl⟩ : n = 1 ∨ ∃ rest, n = rest + 2 := by
    by_cases one : n = 1
    · exact .inl one
    · exact .inr ⟨n - 2, by omega⟩
  · -- The last byte of a single operand is its highest one.
    have bytesEqual : (0#8 : Byte) = ascii '+' :=
      @wordAt_set_inj filled 1 _ _ (by omega) value
    exact absurd bytesEqual (by decide)
  · obtain ⟨operand, front, right, decoded⟩ := @decodeExpression_set_last filled
      rest (by omega)
    have index : 5 * (rest + 2) - 1 = 5 * rest + 9 := by omega
    rw [index, decoded, decoded] at line
    have plus : (0#8 : Byte) ≠ ascii '+' := by decide
    have shown : cString (stepText (ascii '+', right)) =
        ascii '+' :: decimal right.toInt :=
      cString_of_notMem (by simp [stepText, zero_notMem_decimal, plus])
    have hidden : cString (stepText (0#8, right)) = [] := by
      simp [stepText, cString]
    simp only [Expression.line, Expression.text, stepsText, List.flatMap_append,
      List.flatMap_singleton, shown, hidden, List.append_assoc, List.nil_append,
      List.append_cancel_left_eq, List.cons_append] at line
    exact absurd (List.cons.inj line).1 (by decide)

theorem determined_of_isolated (nonempty : 0 < bytes.length)
    (bound : bytes.length ≤ MOD_SIZE + ID_SIZE + BUF_SIZE)
    (isolated : Isolated bytes) : Determined bytes := by
  unfold Determined
  split <;> rename_i length
  · exact isolated.noWord nonempty length
  · have enough : MOD_SIZE ≤ bytes.length := Nat.le_of_not_lt length
    cases taken : branch (bytes.take MOD_SIZE) with
    | save =>
        refine ⟨isolated.terminated enough (.inl taken), ?_⟩
        obtain ⟨opCount, head⟩ := isolated.counted bound enough taken
        have positive := isolated.positive bound enough taken head
        have complete := isolated.complete bound enough taken head positive
        refine ⟨opCount, head, positive, complete, ?_⟩
        obtain ⟨first, _, _, _, _, _, short⟩ := @Isolated.same_result bytes
          (List.replicate BUF_SIZE 0#8) (List.replicate BUF_SIZE 0#8)
          isolated enough taken (by simp) (by simp)
        rwa [expression_scatter bound head, if_pos positive,
          decodeExpression_append (by omega) complete] at short
    | load => exact isolated.terminated enough (.inr taken)
    | quit => trivial
    | unknown => trivial

end necessary

/-- A request is isolated exactly when it brings everything its branch looks
at. -/
theorem isolated_iff_determined {bytes : List Byte} (nonempty : 0 < bytes.length)
    (bound : bytes.length ≤ MOD_SIZE + ID_SIZE + BUF_SIZE) :
    Isolated bytes ↔ Determined bytes :=
  ⟨determined_of_isolated nonempty bound, isolated_of_determined bound⟩

theorem isolated_iff_determined_load :
    Isolated loadWord ↔ Determined loadWord :=
  isolated_iff_determined (by decide) (by decide)

def emptySave : List Byte := saveWord ++ List.replicate ID_SIZE 0#8

/-- A request that only leaves the operand 7 behind. -/
def leftBehind : List Byte := List.replicate (MOD_SIZE + ID_SIZE) 1#8 ++ [1#8, 7#8]

/-- The reply to a save without operands is the operand of another client. -/
theorem emptySave_not_isolated : ¬ Isolated emptySave := by
  intro isolated
  have replies :
      (serve (Globals.initial.scatter leftBehind) (.data emptySave)).map
          (fun served => served.2.reply) = some (some [7#8, 0#8, 0#8, 0#8]) ∧
        (serve Globals.initial (.data emptySave)).map
          (fun served => served.2.reply) = some (some [0#8, 0#8, 0#8, 0#8]) := by
    decide +kernel
  have silent : serve Globals.initial (.data leftBehind) =
      some (Globals.initial.scatter leftBehind, ⟨.unknown, none, none⟩) :=
    mode_check_silent (.inr (by decide))
  have valid : (ReadResult.data leftBehind).Valid := ⟨by decide, by decide⟩
  obtain ⟨response, _, _, firstServed, secondServed⟩ := isolated _ _
    (.next .start valid silent (by decide)) .start rfl room_nil
  obtain ⟨left, right⟩ := replies
  rw [firstServed] at left
  rw [secondServed] at right
  simp only [Option.map_some, Option.some.injEq] at left right
  rw [left] at right
  exact absurd right (by decide)

end NetworkProgramming.Hw6
