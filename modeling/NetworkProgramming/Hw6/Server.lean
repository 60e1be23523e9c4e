import NetworkProgramming.Calculator

/-!
# The code of `hw6_server`

The globals of the server, the functions that the parent runs on them for one
request, and the reply the child computes for a load.  The processes that run
this code and the pipes between them are in `Hw6.System`.
-/

namespace NetworkProgramming.Hw6

open MachineInt

def MOD_SIZE : Nat := 5
def ID_SIZE : Nat := 5
def BUF_SIZE : Nat := 1024
def REQ_SIZE : Nat := 100
def DATA_MAX : Nat := 100

/-- An entry of `dataArray`. -/
structure Data where
  id : CArray Byte ID_SIZE
  req : CArray Byte REQ_SIZE
deriving DecidableEq

namespace Data

/-- An unused slot of `dataArray`: static storage is zero. -/
def zero : Data := ⟨CArray.replicate ID_SIZE 0#8, CArray.replicate REQ_SIZE 0#8⟩

def bytes (record : Data) : List Byte := record.id.cells ++ record.req.cells

def receive (record : Data) (delivered : List Byte) : Data :=
  ⟨record.id.fill (delivered.take ID_SIZE),
    record.req.fill (delivered.drop ID_SIZE)⟩

def SIZE : Nat := ID_SIZE + REQ_SIZE

@[simp] theorem length_bytes (record : Data) : record.bytes.length = SIZE := by
  simp [bytes, SIZE, record.id.length_cells, record.req.length_cells]

theorem receive_bytes (old record : Data) : old.receive record.bytes = record := by
  have idLength := record.id.length_cells
  have reqLength := record.req.length_cells
  obtain ⟨id, req⟩ := record
  unfold receive bytes
  rw [List.take_left' idLength, List.drop_left' idLength]
  congr 1
  · exact CArray.ext (CArray.cells_fill_full _ idLength)
  · exact CArray.ext (CArray.cells_fill_full _ reqLength)

end Data

/-! ## Modes -/

def saveWord : List Byte := [ascii 's', ascii 'a', ascii 'v', ascii 'e', 0#8]
def loadWord : List Byte := [ascii 'l', ascii 'o', ascii 'a', ascii 'd', 0#8]
def quitWord : List Byte := [ascii 'q', ascii 'u', ascii 'i', ascii 't', 0#8]

/-- The branches of `mode_check` and of `store_loop`. -/
inductive Mode where
  | save
  | load
  | quit
  | unknown
deriving DecidableEq

/-- The chain of `strcmp(mode, ...) == 0`. -/
def modeOf (mode : CArray Byte MOD_SIZE) : Option Mode := do
  if ← strEqual mode.cells saveWord then return .save
  if ← strEqual mode.cells loadWord then return .load
  if ← strEqual mode.cells quitWord then return .quit
  return .unknown

/-- The branch as a comparison of all five bytes. -/
def branch (mode : List Byte) : Mode :=
  if mode = saveWord then .save
  else if mode = loadWord then .load
  else if mode = quitWord then .quit
  else .unknown

/-- The comparisons never run off `mode`: each word fills the array. -/
theorem modeOf_eq (mode : CArray Byte MOD_SIZE) :
    modeOf mode = some (branch mode.cells) := by
  have length : mode.cells.length = 4 + 1 := mode.length_cells
  have save : strEqual mode.cells saveWord =
      some (decide (mode.cells = saveWord)) :=
    @strEqual_word _ [ascii 's', ascii 'a', ascii 'v', ascii 'e'] (by decide) length
  have load : strEqual mode.cells loadWord =
      some (decide (mode.cells = loadWord)) :=
    @strEqual_word _ [ascii 'l', ascii 'o', ascii 'a', ascii 'd'] (by decide) length
  have quit : strEqual mode.cells quitWord =
      some (decide (mode.cells = quitWord)) :=
    @strEqual_word _ [ascii 'q', ascii 'u', ascii 'i', ascii 't'] (by decide) length
  simp only [modeOf, save, load, quit, branch, Option.bind_eq_bind,
    Option.bind_some, decide_eq_true_eq]
  split_ifs <;> rfl

theorem branch_eq_save {mode : List Byte} : branch mode = .save ↔ mode = saveWord := by
  constructor
  · intro taken
    unfold branch at taken
    split_ifs at taken with isSave
    exact isSave
  · rintro rfl
    decide

theorem branch_eq_load {mode : List Byte} : branch mode = .load ↔ mode = loadWord := by
  constructor
  · intro taken
    unfold branch at taken
    split_ifs at taken with isSave isLoad
    exact isLoad
  · rintro rfl
    decide

theorem branch_eq_quit {mode : List Byte} : branch mode = .quit ↔ mode = quitWord := by
  constructor
  · intro taken
    unfold branch at taken
    split_ifs at taken with isSave isLoad isQuit
    exact isQuit
  · rintro rfl
    decide

/-! ## The parent's globals -/

/-- The globals that the requests use; they keep what the last one left. -/
structure Globals where
  mode : CArray Byte MOD_SIZE
  id : CArray Byte ID_SIZE
  result : CArray Byte BUF_SIZE
  operand : CArray Word BUF_SIZE
  opResult : Word
  buf : CArray Byte BUF_SIZE
  /-- The used slots of `dataArray`; `cnt` is their number. -/
  dataArray : List Data

def Globals.initial : Globals where
  mode := CArray.replicate MOD_SIZE 0#8
  id := CArray.replicate ID_SIZE 0#8
  result := CArray.replicate BUF_SIZE 0#8
  operand := CArray.replicate BUF_SIZE 0
  opResult := 0
  buf := CArray.replicate BUF_SIZE 0#8
  dataArray := []

/-- `readv(i, vec, 3)`: the bytes go to `mode`, then `id`, then `result`. -/
def Globals.scatter (globals : Globals) (bytes : List Byte) : Globals :=
  { globals with
    mode := globals.mode.fill (bytes.take MOD_SIZE)
    id := globals.id.fill ((bytes.drop MOD_SIZE).take ID_SIZE)
    result := globals.result.fill (bytes.drop (MOD_SIZE + ID_SIZE)) }

def calculator (globals : Globals) : Option Globals := do
  let computed ← computeRequest globals.result globals.operand globals.buf
  return { globals with
    operand := computed.operand
    opResult := computed.opResult
    buf := computed.buf }

/-- `strcpy(target, source)`. -/
def strcpy {size capacity : Nat} (target : CArray Byte capacity)
    (source : CArray Byte size) : Option (CArray Byte capacity) := do
  let text ← source.cString?
  target.print? text

theorem strcpy_isSome {size capacity : Nat} {source : CArray Byte size}
    {text : List Byte} (holds : source.cString? = some text)
    (fits : text.length + 1 ≤ capacity) (target : CArray Byte capacity) :
    ∃ copy, target.print? text = some copy ∧ strcpy target source = some copy := by
  obtain ⟨copy, printed⟩ : ∃ copy, target.print? text = some copy :=
    CArray.print?_isSome fits
  exact ⟨copy, printed, by simp [strcpy, holds, printed]⟩

/-- The part of the save branch behind the reply: finish the line and store it
in the next slot of `dataArray`. -/
def storeRecord (globals : Globals) : Option (Globals × Data) := do
  let buf ← globals.buf.append? (resultText globals.opResult)
  if globals.dataArray.length < DATA_MAX then
    let id ← strcpy Data.zero.id globals.id
    let req ← strcpy Data.zero.req buf
    return ({ globals with
      buf := buf
      dataArray := globals.dataArray ++ [⟨id, req⟩] }, ⟨id, req⟩)
  else none

/-! ## The child's reply to a load -/

def separator : List Byte := [ascii ':', ascii ' ']

def notExist : List Byte :=
  [ascii 'N', ascii 'o', ascii 't', ascii ' ', ascii 'e', ascii 'x', ascii 'i',
    ascii 's', ascii 't', ascii '\n']

/-- One iteration of the load loop: `sprintf` into `load_buf`, then `strcat`
onto `result`. -/
def collectRecord (id : CArray Byte ID_SIZE) (result : CArray Byte BUF_SIZE)
    (record : Data) : Option (CArray Byte BUF_SIZE) := do
  if ← strEqual id.cells record.id.cells then
    let name ← record.id.cString?
    let text ← record.req.cString?
    let loadBuf ← (CArray.replicate BUF_SIZE 0#8).print? (name ++ separator ++ text)
    let line ← loadBuf.cString?
    result.append? line
  else return result

theorem collectRecord_spec {id : CArray Byte ID_SIZE}
    {result : CArray Byte BUF_SIZE} {record : Data}
    {name other text old : List Byte} (isName : id.cString? = some name)
    (isOther : record.id.cString? = some other)
    (isText : record.req.cString? = some text)
    (printed : result.cString? = some old)
    (room : name = other →
      old.length + (other ++ separator ++ text).length + 1 ≤ BUF_SIZE) :
    ∃ extended, collectRecord id result record = some extended ∧
      extended.cString? = some
        (old ++ if name = other then other ++ separator ++ text else []) := by
  obtain ⟨namePlain, nameRest, nameSplit⟩ := CArray.cString?_eq_some.mp isName
  obtain ⟨otherPlain, otherRest, otherSplit⟩ := CArray.cString?_eq_some.mp isOther
  have compared := strEqual_terminated namePlain otherPlain nameRest otherRest
  rw [← nameSplit, ← otherSplit] at compared
  by_cases same : name = other
  · have bound := room same
    have mark : 0#8 ∉ separator := by decide
    have plain : 0#8 ∉ other ++ separator ++ text := by
      simp [otherPlain, mark, CArray.zero_notMem_of_cString? isText]
    obtain ⟨loadBuf, loaded⟩ : ∃ loadBuf,
        (CArray.replicate BUF_SIZE 0#8).print? (other ++ separator ++ text) =
          some loadBuf := CArray.print?_isSome (by omega)
    have line := CArray.cString?_print loaded
    obtain ⟨extended, appended⟩ := CArray.append?_isSome printed bound
    have both := CArray.cString?_append printed appended
    rw [cString_of_notMem plain] at line both
    refine ⟨extended, ?_, by rw [if_pos same, both]⟩
    simp only [collectRecord, compared, same, decide_true, Option.bind_eq_bind,
      Option.bind_some, if_true, isOther, isText, loaded, line, appended]
  · refine ⟨result, ?_, by simpa [same] using printed⟩
    simp [collectRecord, compared, same]

/-- The bytes that `store_loop` writes to `fdsB` for a load. -/
def loadReply (id : CArray Byte ID_SIZE) (dataArray : List Data) :
    Option (List Byte) := do
  let result ← dataArray.foldlM (collectRecord id) (CArray.replicate BUF_SIZE 0#8)
  let text ← result.cString?
  if text = [] then return notExist
  return text

theorem length_loadReply {id : CArray Byte ID_SIZE} {dataArray : List Data}
    {reply : List Byte} (replied : loadReply id dataArray = some reply) :
    reply ≠ [] ∧ reply.length ≤ BUF_SIZE := by
  simp only [loadReply, Option.bind_eq_bind, Option.bind_eq_some_iff] at replied
  obtain ⟨result, _, text, holds, chosen⟩ := replied
  have bound := CArray.length_lt_of_cString? holds
  split at chosen <;> rename_i empty
  · cases chosen
    exact ⟨by decide, by decide⟩
  · cases chosen
    exact ⟨empty, by omega⟩

/-! ## One request at a time -/

/-- What `readv` returns. -/
inductive ReadResult where
  | data (bytes : List Byte)
  | closed
  | failed
deriving DecidableEq

/-- What serving one request does: the branch taken, the bytes sent back to
the client and the record stored. -/
structure Response where
  mode : Mode
  reply : Option (List Byte)
  record : Option Data
deriving DecidableEq

/-- `mode_check()` when the child has stored every record of the parent. -/
def mode_check (globals : Globals) : Option (Globals × Response) := do
  match ← modeOf globals.mode with
  | .save =>
      let computed ← calculator globals
      let stored ← storeRecord computed
      return (stored.1,
        ⟨.save, some (Word.toBytes computed.opResult), some stored.2⟩)
  | .load =>
      -- `printf("load from %s\n", id)` reads `id` as a string.
      let _ ← globals.id.cString?
      let reply ← loadReply globals.id globals.dataArray
      return (globals, ⟨.load, some reply, none⟩)
  | .quit => return (globals, ⟨.quit, none, none⟩)
  | .unknown => return (globals, ⟨.unknown, none, none⟩)

/-- The part of the scan that serves a ready client: `readv`, then
`mode_check` unless the client has closed. -/
def serve (globals : Globals) : ReadResult → Option (Globals × Response)
  | .data bytes => mode_check (globals.scatter bytes)
  | .closed => some (globals, ⟨.unknown, none, none⟩)
  | .failed => mode_check globals

/-! ## The save branch -/

theorem calculator_frame {globals computed : Globals}
    (ran : calculator globals = some computed) :
    computed.mode = globals.mode ∧ computed.id = globals.id ∧
      computed.result = globals.result ∧
      computed.dataArray = globals.dataArray := by
  simp only [calculator, Option.bind_eq_bind, Option.bind_eq_some_iff] at ran
  obtain ⟨_, _, final⟩ := ran
  cases final
  exact ⟨rfl, rfl, rfl, rfl⟩

def Globals.expression (globals : Globals) : Expression :=
  requestedExpression globals.result globals.operand

/-- `calculator` succeeds exactly when the formula fits `buf`. -/
theorem calculator_spec (globals : Globals) :
    (globals.expression.Fits BUF_SIZE 0 →
      ∃ computed, calculator globals = some computed ∧
        computed.opResult = globals.expression.value ∧
        computed.buf.cString? = some globals.expression.text) ∧
    (¬ globals.expression.Fits BUF_SIZE 0 → calculator globals = none) := by
  obtain ⟨success, failure⟩ := @computeRequest_spec _ _ _ globals.result
    globals.operand globals.buf (by decide) (by decide)
  constructor
  · intro fits
    obtain ⟨result, ran, computes⟩ := success fits
    refine ⟨{ globals with
        operand := result.operand
        opResult := result.opResult
        buf := result.buf }, ?_, computes.opResult, computes.text⟩
    simp only [calculator, ran, Option.bind_eq_bind, Option.bind_some,
      Option.pure_def]
  · intro overflow
    simp only [calculator, failure overflow, Option.bind_eq_bind,
      Option.bind_none]

theorem storeRecord_frame {globals stored : Globals} {record : Data}
    (ran : storeRecord globals = some (stored, record)) :
    stored.mode = globals.mode ∧ stored.id = globals.id ∧
      stored.dataArray = globals.dataArray ++ [record] ∧
      globals.dataArray.length < DATA_MAX := by
  simp only [storeRecord, Option.bind_eq_bind, Option.bind_eq_some_iff] at ran
  obtain ⟨_, _, ran⟩ := ran
  split at ran <;> rename_i room
  · simp only [Option.bind_eq_some_iff] at ran
    obtain ⟨_, _, _, _, final⟩ := ran
    cases final
    exact ⟨rfl, rfl, rfl, room⟩
  · cases ran

theorem fits_of_line {expression : Expression}
    (short : expression.line.length + 1 ≤ REQ_SIZE) :
    expression.Fits BUF_SIZE 0 := by
  have length := expression.length_line
  have req : REQ_SIZE = 100 := rfl
  have buf : BUF_SIZE = 1024 := rfl
  exact ⟨by omega, stepsFit_of_length (by omega)⟩

theorem cString?_line {globals computed : Globals} {buf : CArray Byte BUF_SIZE}
    (calculated : calculator globals = some computed)
    (appended : computed.buf.append? (resultText computed.opResult) = some buf) :
    computed.opResult = globals.expression.value ∧
      buf.cString? = some globals.expression.line := by
  obtain ⟨success, failure⟩ := calculator_spec globals
  by_cases fits : globals.expression.Fits BUF_SIZE 0
  · obtain ⟨_, same, opResult, text⟩ := success fits
    rw [calculated] at same
    cases same
    have line := CArray.cString?_append text appended
    rw [opResult, cString_of_notMem (zero_notMem_resultText _)] at line
    exact ⟨opResult, line⟩
  · rw [failure fits] at calculated
    cases calculated

theorem line_isSome {globals : Globals}
    (short : globals.expression.line.length + 1 ≤ REQ_SIZE) :
    ∃ computed buf, calculator globals = some computed ∧
      computed.buf.append? (resultText computed.opResult) = some buf := by
  obtain ⟨computed, calculated, opResult, text⟩ :=
    (calculator_spec globals).1 (fits_of_line short)
  have line : globals.expression.line =
      globals.expression.text ++ resultText globals.expression.value := rfl
  have size : REQ_SIZE ≤ BUF_SIZE := by decide
  obtain ⟨buf, appended⟩ : ∃ buf,
      computed.buf.append? (resultText computed.opResult) = some buf := by
    apply CArray.append?_isSome text
    rw [opResult, ← List.length_append, ← line]
    omega
  exact ⟨computed, buf, calculated, appended⟩

/-- The record that a save of `text` under `name` leaves. -/
structure Recorded (name text : List Byte) (record : Data) : Prop where
  id : Data.zero.id.print? name = some record.id
  req : Data.zero.req.print? text = some record.req

theorem Recorded.unique {name text : List Byte} {first second : Data}
    (left : Recorded name text first) (right : Recorded name text second) :
    first = second := by
  obtain ⟨id, req⟩ := first
  obtain ⟨otherId, otherReq⟩ := second
  have sameId : id = otherId := by simpa [left.id] using right.id
  have sameReq : req = otherReq := by simpa [left.req] using right.req
  rw [sameId, sameReq]

/-- The save branch, when it has a result: what it replies and records is
determined by the name and the expression. -/
theorem mode_check_save {globals next : Globals} {response : Response}
    (saves : branch globals.mode.cells = .save)
    (ran : mode_check globals = some (next, response)) :
    ∃ name record, globals.id.cString? = some name ∧
      Recorded name globals.expression.line record ∧
      response = ⟨.save, some (Word.toBytes globals.expression.value),
        some record⟩ := by
  simp only [mode_check, modeOf_eq, saves, Option.bind_eq_bind,
    Option.bind_some, Option.bind_eq_some_iff] at ran
  obtain ⟨computed, calculated, ⟨stored, record⟩, storing, final⟩ := ran
  cases final
  obtain ⟨_, idKept, _, _⟩ := calculator_frame calculated
  simp only [storeRecord, Option.bind_eq_bind, Option.bind_eq_some_iff] at storing
  obtain ⟨buf, appended, storing⟩ := storing
  obtain ⟨opResult, holds⟩ := cString?_line calculated appended
  split at storing
  · simp only [Option.bind_eq_some_iff, strcpy, Option.bind_eq_bind] at storing
    obtain ⟨id, ⟨name, isName, idPrinted⟩, req, ⟨line, isLine, reqPrinted⟩,
      final⟩ := storing
    cases final
    rw [holds] at isLine
    cases isLine
    exact ⟨name, ⟨id, req⟩, idKept ▸ isName, ⟨idPrinted, reqPrinted⟩, by rw [opResult]⟩
  · cases storing

theorem storeRecord_isSome {globals : Globals} {buf : CArray Byte BUF_SIZE}
    {name line : List Byte} (isName : globals.id.cString? = some name)
    (appended : globals.buf.append? (resultText globals.opResult) = some buf)
    (isLine : buf.cString? = some line) (short : line.length + 1 ≤ REQ_SIZE)
    (room : globals.dataArray.length < DATA_MAX) :
    ∃ record, Recorded name line record ∧
      storeRecord globals = some ({ globals with
        buf := buf
        dataArray := globals.dataArray ++ [record] }, record) := by
  obtain ⟨id, idPrinted, idCopied⟩ :=
    strcpy_isSome isName (CArray.length_lt_of_cString? isName) Data.zero.id
  obtain ⟨req, reqPrinted, reqCopied⟩ := strcpy_isSome isLine short Data.zero.req
  refine ⟨⟨id, req⟩, ⟨idPrinted, reqPrinted⟩, ?_⟩
  simp only [storeRecord, appended, room, if_true, idCopied, reqCopied,
    Option.bind_eq_bind, Option.bind_some, Option.pure_def]

theorem mode_check_save_isSome {globals : Globals} {name : List Byte}
    (saves : branch globals.mode.cells = .save)
    (isName : globals.id.cString? = some name)
    (short : globals.expression.line.length + 1 ≤ REQ_SIZE)
    (room : globals.dataArray.length < DATA_MAX) :
    ∃ next record, mode_check globals = some (next,
        ⟨.save, some (Word.toBytes globals.expression.value), some record⟩) ∧
      Recorded name globals.expression.line record ∧
      next.dataArray = globals.dataArray ++ [record] := by
  obtain ⟨computed, buf, calculated, appended⟩ := line_isSome short
  obtain ⟨opResult, isLine⟩ := cString?_line calculated appended
  obtain ⟨_, idKept, _, recordsKept⟩ := calculator_frame calculated
  obtain ⟨record, recorded, storing⟩ := storeRecord_isSome (idKept ▸ isName)
    appended isLine short (recordsKept ▸ room)
  refine ⟨{ computed with
      buf := buf
      dataArray := computed.dataArray ++ [record] }, record, ?_, recorded, ?_⟩
  · simp only [mode_check, modeOf_eq, saves, calculated, storing, opResult,
      Option.bind_eq_bind, Option.bind_some, Option.pure_def]
  · simp only [recordsKept]

end NetworkProgramming.Hw6
