import NetworkProgramming.Client
import NetworkProgramming.Hw6.Store

/-!
# The string operations on a request

The line of a save is built in `buf[1024]` with `sprintf` and copied to
`req[100]` with `strcpy`, and the id is copied and compared as it came.  All of
this stays inside the arrays when the id is terminated and the line fits `req`,
and only then: ten operands can already give a line that is too long.
-/

namespace NetworkProgramming.Hw6

open MachineInt Client

/-- What the save branch does with text: `calculator` and the result in `buf`,
then the copies of `id` and `buf` into a record. -/
def SaveInside (globals : Globals) : Prop :=
  ∃ computed buf id req, calculator globals = some computed ∧
    computed.buf.append? (resultText computed.opResult) = some buf ∧
    strcpy Data.zero.id computed.id = some id ∧
    strcpy Data.zero.req buf = some req

/-- What a load does with the id: `printf` in the parent, and `strcmp` with the
terminated ids of the records in the child. -/
def LoadInside (globals : Globals) : Prop :=
  (∃ name, globals.id.cString? = some name) ∧
    ∀ record : CArray Byte ID_SIZE, 0#8 ∈ record.cells →
      ∃ equal, strEqual globals.id.cells record.cells = some equal

/-- Every string operation for the request in the globals stays in its array. -/
structure Inside (globals : Globals) : Prop where
  mode : ∃ mode, modeOf globals.mode = some mode
  save : modeOf globals.mode = some .save → SaveInside globals
  load : modeOf globals.mode = some .load → LoadInside globals

/-- The id of a save or load is terminated, and the line of a save fits `req`. -/
def Fitting (globals : Globals) : Prop :=
  (globals.mode.cells = saveWord →
    0#8 ∈ globals.id.cells ∧ globals.expression.line.length + 1 ≤ REQ_SIZE) ∧
  (globals.mode.cells = loadWord → 0#8 ∈ globals.id.cells)

section inside

variable {globals : Globals}

theorem fitting_of_saveInside (inside : SaveInside globals) :
    0#8 ∈ globals.id.cells ∧ globals.expression.line.length + 1 ≤ REQ_SIZE := by
  obtain ⟨computed, buf, id, req, calculated, appended, idCopied, reqCopied⟩ := inside
  obtain ⟨_, idKept, _, _⟩ := calculator_frame calculated
  obtain ⟨_, line⟩ := cString?_line calculated appended
  simp only [strcpy, Option.bind_eq_bind, Option.bind_eq_some_iff] at idCopied reqCopied
  obtain ⟨name, isName, _⟩ := idCopied
  obtain ⟨copied, isLine, printed⟩ := reqCopied
  rw [line] at isLine
  cases isLine
  rw [idKept] at isName
  exact ⟨CArray.zero_mem_of_cString? isName, CArray.length_of_print? printed⟩

theorem saveInside_of_fitting (terminated : 0#8 ∈ globals.id.cells)
    (short : globals.expression.line.length + 1 ≤ REQ_SIZE) : SaveInside globals := by
  obtain ⟨computed, buf, calculated, appended⟩ := line_isSome short
  obtain ⟨_, holds⟩ := cString?_line calculated appended
  obtain ⟨_, idKept, _, _⟩ := calculator_frame calculated
  have isName : computed.id.cString? = some (cString globals.id.cells) := by
    rw [idKept, CArray.cString?_of_mem terminated]
  obtain ⟨id, _, idCopied⟩ :=
    strcpy_isSome isName (CArray.length_lt_of_cString? isName) Data.zero.id
  obtain ⟨req, _, reqCopied⟩ := strcpy_isSome holds short Data.zero.req
  exact ⟨computed, buf, id, req, calculated, appended, idCopied, reqCopied⟩

theorem saveInside_iff : SaveInside globals ↔
    0#8 ∈ globals.id.cells ∧ globals.expression.line.length + 1 ≤ REQ_SIZE :=
  ⟨fitting_of_saveInside, fun given => saveInside_of_fitting given.1 given.2⟩

/-- With a free slot, these are the operations that the save branch needs. -/
theorem mode_check_isSome_iff (saves : branch globals.mode.cells = .save)
    (room : globals.dataArray.length < DATA_MAX) :
    (∃ served, mode_check globals = some served) ↔ SaveInside globals := by
  rw [saveInside_iff]
  constructor
  · intro given
    obtain ⟨⟨next, response⟩, ran⟩ := given
    obtain ⟨name, record, isName, recorded, _⟩ := mode_check_save saves ran
    exact ⟨CArray.zero_mem_of_cString? isName, CArray.length_of_print? recorded.req⟩
  · intro given
    obtain ⟨next, record, ran, _⟩ := mode_check_save_isSome saves
      (CArray.cString?_of_mem given.1) given.2 room
    exact ⟨_, ran⟩

theorem loadInside_iff : LoadInside globals ↔ 0#8 ∈ globals.id.cells := by
  constructor
  · intro inside
    obtain ⟨⟨name, isName⟩, _⟩ := inside
    exact CArray.zero_mem_of_cString? isName
  · intro terminated
    refine ⟨⟨_, CArray.cString?_of_mem terminated⟩, ?_⟩
    intro record recordTerminated
    obtain ⟨plain, rest, split⟩ :=
      CArray.cString?_eq_some.mp (CArray.cString?_of_mem terminated)
    obtain ⟨recordPlain, recordRest, recordSplit⟩ :=
      CArray.cString?_eq_some.mp (CArray.cString?_of_mem recordTerminated)
    rw [split, recordSplit]
    exact ⟨_, strEqual_terminated plain recordPlain rest recordRest⟩

theorem inside_iff_fitting : Inside globals ↔ Fitting globals := by
  have saves : modeOf globals.mode = some .save ↔ globals.mode.cells = saveWord := by
    rw [modeOf_eq, Option.some.injEq, branch_eq_save]
  have loads : modeOf globals.mode = some .load ↔ globals.mode.cells = loadWord := by
    rw [modeOf_eq, Option.some.injEq, branch_eq_load]
  constructor
  · intro inside
    constructor
    · intro word
      exact saveInside_iff.mp (inside.save (saves.mpr word))
    · intro word
      exact loadInside_iff.mp (inside.load (loads.mpr word))
  · intro fitting
    refine ⟨⟨_, modeOf_eq globals.mode⟩, ?_, ?_⟩
    · intro save
      exact saveInside_iff.mpr (fitting.1 (saves.mp save))
    · intro load
      exact loadInside_iff.mpr (fitting.2 (loads.mp load))

end inside

theorem client_save_inside_iff {expression : Expression} (small : expression.count ≤ 127)
    (globals : Globals) (id : Id) (memory : CArray Byte Client.MAX) :
    ∃ request, hw6_client_save saveWord id.cells (typed expression) memory =
        some request ∧
      (Inside (globals.scatter request) ↔ expression.line.length + 1 ≤ REQ_SIZE) := by
  obtain ⟨body, sent, rest, encoded⟩ :=
    hw6_client_save_typed small saveWord id.cells memory
  have size : (expression.encode ++ rest).length ≤ BUF_SIZE := by
    rw [← encoded]
    exact Nat.le_of_eq body.length_cells
  obtain ⟨mode, idCells, _⟩ := cells_scatter globals id
    (show saveWord.length = MOD_SIZE from rfl) size
  rw [encoded, List.append_assoc] at sent
  refine ⟨_, sent, ?_⟩
  have terminated : 0#8 ∈ id.cells := by simp [Id.cells]
  have notLoad : saveWord ≠ loadWord := by decide
  rw [inside_iff_fitting, Fitting, mode, idCells,
    expression_scatter_save globals id small size]
  simp [terminated, notLoad]

/-- Whatever arrives, and whatever the globals held before, the string
operations stay inside their arrays exactly when the id is terminated and the
line fits; a save that `hw6_client` sends needs the latter only. -/
theorem save_path_inside_iff (globals : Globals) :
    (∀ bytes : List Byte, bytes.length ≤ MOD_SIZE + ID_SIZE + BUF_SIZE →
      (Inside (globals.scatter bytes) ↔ Fitting (globals.scatter bytes))) ∧
    ∀ (expression : Expression) (id : Id) (memory : CArray Byte Client.MAX),
      expression.count ≤ 127 →
        ∃ request, hw6_client_save saveWord id.cells (typed expression) memory =
            some request ∧
          (Inside (globals.scatter request) ↔
            expression.line.length + 1 ≤ REQ_SIZE) := by
  constructor
  · intro bytes _
    exact inside_iff_fitting
  · intro expression id memory small
    exact client_save_inside_iff small globals id memory

/-- Eight of the longest operands still fit. -/
theorem save_path_inside_iff_eightOperands :
    ∃ request, hw6_client_save saveWord fourLetters.cells
        (typed ⟨-2147483648#32, List.replicate 7 (ascii '*', -2147483648#32)⟩)
        (CArray.replicate Client.MAX 0#8) = some request ∧
      Inside (Globals.initial.scatter request) := by
  obtain ⟨request, sent, inside⟩ := (save_path_inside_iff Globals.initial).2
    ⟨-2147483648#32, List.replicate 7 (ascii '*', -2147483648#32)⟩ fourLetters
    (CArray.replicate Client.MAX 0#8) (by decide)
  exact ⟨request, sent, inside.mpr (by decide +kernel)⟩

/-- A ninth one does not: the line has 110 characters. -/
theorem nineOperands_not_inside :
    ∃ request, hw6_client_save saveWord fourLetters.cells
        (typed ⟨-2147483648#32, List.replicate 8 (ascii '*', -2147483648#32)⟩)
        (CArray.replicate Client.MAX 0#8) = some request ∧
      ¬ Inside (Globals.initial.scatter request) := by
  obtain ⟨request, sent, inside⟩ := @client_save_inside_iff
    ⟨-2147483648#32, List.replicate 8 (ascii '*', -2147483648#32)⟩ (by decide)
    Globals.initial fourLetters (CArray.replicate Client.MAX 0#8)
  refine ⟨request, sent, ?_⟩
  rw [inside]
  decide +kernel

end NetworkProgramming.Hw6
