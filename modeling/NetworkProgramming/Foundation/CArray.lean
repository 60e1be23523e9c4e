import Mathlib.Data.List.TakeWhile
import NetworkProgramming.Foundation.MachineInt

/-!
# Fixed-size arrays, C strings and counting loops

An array carries its size.  Every access states the cells it touches, and an
access outside the array has no result: it is undefined behaviour, and a
computation that reaches it is `none`.  A string in an array of bytes is what
stands before its first NUL.
-/

open MachineInt

/-- An array of fixed length; a write outside it has no value. -/
structure CArray (α : Type*) (size : Nat) where
  cells : List α
  length_cells : cells.length = size
deriving DecidableEq

namespace CArray

variable {α : Type*} {size : Nat}

@[ext] theorem ext {left right : CArray α size}
    (same : left.cells = right.cells) : left = right := by
  cases left
  cases right
  cases same
  rfl

/-- Static storage: every cell holds the same value. -/
def replicate (size : Nat) (value : α) : CArray α size :=
  ⟨List.replicate size value, by simp⟩

def get? (array : CArray α size) (index : Nat) : Option α :=
  array.cells[index]?

def set? (array : CArray α size) (index : Nat) (value : α) :
    Option (CArray α size) :=
  if index < size then
    some ⟨array.cells.set index value, by simp [array.length_cells]⟩
  else none

def read? (array : CArray α size) (start count : Nat) : Option (List α) :=
  if start + count ≤ size then some ((array.cells.drop start).take count)
  else none

def write? (array : CArray α size) (start : Nat) (values : List α) :
    Option (CArray α size) :=
  if fits : start + values.length ≤ size then
    some ⟨array.cells.take start ++ values ++
      array.cells.drop (start + values.length), by
        simp [array.length_cells]
        omega⟩
  else none

/-- What a receiving system call leaves: the delivered values at the front (it
is never given more than fit) and the old cells behind them. -/
def fill (array : CArray α size) (values : List α) : CArray α size :=
  ⟨values.take size ++ array.cells.drop values.length, by
    simp [array.length_cells]
    omega⟩

@[simp] theorem cells_replicate (value : α) :
    (replicate size value).cells = List.replicate size value := rfl

theorem cells_fill (array : CArray α size) {values : List α}
    (fits : values.length ≤ size) :
    (array.fill values).cells = values ++ array.cells.drop values.length := by
  simp [fill, List.take_of_length_le fits]

theorem cells_fill_full (array : CArray α size) {values : List α}
    (full : values.length = size) : (array.fill values).cells = values := by
  rw [cells_fill array (by omega), List.drop_of_length_le]
  · simp
  · simp [array.length_cells, full]

theorem set?_eq_some {array result : CArray α size} {index : Nat} {value : α} :
    array.set? index value = some result ↔
      index < size ∧ result.cells = array.cells.set index value := by
  unfold set?
  split <;> rename_i bound
  · simp only [Option.some.injEq, bound, true_and]
    constructor
    · rintro rfl
      rfl
    · intro same
      exact ext same.symm
  · simp [bound]

theorem read?_eq_some {array : CArray α size} {start count : Nat}
    {values : List α} :
    array.read? start count = some values ↔
      start + count ≤ size ∧ (array.cells.drop start).take count = values := by
  unfold read?
  split <;> simp_all

theorem write?_eq_some {array result : CArray α size} {start : Nat}
    {values : List α} :
    array.write? start values = some result ↔
      start + values.length ≤ size ∧
        result.cells = array.cells.take start ++ values ++
          array.cells.drop (start + values.length) := by
  unfold write?
  split <;> rename_i bound
  · simp only [Option.some.injEq, bound, true_and]
    constructor
    · rintro rfl
      rfl
    · intro same
      exact ext same.symm
  · simp [bound]

theorem write?_isSome {array : CArray α size} {start : Nat} {values : List α}
    (fits : start + values.length ≤ size) :
    ∃ result, array.write? start values = some result := by
  simp [write?, fits]

theorem write?_nil {array : CArray α size} {start : Nat} (bound : start ≤ size) :
    array.write? start [] = some array :=
  write?_eq_some.mpr ⟨bound, by simp⟩

theorem write?_of_set? {array stored result : CArray α size} {start : Nat} {first : α}
    {values : List α} (head : array.set? start first = some stored)
    (rest : stored.write? (start + 1) values = some result) :
    array.write? start (first :: values) = some result := by
  obtain ⟨inside, storedCells⟩ := set?_eq_some.mp head
  obtain ⟨fits, cells⟩ := write?_eq_some.mp rest
  refine write?_eq_some.mpr ⟨by rw [List.length_cons]; omega, ?_⟩
  have bound : start < array.cells.length := by rwa [array.length_cells]
  rw [cells, storedCells, List.take_succ_eq_append_getElem (by simpa using bound),
    List.getElem_set_self, List.take_set_of_le (Nat.le_refl _),
    List.drop_set_of_lt (by omega), List.length_cons]
  simp [Nat.add_assoc, Nat.add_comm 1]

theorem write?_front (array : CArray α size) {values : List α}
    (fits : values.length ≤ size) : array.write? 0 values = some (array.fill values) := by
  refine write?_eq_some.mpr ⟨by omega, ?_⟩
  rw [cells_fill array fits, List.take_zero, List.nil_append, Nat.zero_add]

theorem get?_fill (array : CArray α size) {values : List α} {index : Nat}
    (fits : values.length ≤ size) (bound : index < values.length) :
    (array.fill values).get? index = values[index]? := by
  rw [get?, cells_fill array fits, List.getElem?_append_left bound]

end CArray

/-! ## Strings -/

/-- The part of a byte sequence that a string function reads. -/
def cString (bytes : List Byte) : List Byte :=
  bytes.takeWhile (· ≠ 0#8)

/-- Whether there is a NUL to stop at can be checked. -/
instance decidableTerminated (bytes : List Byte) : Decidable (0#8 ∈ bytes) :=
  inferInstance

theorem zero_notMem_cString (bytes : List Byte) : 0#8 ∉ cString bytes := by
  intro member
  simpa using List.mem_takeWhile_imp member

theorem cString_of_notMem {bytes : List Byte} (plain : 0#8 ∉ bytes) :
    cString bytes = bytes := by
  apply List.takeWhile_eq_self_iff.mpr
  intro byte member
  have : byte ≠ 0#8 := fun equality => plain (equality ▸ member)
  simpa using this

theorem length_cString_le (bytes : List Byte) :
    (cString bytes).length ≤ bytes.length :=
  (List.takeWhile_sublist _).length_le

theorem cString_append_zero {text : List Byte} (plain : 0#8 ∉ text)
    (rest : List Byte) : cString (text ++ 0#8 :: rest) = text := by
  induction text with
  | nil => simp [cString]
  | cons byte text induction =>
      have nonzero : byte ≠ 0#8 := fun equality => plain (by simp [equality])
      have tail := induction (fun member => plain (by simp [member]))
      unfold cString at tail ⊢
      rw [List.cons_append, List.takeWhile_cons_of_pos (by simpa using nonzero),
        tail]

theorem exists_cString_append {bytes : List Byte} (terminated : 0#8 ∈ bytes) :
    ∃ rest, bytes = cString bytes ++ 0#8 :: rest := by
  induction bytes with
  | nil => cases terminated
  | cons byte bytes induction =>
      by_cases zero : byte = 0#8
      · subst byte
        exact ⟨bytes, by simp [cString]⟩
      · have tail : 0#8 ∈ bytes := by
          rcases List.mem_cons.mp terminated with head | tail
          · exact absurd head.symm zero
          · exact tail
        obtain ⟨rest, split⟩ := induction tail
        refine ⟨rest, ?_⟩
        unfold cString at split ⊢
        rw [List.takeWhile_cons_of_pos (by simpa using zero), List.cons_append,
          ← split]

theorem cString_append_of_mem {bytes : List Byte} (terminated : 0#8 ∈ bytes)
    (rest : List Byte) : cString (bytes ++ rest) = cString bytes := by
  obtain ⟨tail, split⟩ := exists_cString_append terminated
  have plain := zero_notMem_cString bytes
  generalize cString bytes = text at split plain
  rw [split, List.append_assoc, List.cons_append, cString_append_zero plain]

theorem cString_concat_zero (bytes : List Byte) :
    cString (bytes ++ [0#8]) = cString bytes := by
  by_cases terminated : 0#8 ∈ bytes
  · exact cString_append_of_mem terminated _
  · rw [cString_append_zero terminated, cString_of_notMem terminated]

/-- `strcmp(left, right) == 0`.  Both sequences are arrays; a comparison that
runs off the end of one of them has no result. -/
def strEqual : List Byte → List Byte → Option Bool
  | [], _ => none
  | _ :: _, [] => none
  | left :: lefts, right :: rights =>
      if left ≠ right then some false
      else if left = 0#8 then some true
      else strEqual lefts rights

theorem strEqual_terminated {left right : List Byte}
    (leftPlain : 0#8 ∉ left) (rightPlain : 0#8 ∉ right)
    (leftRest rightRest : List Byte) :
    strEqual (left ++ 0#8 :: leftRest) (right ++ 0#8 :: rightRest) =
      some (decide (left = right)) := by
  induction left generalizing right with
  | nil =>
      cases right with
      | nil => simp [strEqual]
      | cons byte right =>
          have nonzero : ¬ 0#8 = byte := fun equality => rightPlain (by simp [equality])
          simp [strEqual, nonzero]
  | cons byte left induction =>
      have nonzero : byte ≠ 0#8 := fun equality => leftPlain (by simp [equality])
      cases right with
      | nil => simp [strEqual, nonzero]
      | cons other right =>
          have tail := @induction right
            (fun member => leftPlain (by simp [member]))
            (fun member => rightPlain (by simp [member]))
          by_cases same : byte = other
          · subst other
            simp [strEqual, nonzero, tail]
          · simp [strEqual, same]

theorem strEqual_append {left : List Byte} (terminated : 0#8 ∈ left)
    (rest right : List Byte) :
    strEqual (left ++ rest) right = strEqual left right := by
  induction left generalizing right with
  | nil => simp at terminated
  | cons byte left induction =>
      cases right with
      | nil => simp [strEqual]
      | cons other right =>
          by_cases same : byte = other
          · subst other
            by_cases zero : byte = 0#8
            · simp [strEqual, zero]
            · have tail : 0#8 ∈ left := by
                simpa [Ne.symm zero] using terminated
              simp [strEqual, zero, induction tail]
          · simp [strEqual, same]

/-- Comparing with a terminated word of the array's own size never runs off:
the array equals the word or differs from it somewhere. -/
theorem strEqual_word {bytes word : List Byte} (plain : 0#8 ∉ word)
    (sameLength : bytes.length = word.length + 1) :
    strEqual bytes (word ++ [0#8]) = some (decide (bytes = word ++ [0#8])) := by
  induction word generalizing bytes with
  | nil =>
      obtain ⟨byte, rfl⟩ := List.length_eq_one_iff.mp sameLength
      by_cases zero : byte = 0#8
      · simp [strEqual, zero]
      · simp [strEqual, zero]
  | cons letter word induction =>
      cases bytes with
      | nil => simp at sameLength
      | cons byte bytes =>
          have nonzero : letter ≠ 0#8 := fun equality => plain (by simp [equality])
          have tail := @induction bytes
            (fun member => plain (by simp [member])) (by simpa using sameLength)
          by_cases same : byte = letter
          · subst byte
            simp [strEqual, nonzero, tail]
          · simp [strEqual, same]

/-- The string that `snprintf(array, size, text)` leaves. -/
def snprintf (size : Nat) (text : List Byte) : List Byte :=
  cString (text.take (size - 1))

theorem snprintf_eq {size : Nat} {text : List Byte} (plain : 0#8 ∉ text)
    (fits : text.length + 1 ≤ size) : snprintf size text = text := by
  rw [snprintf, List.take_of_length_le (by omega), cString_of_notMem plain]

namespace CArray

variable {size : Nat}

/-- The string an array holds, when it is terminated inside the array. -/
def cString? (array : CArray Byte size) : Option (List Byte) :=
  if 0#8 ∈ array.cells then some (cString array.cells) else none

/-- `sprintf(array, text)` and `strcpy(array, text)`: the text and a NUL. -/
def print? (array : CArray Byte size) (text : List Byte) :
    Option (CArray Byte size) :=
  array.write? 0 (text ++ [0#8])

/-- `sprintf(array + strlen(array), text)` and `strcat(array, text)`. -/
def append? (array : CArray Byte size) (text : List Byte) :
    Option (CArray Byte size) := do
  let old ← array.cString?
  array.write? old.length (text ++ [0#8])

theorem cString?_of_mem {array : CArray Byte size}
    (terminated : 0#8 ∈ array.cells) : array.cString? = some (cString array.cells) :=
  if_pos terminated

theorem cString?_eq_some {array : CArray Byte size} {text : List Byte} :
    array.cString? = some text ↔
      0#8 ∉ text ∧ ∃ rest, array.cells = text ++ 0#8 :: rest := by
  unfold cString?
  constructor
  · intro defined
    split at defined <;> rename_i terminated
    · cases defined
      exact ⟨zero_notMem_cString _, exists_cString_append terminated⟩
    · cases defined
  · intro given
    obtain ⟨plain, rest, split⟩ := given
    simp [split, cString_append_zero plain]

theorem zero_notMem_of_cString? {array : CArray Byte size} {text : List Byte}
    (holds : array.cString? = some text) : 0#8 ∉ text :=
  (cString?_eq_some.mp holds).1

theorem zero_mem_of_cString? {array : CArray Byte size} {text : List Byte}
    (holds : array.cString? = some text) : 0#8 ∈ array.cells := by
  obtain ⟨_, rest, split⟩ := cString?_eq_some.mp holds
  simp [split]

theorem cString?_replicate_zero (positive : 0 < size) :
    (replicate size 0#8).cString? = some [] := by
  obtain ⟨rest, rfl⟩ : ∃ rest, size = rest + 1 := ⟨size - 1, by omega⟩
  exact cString?_eq_some.mpr ⟨by simp, List.replicate rest 0#8, by
    simp [List.replicate_succ]⟩

theorem cString?_fill (array : CArray Byte size) {values : List Byte}
    (fits : values.length ≤ size) (terminated : 0#8 ∈ values) :
    (array.fill values).cString? = some (cString values) := by
  unfold cString?
  rw [cells_fill array fits, cString_append_of_mem terminated, if_pos]
  exact List.mem_append_left _ terminated

theorem length_lt_of_cString? {array : CArray Byte size} {text : List Byte}
    (holds : array.cString? = some text) : text.length < size := by
  obtain ⟨_, rest, split⟩ := cString?_eq_some.mp holds
  have length := array.length_cells
  rw [split] at length
  simp at length
  omega

private theorem cString?_of_cells {array : CArray Byte size}
    {old text rest : List Byte} (oldPlain : 0#8 ∉ old)
    (split : array.cells = old ++ (text ++ [0#8]) ++ rest) :
    array.cString? = some (old ++ cString text) := by
  apply cString?_eq_some.mpr
  constructor
  · simp [oldPlain, zero_notMem_cString]
  · by_cases terminated : 0#8 ∈ text
    · obtain ⟨tail, textSplit⟩ := exists_cString_append terminated
      refine ⟨tail ++ [0#8] ++ rest, ?_⟩
      rw [split]
      nth_rewrite 1 [textSplit]
      simp
    · exact ⟨rest, by simp [split, cString_of_notMem terminated]⟩

theorem cString?_print {array result : CArray Byte size} {text : List Byte}
    (printed : array.print? text = some result) :
    result.cString? = some (cString text) := by
  obtain ⟨_, cells⟩ := write?_eq_some.mp printed
  exact @cString?_of_cells _ result [] text _ (by simp) (by simpa using cells)

theorem cString?_terminated {array ended : CArray Byte size} {values : List Byte}
    (stored : (array.fill values).set? values.length 0#8 = some ended) :
    ended.cString? = some (cString values) := by
  obtain ⟨inside, cells⟩ := set?_eq_some.mp stored
  obtain ⟨old, behind, drop⟩ := List.exists_cons_of_length_pos
    (show 0 < (array.cells.drop values.length).length by
      rw [List.length_drop, array.length_cells]
      omega)
  refine @cString?_of_cells _ ended [] values behind (by simp) ?_
  rw [cells, cells_fill array (by omega), drop, List.set_append_right _ _ (Nat.le_refl _)]
  simp

theorem cString?_received {array ended : CArray Byte size} {stream : List Byte} {count : Nat}
    (plain : 0#8 ∉ stream) (there : count ≤ stream.length)
    (stored : (array.fill (stream.take count)).set? count 0#8 = some ended) :
    ended.cString? = some (stream.take count) := by
  have length : (stream.take count).length = count := List.length_take_of_le there
  have printed := @cString?_terminated _ array ended (stream.take count)
    (by rw [length]; exact stored)
  rwa [cString_of_notMem fun zero => plain (List.mem_of_mem_take zero)] at printed

theorem print?_isSome {array : CArray Byte size} {text : List Byte}
    (fits : text.length + 1 ≤ size) :
    ∃ result, array.print? text = some result :=
  write?_isSome (by simpa using fits)

theorem length_of_print? {array result : CArray Byte size} {text : List Byte}
    (printed : array.print? text = some result) : text.length + 1 ≤ size := by
  simpa using (write?_eq_some.mp printed).1

theorem cString?_append {array result : CArray Byte size}
    {old text : List Byte} (holds : array.cString? = some old)
    (appended : array.append? text = some result) :
    result.cString? = some (old ++ cString text) := by
  obtain ⟨oldPlain, oldRest, split⟩ := cString?_eq_some.mp holds
  simp only [append?, holds, Option.bind_eq_bind, Option.bind_some] at appended
  obtain ⟨_, cells⟩ := write?_eq_some.mp appended
  have parts : result.cells = old ++ (text ++ [0#8]) ++
      array.cells.drop (old.length + (text ++ [0#8]).length) := by
    rw [cells, split]
    simp
  exact cString?_of_cells oldPlain parts

theorem append?_isSome {array : CArray Byte size} {old text : List Byte}
    (holds : array.cString? = some old)
    (fits : old.length + text.length + 1 ≤ size) :
    ∃ result, array.append? text = some result := by
  simp only [append?, holds, Option.bind_eq_bind, Option.bind_some]
  exact write?_isSome (by simp; omega)

theorem length_of_append? {array result : CArray Byte size}
    {old text : List Byte} (holds : array.cString? = some old)
    (appended : array.append? text = some result) :
    old.length + text.length + 1 ≤ size := by
  simp only [append?, holds, Option.bind_eq_bind, Option.bind_some] at appended
  have bound := (write?_eq_some.mp appended).1
  simp at bound
  omega

end CArray

/-! ## Counting loops -/

/-- `for (j = 0; j < count; j++) body`. -/
def forLoop {σ : Type*} (body : Nat → σ → Option σ) : Nat → σ → Option σ
  | 0, state => some state
  | count + 1, state => (forLoop body count state).bind (body count)

section forLoop

variable {σ : Type*} {body : Nat → σ → Option σ} {start final : σ}
  {count : Nat}

@[simp] theorem forLoop_zero : forLoop body 0 start = some start := rfl

theorem forLoop_succ_eq_some :
    forLoop body (count + 1) start = some final ↔
      ∃ middle, forLoop body count start = some middle ∧
        body count middle = some final := by
  simp [forLoop, Option.bind_eq_some_iff]

theorem forLoop_front :
    forLoop body (count + 1) start =
      (body 0 start).bind (forLoop (fun index => body (index + 1)) count) := by
  induction count with
  | zero => simp [forLoop]
  | succ count induction =>
      rw [forLoop, induction, Option.bind_assoc]
      rfl

theorem forLoop_congr {other : Nat → σ → Option σ}
    (same : ∀ index < count, ∀ state, body index state = other index state) :
    forLoop body count start = forLoop other count start := by
  induction count with
  | zero => rfl
  | succ count induction =>
      rw [forLoop, forLoop, induction (fun index bound => same index (by omega))]
      congr 1
      funext state
      exact same count (by omega) state

/-- An embedding of the states that commutes with the body commutes with the loop. -/
theorem forLoop_map {τ : Type*} {other : Nat → τ → Option τ} (embed : σ → τ)
    (commutes : ∀ index state, other index (embed state) = (body index state).map embed) :
    forLoop other count (embed start) = (forLoop body count start).map embed := by
  induction count with
  | zero => rfl
  | succ count induction =>
      rw [forLoop, forLoop, induction]
      cases forLoop body count start with
      | none => rfl
      | some middle => exact commutes count middle

/-- A loop that takes the items of a list one after another. -/
theorem forLoop_eq_foldlM {α : Type*} {items : List α} {step : σ → α → Option σ}
    (same : ∀ index, ∀ inside : index < items.length, ∀ state,
      body index state = step state items[index]) (bound : count ≤ items.length) :
    forLoop body count start = (items.take count).foldlM step start := by
  induction count with
  | zero => rfl
  | succ count induction =>
      have inside : count < items.length := bound
      rw [forLoop, induction (by omega), List.take_succ_eq_append_getElem inside,
        List.foldlM_append]
      congr 1
      funext state
      rw [same count inside, List.foldlM_cons]
      simp

/-- Partial correctness: what each iteration preserves holds at the exit. -/
theorem forLoop_invariant (Invariant : Nat → σ → Prop)
    (initially : Invariant 0 start)
    (preserved : ∀ index < count, ∀ {before after}, Invariant index before →
      body index before = some after → Invariant (index + 1) after)
    (finished : forLoop body count start = some final) :
    Invariant count final := by
  induction count generalizing final with
  | zero =>
      cases finished
      exact initially
  | succ count induction =>
      obtain ⟨middle, earlier, last⟩ := forLoop_succ_eq_some.mp finished
      exact preserved count (by omega)
        (induction (fun index bound => preserved index (by omega)) earlier) last

/-- Total correctness: each iteration succeeds and preserves the invariant. -/
theorem forLoop_total (Invariant : Nat → σ → Prop)
    (initially : Invariant 0 start)
    (advances : ∀ index < count, ∀ {before}, Invariant index before →
      ∃ after, body index before = some after ∧ Invariant (index + 1) after) :
    ∃ final, forLoop body count start = some final ∧ Invariant count final := by
  induction count with
  | zero => exact ⟨start, rfl, initially⟩
  | succ count induction =>
      obtain ⟨middle, earlier, held⟩ :=
        induction (fun index bound => advances index (by omega))
      obtain ⟨final, last, finalHeld⟩ := advances count (by omega) held
      exact ⟨final, forLoop_succ_eq_some.mpr ⟨middle, earlier, last⟩, finalHeld⟩

end forLoop

/-! ## Moving a part down by one -/

namespace CArray

variable {α : Type*} {size : Nat}

/-- `for (j = start; j < start + turns; j++) array[j] = array[j + 1]`. -/
def moveDown (start turns : Nat) (array : CArray α size) : Option (CArray α size) :=
  forLoop (fun turn array => do
    let next ← array.get? (start + turn + 1)
    array.set? (start + turn) next) turns array

/-- The loop stays inside the array exactly when the last cell that it reads
is there. -/
theorem moveDown_bound {start turns : Nat} {array moved : CArray α size}
    (ran : moveDown start turns array = some moved) :
    turns = 0 ∨ start + turns < size := by
  cases turns with
  | zero => exact .inl rfl
  | succ turn =>
      obtain ⟨middle, _, last⟩ := forLoop_succ_eq_some.mp ran
      simp only [Option.bind_eq_bind, Option.bind_eq_some_iff] at last
      obtain ⟨next, got, _⟩ := last
      have inside := (List.getElem?_eq_some_iff.mp got).1
      rw [middle.length_cells] at inside
      exact .inr inside

/-- What the loop leaves: the cell at `start` is gone and the `turns` cells
behind it have moved down. -/
theorem exists_moveDown {start turns : Nat} (array : CArray α size)
    (bound : turns = 0 ∨ start + turns < size) :
    ∃ moved, moveDown start turns array = some moved ∧
      moved.cells = array.cells.take start ++
        (array.cells.drop (start + 1)).take turns ++
          array.cells.drop (start + turns) := by
  refine forLoop_total (fun turn (moved : CArray α size) =>
    moved.cells = array.cells.take start ++
      (array.cells.drop (start + 1)).take turn ++
        array.cells.drop (start + turn)) (by simp) ?_
  intro turn earlier before cells
  have size_eq := array.length_cells
  have inside : start + turn + 1 < array.cells.length := by omega
  have front : (array.cells.take start ++
      (array.cells.drop (start + 1)).take turn).length = start + turn := by
    simp only [List.length_append, List.length_take, List.length_drop]
    omega
  have got : before.get? (start + turn + 1) = some array.cells[start + turn + 1] := by
    rw [get?, cells, List.getElem?_append_right (by omega), front,
      List.getElem?_drop, Nat.add_assoc, Nat.add_sub_cancel_left,
      ← Nat.add_assoc, List.getElem?_eq_getElem inside]
  have slot : start + turn < size := by omega
  obtain ⟨after, stored⟩ : ∃ after,
      before.set? (start + turn) array.cells[start + turn + 1] = some after := by
    simp [set?, slot]
  refine ⟨after, by simpa [got] using stored, ?_⟩
  have replaced : (array.cells.drop (start + turn)).set 0 array.cells[start + turn + 1] =
      array.cells[start + turn + 1] :: array.cells.drop (start + (turn + 1)) := by
    rw [List.drop_eq_getElem_cons (by omega), List.set_cons_zero]
    rfl
  have longer : (array.cells.drop (start + 1)).take (turn + 1) =
      (array.cells.drop (start + 1)).take turn ++ [array.cells[start + turn + 1]] := by
    have position : start + 1 + turn = start + turn + 1 := by omega
    rw [List.take_add_one, List.getElem?_drop, position,
      List.getElem?_eq_getElem inside, Option.toList_some]
  rw [(set?_eq_some.mp stored).2, cells, List.set_append_right _ _ (by omega), front,
    Nat.sub_self, replaced, longer]
  simp

theorem moveDown_eq_some {start turns : Nat} {array moved : CArray α size} :
    moveDown start turns array = some moved ↔
      (turns = 0 ∨ start + turns < size) ∧
        moved.cells = array.cells.take start ++
          (array.cells.drop (start + 1)).take turns ++
            array.cells.drop (start + turns) := by
  constructor
  · intro ran
    have bound := moveDown_bound ran
    obtain ⟨other, same, cells⟩ := exists_moveDown array bound
    rw [ran] at same
    cases same
    exact ⟨bound, cells⟩
  · intro given
    obtain ⟨bound, cells⟩ := given
    obtain ⟨other, ran, otherCells⟩ := exists_moveDown array bound
    rw [ran, ext (otherCells.trans cells.symm)]

theorem take_moveDown {start turns count : Nat} {array moved : CArray α size}
    (ran : moveDown start turns array = some moved) (behind : start ≤ count)
    (reached : count ≤ start + turns) :
    moved.cells.take count = (array.cells.take (count + 1)).eraseIdx start := by
  obtain ⟨bound, cells⟩ := moveDown_eq_some.mp ran
  have turn : count + 1 - (start + 1) = count - start := by omega
  rw [List.eraseIdx_eq_take_drop_succ, List.take_take, List.drop_take, turn,
    Nat.min_eq_left (by omega), cells]
  rcases bound with rfl | inside
  · obtain rfl : count = start := by omega
    simp
  · have size_eq := array.length_cells
    have front : (array.cells.take start).length = start := by
      rw [List.length_take]
      omega
    have moved : count - start ≤ ((array.cells.drop (start + 1)).take turns).length := by
      rw [List.length_take, List.length_drop]
      omega
    rw [List.append_assoc, List.take_append, front, List.take_take,
      Nat.min_eq_right behind, List.take_append_of_le_length moved, List.take_take,
      Nat.min_eq_left (by omega)]

end CArray
