import NetworkProgramming.Hw8.Framing

/-!
# One request in the arrays of `hw8_server`

A request of 1029 bytes fills `name` and `req`.  Nothing checks its count, the
end of its name or the length of its formula: with a count that is not positive
`operand[0]` is what an earlier request or the stack left, and the formula of
many long operands leaves `buf`.
-/

namespace NetworkProgramming.Hw8

open MachineInt

/-- `opCount`, the byte behind the name. -/
def countOf (received : List Byte) : Int := (received.getD NAME_SIZE 0#8).toInt

/-- The cells of `operand` that an iteration reads: `operand[0]`, and
`operand[j+1]` in the loop over the operators. -/
def operandReads (opCount : Int) : List Nat :=
  0 :: (List.range (opCount - 1).toNat).map fun j => j + 1

/-- The first loop has put a word into the cell, whatever the array held. -/
def Written (opCount : Int) (req : CArray Byte BUF_SIZE) (index : Nat) : Prop :=
  ∃ word, ∀ operand decoded : CArray Word BUF_SIZE,
    decodeOperands req opCount.toNat operand = some decoded →
      decoded.get? index = some word

/-- The iteration stays inside its arrays, finds the end of the name, and reads
from `req` and `operand` only what this request has put there.  An operator is
read right behind its assignment. -/
structure Formats (received : List Byte) : Prop where
  defined : ∀ locals, ∃ after message, respond locals received = some (after, message)
  req : ∀ locals other : Locals,
    (locals.scatter received).req = (other.scatter received).req
  operand : ∀ locals : Locals, ∀ index ∈ operandReads (countOf received),
    Written (countOf received) (locals.scatter received).req index

section formats

variable {received : List Byte}

theorem scatter_whole (whole : received.length = REQUEST_SIZE) (locals : Locals) :
    (locals.scatter received).name.cells = received.take NAME_SIZE ∧
      (locals.scatter received).req.cells = received.drop NAME_SIZE := by
  have size : REQUEST_SIZE = 5 + 1024 := rfl
  have nameSize : NAME_SIZE = 5 := rfl
  have bufSize : BUF_SIZE = 1024 := rfl
  refine ⟨CArray.cells_fill_full _ ?_, CArray.cells_fill_full _ ?_⟩
  · rw [List.length_take]
    omega
  · rw [List.length_drop]
    omega

theorem countOf_scatter (whole : received.length = REQUEST_SIZE) (locals : Locals) :
    ((locals.scatter received).req.cells.getD 0 0#8).toInt = countOf received := by
  rw [(scatter_whole whole locals).2, countOf, List.getD_eq_getElem?_getD,
    List.getElem?_drop, Nat.add_zero, ← List.getD_eq_getElem?_getD]

theorem written_iff {opCount : Int} (small : opCount ≤ 127)
    {req : CArray Byte BUF_SIZE} {index : Nat} (inside : index < BUF_SIZE) :
    Written opCount req index ↔ index < opCount.toNat := by
  have size : BUF_SIZE = 1024 := rfl
  constructor
  · intro written
    obtain ⟨word, stored⟩ := written
    by_contra above
    have kept (stale : Word) : word = stale := by
      obtain ⟨decoded, ran⟩ : ∃ decoded,
          decodeOperands req opCount.toNat (CArray.replicate BUF_SIZE stale) =
            some decoded :=
        decodeOperands_isSome (by omega) (by omega)
      have got := stored _ _ ran
      rw [CArray.get?, decodeOperands_cells ran, List.getElem?_append_right (by
        simp; omega)] at got
      simp only [List.length_map, List.length_range, CArray.cells_replicate,
        List.getElem?_drop] at got
      rw [Nat.add_sub_cancel' (by omega), List.getElem?_replicate_of_lt inside] at got
      exact (Option.some.inj got).symm
    exact absurd ((kept 0).symm.trans (kept 1)) (by decide)
  · intro below
    exact ⟨_, fun operand decoded ran => get?_decodeOperands ran below⟩

theorem respond_isSome_iff {locals : Locals} :
    (∃ after message, respond locals received = some (after, message)) ↔
      (requestedExpression (locals.scatter received).req locals.operand).Fits BUF_SIZE 0 ∧
        0#8 ∈ (locals.scatter received).name.cells := by
  constructor
  · intro given
    obtain ⟨after, message, ran⟩ := given
    simp only [respond, Option.bind_eq_bind, Option.bind_eq_some_iff] at ran
    obtain ⟨computed, calculated, name, isName, _⟩ := ran
    refine ⟨?_, CArray.zero_mem_of_cString? isName⟩
    by_contra overflow
    have stuck := (@computeRequest_spec _ _ _ (locals.scatter received).req
      locals.operand locals.buf (by decide) (by decide)).2 overflow
    have same : computeRequest (locals.scatter received).req locals.operand locals.buf =
        some computed := calculated
    rw [stuck] at same
    cases same
  · intro given
    obtain ⟨fits, terminated⟩ := given
    obtain ⟨after, responded⟩ := respond_spec (CArray.cString?_of_mem terminated) fits
    exact ⟨after, _, responded⟩

end formats

/-- An iteration handles a whole request inside its arrays and from its own
bytes exactly when the count is positive, the name ends within its five bytes
and the formula fits. -/
theorem formats_iff {received : List Byte} (whole : received.length = REQUEST_SIZE) :
    Formats received ↔
      0 < countOf received ∧ 0#8 ∈ received.take NAME_SIZE ∧
        (decodeExpression (received.drop NAME_SIZE) (countOf received).toNat).Fits
          BUF_SIZE 0 := by
  have small := @BitVec.toInt_lt 8 (received.getD NAME_SIZE 0#8)
  have size : BUF_SIZE = 1024 := rfl
  have requested (positive : 0 < countOf received) (locals : Locals) :
      requestedExpression (locals.scatter received).req locals.operand =
        decodeExpression (received.drop NAME_SIZE) (countOf received).toNat := by
    rw [requestedExpression, countOf_scatter whole, if_pos positive,
      (scatter_whole whole locals).2]
  have below : countOf received ≤ 127 := by
    unfold countOf
    omega
  constructor
  · intro formats
    have first := formats.operand Locals.zero 0 (by simp [operandReads])
    rw [written_iff below (by decide)] at first
    have positive : 0 < countOf received := by omega
    obtain ⟨fits, terminated⟩ := respond_isSome_iff.mp (formats.defined Locals.zero)
    rw [requested positive] at fits
    rw [(scatter_whole whole Locals.zero).1] at terminated
    exact ⟨positive, terminated, fits⟩
  · intro given
    obtain ⟨positive, terminated, fits⟩ := given
    refine ⟨fun locals => respond_isSome_iff.mpr ⟨?_, ?_⟩, fun locals other => ?_, ?_⟩
    · rw [requested positive]
      exact fits
    · rw [(scatter_whole whole locals).1]
      exact terminated
    · exact CArray.ext (by
        rw [(scatter_whole whole locals).2, (scatter_whole whole other).2])
    · intro locals index read
      have inside : index < (countOf received).toNat := by
        rcases List.mem_cons.mp read with rfl | later
        · omega
        · obtain ⟨j, bound, rfl⟩ := List.mem_map.mp later
          rw [List.mem_range] at bound
          omega
      exact (written_iff below (by omega)).mpr inside

theorem seven_formats : Formats (cutName ++ cutBody) :=
  (formats_iff (by decide +kernel)).mpr (by decide +kernel)

/-- The request of `abcd` with the count 0 is answered with the number that an
earlier one left. -/
theorem zero_count_stale :
    ¬ Formats (cutName ++ List.replicate BUF_SIZE 0#8) ∧
      (respond Locals.zero (cutName ++ List.replicate BUF_SIZE 0#8)).map Prod.snd ≠
        (respond { Locals.zero with operand := CArray.replicate BUF_SIZE 7 }
          (cutName ++ List.replicate BUF_SIZE 0#8)).map Prod.snd := by
  constructor
  · intro formats
    have first := formats.operand Locals.zero 0 (by simp [operandReads])
    rw [written_iff (by decide) (by decide)] at first
    exact absurd first (by decide)
  · decide +kernel

end NetworkProgramming.Hw8
