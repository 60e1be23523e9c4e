import NetworkProgramming.Formula
import NetworkProgramming.Hw6.Server

/-!
# Operators that `hw6_server` records and does not apply

The `switch` of `calculator` has no case for an operator other than `+`, `-`
and `*` and leaves the result as it is; the `sprintf` behind it prints every
operator.  The line of such a request is stored like any other.
-/

namespace NetworkProgramming.Hw6

open MachineInt

/-- What was replied and stored is an equation: the line ends in the result,
and that is the value of the formula in front of it, which has one only when
every operator is applied. -/
def IsEquation (expression : Expression) (response : Response) : Prop :=
  ∃ result record, response.reply = some (Word.toBytes result) ∧
    response.record = some record ∧
    record.req.cString? = some (expression.text ++ resultText result) ∧
    expression.value? = some result

/-- Whatever the operators are, a stored line is an equation exactly when the
`switch` has a case for each of them. -/
theorem stored_equation_iff {globals next : Globals} {response : Response}
    (saves : branch globals.mode.cells = .save)
    (ran : mode_check globals = some (next, response)) :
    IsEquation globals.expression response ↔
      ∀ operator ∈ globals.expression.operators, Applied operator := by
  constructor
  · intro given
    obtain ⟨_, _, _, _, _, value⟩ := given
    exact (value?_eq_some.mp value).1
  · intro applied
    obtain ⟨name, record, _, recorded, rfl⟩ := mode_check_save saves ran
    have text := CArray.cString?_print recorded.req
    rw [cString_of_notMem globals.expression.zero_notMem_line] at text
    exact ⟨_, record, rfl, rfl, text, value?_eq_some.mpr ⟨applied, rfl⟩⟩

/-- A save under `aaaa` as it arrives. -/
def arrived (expression : Expression) : Globals :=
  Globals.initial.scatter (saveWord ++ List.replicate 4 (ascii 'a') ++ 0#8 :: expression.encode)

theorem sum_stored : ∃ next response,
    mode_check (arrived ⟨1, [(ascii '+', 2)]⟩) = some (next, response) ∧
      IsEquation (arrived ⟨1, [(ascii '+', 2)]⟩).expression response := by
  have defined : (mode_check (arrived ⟨1, [(ascii '+', 2)]⟩)).isSome = true := by
    decide +kernel
  obtain ⟨⟨next, response⟩, ran⟩ := Option.isSome_iff_exists.mp defined
  exact ⟨next, response, ran,
    (stored_equation_iff (by decide +kernel) ran).mpr (by decide +kernel)⟩

/-- `6/2=6` is stored. -/
theorem quotient_stored : ∃ next response,
    mode_check (arrived ⟨6, [(ascii '/', 2)]⟩) = some (next, response) ∧
      (response.record.bind fun record => record.req.cString?) =
        some [ascii '6', ascii '/', ascii '2', ascii '=', ascii '6', ascii '\n'] ∧
      ¬ IsEquation (arrived ⟨6, [(ascii '/', 2)]⟩).expression response := by
  have stored : (mode_check (arrived ⟨6, [(ascii '/', 2)]⟩)).map (fun result =>
      result.2.record.bind fun record => record.req.cString?) = some (some
        [ascii '6', ascii '/', ascii '2', ascii '=', ascii '6', ascii '\n']) := by
    decide +kernel
  obtain ⟨⟨next, response⟩, ran, line⟩ := Option.map_eq_some_iff.mp stored
  refine ⟨next, response, ran, line, ?_⟩
  intro given
  obtain ⟨_, _, _, _, _, value⟩ := given
  exact absurd ((value?_eq_some.mp value).1) (by decide +kernel)

end NetworkProgramming.Hw6
