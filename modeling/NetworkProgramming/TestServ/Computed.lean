import NetworkProgramming.Foundation.DecimalText
import NetworkProgramming.TestServ.Answers

/-!
# Broadcasts of what was never computed

Three exits of `calculate` return 0 before `formatted_expr` is written, and the
handler broadcasts that 0 with the text its stack held.  A negative count does
reach the computation, with an `operands[0]` that no token was stored in.
-/

namespace NetworkProgramming.TestServ

open MachineInt Strtok
open Hw8 (foundExpression Supplied)

/-- Whatever the locals of `calculate` and `formatted_expr` held before, what is
broadcast for the text is the text of one expression with the value of that
expression: nothing of it was there already. -/
def Computed (atoi : List Byte → Word) (text : List Byte) : Prop :=
  ∃ expression : Expression, ∀ s thread returned,
    Evaluated atoi text s thread returned →
      ∀ next, step atoi s (.broadcast thread) = some next →
        returned.formatted_expr.cString? = some expression.text ∧
          leftToRight expression = some returned.result

section computed

variable {atoi : List Byte → Word} {text counted : List Byte} {found : List (List Byte)}

theorem text_ne_nil (expression : Expression) : expression.text ≠ [] := by
  intro empty
  rw [Expression.text, List.append_eq_nil_iff] at empty
  exact decimal_ne_nil _ empty.1

/-- Without a token for what it needs next, `calculate` leaves `formatted_expr` as
it was, which may be empty. -/
theorem not_computed_of_noToken (plain : 0#8 ∉ text) (short : text.length < BUF_SIZE)
    (leaves : ∀ (locals : Call) (expr : CArray Byte BUF_SIZE),
      expr.cString? = some text → calculate atoi locals expr = some locals.noToken) :
    ¬ Computed atoi text := by
  intro computed
  obtain ⟨expression, computes⟩ := computed
  obtain ⟨expr, holds, evaluates⟩ := exists_evaluated atoi plain short Call.zero
  obtain ⟨s, thread, evaluated⟩ := evaluates _ (leaves Call.zero expr holds)
  have empty : Call.zero.noToken.formatted_expr.cString? = some [] :=
    CArray.cString?_replicate_zero (by decide)
  obtain ⟨handler, id, _, _, taken⟩ := evaluated.broadcast_step (by decide) empty
  obtain ⟨stale, _⟩ := computes s thread _ evaluated _ (taken _ rfl)
  rw [empty, Option.some.injEq] at stale
  exact text_ne_nil expression stale.symm

theorem not_computed_of_negative (plain : 0#8 ∉ text) (short : text.length < BUF_SIZE)
    (split : tokens (ascii ' ') text = counted :: found)
    (negative : (atoi counted).toInt < 0) : ¬ Computed atoi text := by
  intro computed
  obtain ⟨expression, computes⟩ := computed
  have broadcast (stale : Word) (other : stale ≠ -99999#32) :
      leftToRight expression = some stale := by
    obtain ⟨s, thread, formatted_expr, evaluated, printed⟩ :=
      exists_negative plain short split negative stale
    obtain ⟨handler, id, _, _, taken⟩ := evaluated.broadcast_step other printed
    exact (computes s thread _ evaluated _ (taken _ rfl)).2
  have zero := broadcast 0 (by decide)
  rw [broadcast 1 (by decide)] at zero
  exact absurd zero (by decide)

end computed

/-- What is broadcast for a text was computed from it exactly when the text has a
count, and that count is 0 or too large, or in range and followed by all the
tokens that it declares. -/
theorem computed_iff {atoi : List Byte → Word} {text : List Byte} (plain : 0#8 ∉ text)
    (short : text.length < BUF_SIZE) :
    Computed atoi text ↔ ∃ counted found, tokens (ascii ' ') text = counted :: found ∧
      ((atoi counted).toInt = 0 ∨ 127 < (atoi counted).toInt ∨
        Supplied (atoi counted).toInt found) := by
  constructor
  · intro computed
    cases split : tokens (ascii ' ') text with
    | nil =>
        refine absurd computed (not_computed_of_noToken plain short ?_)
        intro locals expr holds
        have scans := scans_of_cString? holds split
        exact calculate_empty scans locals
    | cons counted found =>
        refine ⟨counted, found, rfl, ?_⟩
        by_cases negative : (atoi counted).toInt < 0
        · exact absurd computed (not_computed_of_negative plain short split negative)
        · by_contra other
          unfold Supplied at other
          refine not_computed_of_noToken plain short ?_ computed
          intro locals expr holds
          have scans := scans_of_cString? holds split
          exact calculate_missing scans (by omega) (by omega) (by omega) locals
  · intro given
    obtain ⟨counted, found, split, given⟩ := given
    have sentinel (outside : (atoi counted).toInt = 0 ∨ 127 < (atoi counted).toInt) :
        Computed atoi text :=
      ⟨⟨0, []⟩, fun s thread returned evaluated next taken =>
        absurd (evaluated.outOfRange split outside) (evaluated.other taken)⟩
    rcases given with zero | large | supplied
    · exact sentinel (.inl zero)
    · exact sentinel (.inr large)
    · refine ⟨foundExpression atoi (atoi counted).toInt.toNat found,
        fun s thread returned evaluated next _ => ?_⟩
      obtain ⟨value, formatted⟩ := evaluated.supplied plain split supplied
      exact ⟨formatted, value⟩

theorem difference_computed : Computed atoi differenceText :=
  (computed_iff (by decide) (by decide)).mpr
    ⟨[ascii '2'], [[ascii '7'], [ascii '5'], [ascii '-']], by decide,
      .inr (.inr (by unfold Supplied; decide))⟩

/-- An empty line, `2 7` and `-1` are broadcast with what the stack held. -/
theorem stale_broadcast :
    ¬ Computed atoi [] ∧ ¬ Computed atoi [ascii '2', ascii ' ', ascii '7'] ∧
      ¬ Computed atoi [ascii '-', ascii '1'] := by
  refine ⟨?_, ?_, ?_⟩
  · apply not_computed_of_noToken (by decide) (by decide)
    intro locals expr holds
    exact calculate_empty (scans_of_cString? holds (by decide)) locals
  · apply not_computed_of_noToken (by decide) (by decide)
    intro locals expr holds
    have split : tokens (ascii ' ') [ascii '2', ascii ' ', ascii '7'] =
        [[ascii '2'], [ascii '7']] := by decide
    have scans := scans_of_cString? holds split
    exact calculate_missing scans (by decide) (by decide) (by decide) locals
  · exact not_computed_of_negative (by decide) (by decide)
      (by decide : tokens (ascii ' ') [ascii '-', ascii '1'] = [[ascii '-', ascii '1']])
      (by decide)

end NetworkProgramming.TestServ
