import NetworkProgramming.TestServ.Answers

/-!
# The divisions of `calculate`

The test in front of `/=` keeps a zero divisor away.  There is one more pair of
`int`s without a quotient in `int`: the least number and minus one.  The
accumulator can get to the least number, or start with it.
-/

namespace NetworkProgramming.TestServ

open MachineInt Strtok
open Hw8 (foundExpression Supplied)

/-- The turn of the loop with this index divides: the turns before it lead to the
dividend, and the divisor passed the test. -/
def Divides (call : Call) (i : Nat) (dividend divisor : Word) : Prop :=
  i + 1 < call.operand_count ∧
    evaluate { call with operand_count := i + 1 } = some dividend ∧
    call.operators.get? i = some (ascii '/') ∧
    call.operands.get? (i + 1) = some divisor ∧ divisor ≠ 0

/-- The quotient is defined and is an `int`. -/
def HasQuotient (dividend divisor : Word) : Prop :=
  divisor.toInt ≠ 0 ∧ -2147483648 ≤ dividend.toInt.tdiv divisor.toInt ∧
    dividend.toInt.tdiv divisor.toInt ≤ 2147483647

theorem hasQuotient_iff {dividend divisor : Word} (nonzero : divisor ≠ 0) :
    HasQuotient dividend divisor ↔
      ¬ (dividend = -2147483648#32 ∧ divisor = -1#32) := by
  constructor
  · intro quotient trap
    obtain ⟨rfl, rfl⟩ := trap
    exact absurd quotient.2.2 (by decide)
  · intro other
    have least : dividend ≠ BitVec.intMin 32 ∨ divisor ≠ -1#32 := by
      by_contra both
      push Not at both
      exact other ⟨both.1.trans (by decide), both.2⟩
    have value := BitVec.toInt_sdiv_of_ne_or_ne dividend divisor least
    have lower := BitVec.le_toInt (dividend.sdiv divisor)
    have upper := @BitVec.toInt_lt 32 (dividend.sdiv divisor)
    refine ⟨?_, by omega, by omega⟩
    intro zero
    exact nonzero (BitVec.eq_of_toInt_eq zero)

section steps

variable {call : Call} {expression : Expression} {i : Nat} {dividend divisor : Word}

theorem divides_load_iff (small : expression.count ≤ 255) :
    Divides (call.load expression) i dividend divisor ↔
      leftToRight ⟨expression.first, expression.steps.take i⟩ = some dividend ∧
        expression.steps[i]? = some (ascii '/', divisor) ∧ divisor ≠ 0 := by
  have count : (call.load expression).operand_count = expression.steps.length + 1 := rfl
  by_cases inside : i < expression.steps.length
  · obtain ⟨operator, operand⟩ := @get?_load call expression small i inside
    rw [Divides, count, evaluate_load_take small (Nat.le_of_lt inside), operator, operand,
      List.getElem?_eq_getElem inside]
    simp only [Option.some.injEq, Prod.ext_iff]
    constructor
    · intro given
      exact ⟨given.2.1, ⟨given.2.2.1, given.2.2.2.1⟩, given.2.2.2.2⟩
    · intro given
      exact ⟨by omega, given.1, given.2.1.1, given.2.1.2, given.2.2⟩
  · constructor
    · intro divides
      have bound := divides.1
      rw [count] at bound
      omega
    · intro given
      rw [List.getElem?_eq_none (by omega)] at given
      cases given.2.1

theorem applyOperator_eq_none {operator : Byte} {result operand : Word} :
    applyOperator operator result operand = none ↔
      operator = ascii '/' ∧ result = -2147483648#32 ∧ operand = -1#32 := by
  constructor
  · intro stuck
    unfold applyOperator divide at stuck
    split_ifs at stuck with plus minus times slash nonzero trap
    exact ⟨slash, trap.1, trap.2⟩
  · intro given
    obtain ⟨rfl, rfl, rfl⟩ := given
    decide

/-- No quotient by minus one is taken when the steps before it have come to the
least number. -/
def NeverTraps (expression : Expression) : Prop :=
  ∀ i, expression.steps[i]? = some (ascii '/', -1#32) →
    leftToRight ⟨expression.first, expression.steps.take i⟩ ≠ some (-2147483648#32)

instance (expression : Expression) : Decidable (NeverTraps expression) :=
  decidable_of_iff (∀ i < expression.steps.length,
      expression.steps[i]? = some (ascii '/', -1#32) →
        leftToRight ⟨expression.first, expression.steps.take i⟩ ≠ some (-2147483648#32))
    ⟨fun never i division => never i (List.getElem?_eq_some_iff.mp division).1 division,
      fun never i _ => never i⟩

/-- Such an expression has a value behind each of its steps. -/
theorem NeverTraps.value (never : NeverTraps expression) {turns : Nat}
    (bound : turns ≤ expression.steps.length) :
    ∃ result, leftToRight ⟨expression.first, expression.steps.take turns⟩ =
      some result := by
  induction turns with
  | zero => exact ⟨expression.first, rfl⟩
  | succ turns induction =>
      have inside : turns < expression.steps.length := bound
      obtain ⟨result, before⟩ := induction (by omega)
      have next : leftToRight ⟨expression.first, expression.steps.take (turns + 1)⟩ =
          applyOperator expression.steps[turns].1 result expression.steps[turns].2 := by
        rw [leftToRight] at before ⊢
        rw [List.take_succ_eq_append_getElem inside, List.foldlM_append, before]
        simp
      rw [next, ← Option.ne_none_iff_exists']
      intro stuck
      obtain ⟨slash, rfl, operand⟩ := applyOperator_eq_none.mp stuck
      refine never turns ?_ before
      rw [List.getElem?_eq_getElem inside, ← slash, ← operand]

theorem neverTraps_iff (small : expression.count ≤ 255) :
    ((∀ i dividend divisor, Divides (call.load expression) i dividend divisor →
        HasQuotient dividend divisor) ∧
      ∃ result, evaluate (call.load expression) = some result) ↔
        NeverTraps expression := by
  constructor
  · intro given i division least
    have divides : Divides (call.load expression) i (-2147483648#32) (-1#32) :=
      (divides_load_iff small).mpr ⟨least, division, by decide⟩
    exact (hasQuotient_iff (by decide)).mp (given.1 i _ _ divides) ⟨rfl, rfl⟩
  · intro never
    constructor
    · intro i dividend divisor divides
      obtain ⟨before, division, nonzero⟩ := (divides_load_iff small).mp divides
      refine (hasQuotient_iff nonzero).mpr fun trap => ?_
      obtain ⟨rfl, rfl⟩ := trap
      exact never i division before
    · rw [evaluate_load small]
      obtain ⟨result, value⟩ := never.value (Nat.le_refl _)
      rw [List.take_length] at value
      exact ⟨result, value⟩

end steps

/-- For a text with all its tokens, whatever the locals held: each division that
`calculate` performs has a quotient, and it gets through its loop. -/
def Divisible (atoi : List Byte → Word) (text : List Byte) (expression : Expression) :
    Prop :=
  ∀ (locals : Call) (expr : CArray Byte BUF_SIZE), expr.cString? = some text →
    calculate atoi locals expr = finish (locals.load expression) ∧
      (∀ i dividend divisor, Divides (locals.load expression) i dividend divisor →
        HasQuotient dividend divisor) ∧
      ∃ result, evaluate (locals.load expression) = some result

theorem Divisible.neverTraps {atoi : List Byte → Word} {text : List Byte}
    {expression : Expression} (divisible : Divisible atoi text expression)
    (plain : 0#8 ∉ text) (short : text.length < BUF_SIZE)
    (small : expression.count ≤ 255) : NeverTraps expression := by
  obtain ⟨expr, printed⟩ : ∃ expr, (CArray.replicate BUF_SIZE 0#8).print? text =
      some expr := CArray.print?_isSome short
  have holds := CArray.cString?_print printed
  rw [cString_of_notMem plain] at holds
  exact (neverTraps_iff small).mp (divisible Call.zero expr holds).2

/-- All divisions are defined exactly when none is by minus one of the least
number. -/
theorem divisions_defined_iff {atoi : List Byte → Word} {text counted : List Byte}
    {found : List (List Byte)} (plain : 0#8 ∉ text) (short : text.length < BUF_SIZE)
    (split : tokens (ascii ' ') text = counted :: found)
    (supplied : Supplied (atoi counted).toInt found) :
    Divisible atoi text (foundExpression atoi (atoi counted).toInt.toNat found) ↔
      NeverTraps (foundExpression atoi (atoi counted).toInt.toNat found) := by
  obtain ⟨_, small, _⟩ := supplied_bounds plain split supplied
  constructor
  · intro divisible
    exact divisible.neverTraps plain short small
  · intro never locals expr holds
    have scans := scans_of_cString? holds split
    exact ⟨calculate_supplied scans supplied locals, (neverTraps_iff small).mpr never⟩

/-- `3 -7 0 -1 / /`: the zero is passed over, and -7 has a quotient. -/
def quotientText : List Byte :=
  [ascii '3', ascii ' ', ascii '-', ascii '7', ascii ' ', ascii '0', ascii ' ',
    ascii '-', ascii '1', ascii ' ', ascii '/', ascii ' ', ascii '/']

theorem quotient_defined : Divisible atoi quotientText (foundExpression atoi 3
    [[ascii '-', ascii '7'], [ascii '0'], [ascii '-', ascii '1'], [ascii '/'],
      [ascii '/']]) :=
  (@divisions_defined_iff atoi quotientText [ascii '3'] _ (by decide) (by decide)
    (by decide) (by unfold Supplied; decide)).mpr (by decide)

/-- `2 -2147483648 -1 /`. -/
def leastText : List Byte :=
  [ascii '2', ascii ' ', ascii '-', ascii '2', ascii '1', ascii '4', ascii '7',
    ascii '4', ascii '8', ascii '3', ascii '6', ascii '4', ascii '8', ascii ' ',
    ascii '-', ascii '1', ascii ' ', ascii '/']

/-- A single client stops the server with one line. -/
theorem least_quotient_traps : ¬ Divisible atoi leastText (foundExpression atoi 2
    [[ascii '-', ascii '2', ascii '1', ascii '4', ascii '7', ascii '4', ascii '8',
      ascii '3', ascii '6', ascii '4', ascii '8'], [ascii '-', ascii '1'],
      [ascii '/']]) := by
  intro divisible
  exact absurd (divisible.neverTraps (by decide) (by decide) (by decide)) (by decide)

end NetworkProgramming.TestServ
