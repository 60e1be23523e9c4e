import NetworkProgramming.Hw8.LineExpression
import NetworkProgramming.TestServ.Calculate

/-!
# What `calculate` makes of a line

The loops over the tokens fill the arrays from the front, and what follows them
computes and prints the expression that they hold.  A line whose tokens run out
leaves `calculate` before anything was printed, and a negative count passes the
test and leaves the arrays as they were.
-/

namespace NetworkProgramming.TestServ

open MachineInt Strtok
open Hw8 (foundExpression length_foundOperands operands_lineExpression
  operators_lineExpression count_foundExpression Supplied)

/-- The value of an expression from left to right; there is none when a
quotient on the way is no `int`. -/
def leftToRight (expression : Expression) : Option Word :=
  expression.steps.foldlM (fun result step => applyOperator step.1 result step.2)
    expression.first

/-- The locals when the loops over the tokens have stored an expression. -/
def Call.load (call : Call) (expression : Expression) : Call :=
  { call with
    operand_count := expression.count
    operands := call.operands.fill expression.operands
    operators := call.operators.fill expression.operators }

/-! ## Computing and printing -/

section load

variable {call : Call} {expression : Expression}

theorem get?_load (small : expression.count ≤ 255) {index : Nat}
    (inside : index < expression.steps.length) :
    (call.load expression).operators.get? index = some expression.steps[index].1 ∧
      (call.load expression).operands.get? (index + 1) =
        some expression.steps[index].2 := by
  have operandCount := expression.length_operands
  have operatorCount := expression.length_operators
  have count : expression.count = expression.steps.length + 1 := rfl
  constructor
  · rw [Call.load, CArray.get?_fill _ (by omega) (by omega)]
    simp [Expression.operators, inside]
  · rw [Call.load, CArray.get?_fill _ (by omega) (by omega)]
    simp [Expression.operands, inside]

theorem first_load (small : expression.count ≤ 255) :
    (call.load expression).operands.get? 0 = some expression.first := by
  have operandCount := expression.length_operands
  have count : expression.count = expression.steps.length + 1 := rfl
  rw [Call.load, CArray.get?_fill _ (by omega) (by omega)]
  rfl

/-- The accumulator behind the first turns of the loop. -/
theorem evaluate_load_take (small : expression.count ≤ 255) {turns : Nat}
    (bound : turns ≤ expression.steps.length) :
    evaluate { call.load expression with operand_count := turns + 1 } =
      leftToRight ⟨expression.first, expression.steps.take turns⟩ := by
  have count : ((turns : Int) + 1 - 1).toNat = turns := by omega
  simp only [evaluate, first_load small, Option.bind_eq_bind, Option.bind_some, count]
  refine forLoop_eq_foldlM (fun index inside result => ?_) bound
  obtain ⟨operator, operand⟩ := @get?_load call expression small index inside
  rw [operator, operand]
  rfl

theorem evaluate_load (small : expression.count ≤ 255) :
    evaluate (call.load expression) = leftToRight expression := by
  have whole := @evaluate_load_take call expression small _ (Nat.le_refl _)
  rw [List.take_length] at whole
  exact whole

/-- `formatted_expr` behind the first turns of its loop.  `buf[32]` is large enough
for a step, so only the room in `formatted_expr` decides. -/
theorem format_load_take (small : expression.count ≤ 255)
    (plain : ∀ operator ∈ expression.operators, operator ≠ 0#8) {turns : Nat}
    (bound : turns ≤ expression.steps.length) :
    ((⟨expression.first, expression.steps.take turns⟩ : Expression).Fits BUF_SIZE 0 →
      ∃ formatted_expr,
        format { call.load expression with operand_count := turns + 1 } =
          some formatted_expr ∧
        formatted_expr.cString? =
          some (⟨expression.first, expression.steps.take turns⟩ : Expression).text) ∧
    (¬ (⟨expression.first, expression.steps.take turns⟩ : Expression).Fits BUF_SIZE 0 →
      format { call.load expression with operand_count := turns + 1 } = none) := by
  have count : ((turns : Int) + 1 - 1).toNat = turns := by omega
  have loop (started : CArray Byte BUF_SIZE) :
      forLoop (fun i (formatted_expr : CArray Byte BUF_SIZE) => do
        let operator ← (call.load expression).operators.get? i
        let operand ← (call.load expression).operands.get? (i + 1)
        let buf ← (CArray.replicate 32 0#8).print? (stepText (operator, operand))
        let text ← buf.cString?
        formatted_expr.append? text) turns started =
      (expression.steps.take turns).foldlM (fun buf step => buf.append? (stepText step))
        started := by
    refine forLoop_eq_foldlM (fun index inside formatted_expr => ?_) bound
    obtain ⟨operator, operand⟩ := @get?_load call expression small index inside
    have short := length_stepText_le expression.steps[index]
    obtain ⟨buf, printed⟩ : ∃ buf, (CArray.replicate 32 0#8).print?
        (stepText expression.steps[index]) = some buf :=
      CArray.print?_isSome
        (by omega : (stepText expression.steps[index]).length + 1 ≤ 32)
    have nonzero := plain _ (List.mem_map_of_mem (f := Prod.fst)
      (List.getElem_mem inside))
    have holds := CArray.cString?_print printed
    rw [cString_of_notMem (by simp [stepText, zero_notMem_decimal, nonzero.symm])] at holds
    simp only [operator, operand, printed, holds, Option.bind_eq_bind, Option.bind_some]
  have whole : format { call.load expression with operand_count := turns + 1 } =
      (call.formatted_expr.print? (decimal expression.first.toInt)).bind fun started =>
        (expression.steps.take turns).foldlM
          (fun buf step => buf.append? (stepText step)) started := by
    simp only [format, first_load small, count, Option.bind_eq_bind, Option.bind_some]
    congr 1
    funext started
    exact loop started
  rw [whole]
  exact Expression.print_spec ⟨expression.first, expression.steps.take turns⟩
    call.formatted_expr

theorem format_load (small : expression.count ≤ 255)
    (plain : ∀ operator ∈ expression.operators, operator ≠ 0#8) :
    (expression.Fits BUF_SIZE 0 →
      ∃ formatted_expr, format (call.load expression) = some formatted_expr ∧
        formatted_expr.cString? = some expression.text) ∧
    (¬ expression.Fits BUF_SIZE 0 → format (call.load expression) = none) := by
  have whole := @format_load_take call expression small plain _ (Nat.le_refl _)
  rw [List.take_length] at whole
  exact whole

theorem finish_load_eq_some {returned : Returned} (small : expression.count ≤ 255)
    (plain : ∀ operator ∈ expression.operators, operator ≠ 0#8)
    (finished : finish (call.load expression) = some returned) :
    leftToRight expression = some returned.result ∧
      returned.formatted_expr.cString? = some expression.text := by
  simp only [finish, evaluate_load small, Option.bind_eq_bind,
    Option.bind_eq_some_iff] at finished
  obtain ⟨result, value, formatted_expr, printed, same⟩ := finished
  cases same
  obtain ⟨success, failure⟩ := @format_load call expression small plain
  refine ⟨value, ?_⟩
  by_cases fits : expression.Fits BUF_SIZE 0
  · obtain ⟨_, same, text⟩ := success fits
    rw [printed] at same
    cases same
    exact text
  · rw [failure fits] at printed
    cases printed

theorem finish_load_isSome {value : Word} (small : expression.count ≤ 255)
    (plain : ∀ operator ∈ expression.operators, operator ≠ 0#8)
    (fits : expression.Fits BUF_SIZE 0) (defined : leftToRight expression = some value) :
    ∃ formatted_expr, finish (call.load expression) = some ⟨value, formatted_expr⟩ := by
  obtain ⟨formatted_expr, printed, _⟩ := (@format_load call expression small plain).1 fits
  refine ⟨formatted_expr, ?_⟩
  simp only [finish, evaluate_load small, defined, printed, Option.bind_eq_bind,
    Option.bind_some, Option.pure_def]

end load

/-! ## The loops over the tokens -/

/-- The loop over the operators on its own: the locals behind it, when no token is
missing. -/
def loadOperators : Nat → Nat → Call → CArray Byte BUF_SIZE → Nat → Option Call
  | 0, _, call, _, _ => some call
  | left + 1, i, call, expr, position => do
      let (token, expr, position) ← strtok (ascii ' ') expr position
      let token ← token
      let call ← call.storeOperator i token
      loadOperators left (i + 1) call expr position

/-- The loop over the operands and then the one over the operators. -/
def loadOperands (atoi : List Byte → Word) :
    Nat → Nat → Call → CArray Byte BUF_SIZE → Nat → Option Call
  | 0, _, call, expr, position =>
      loadOperators (call.operand_count - 1).toNat 0 call expr position
  | left + 1, i, call, expr, position => do
      let (token, expr, position) ← strtok (ascii ' ') expr position
      let token ← token
      let call ← call.storeOperand atoi i token
      loadOperands atoi left (i + 1) call expr position

/-- The locals with which `calculate` comes to `int result = operands[0]`, when it
has not returned before. -/
def loadTokens (atoi : List Byte → Word) (call : Call) (expr : CArray Byte BUF_SIZE) :
    Option Call := do
  let (token, expr, position) ← strtok (ascii ' ') expr 0
  let token ← token
  let operand_count := (atoi token).toInt
  if operand_count = 0 ∨ 127 < operand_count then none
  else
    loadOperands atoi operand_count.toNat 0 { call with operand_count := operand_count }
      expr position

section loads

variable {atoi : List Byte → Word} {call loaded : Call} {expr : CArray Byte BUF_SIZE}
  {left i position : Nat}

theorem readOperators_of_load
    (loads : loadOperators left i call expr position = some loaded) :
    readOperators left i call expr position = finish loaded := by
  induction left generalizing i call expr position with
  | zero =>
      cases loads
      rfl
  | succ left induction =>
      simp only [loadOperators, Option.bind_eq_bind, Option.bind_eq_some_iff] at loads
      obtain ⟨⟨_, cut, stopped⟩, scanned, token, rfl, stored, set, rest⟩ := loads
      simp only [readOperators, scanned, set, Option.bind_eq_bind, Option.bind_some]
      exact induction rest

theorem readOperands_of_load
    (loads : loadOperands atoi left i call expr position = some loaded) :
    readOperands atoi left i call expr position = finish loaded := by
  induction left generalizing i call expr position with
  | zero => exact readOperators_of_load loads
  | succ left induction =>
      simp only [loadOperands, Option.bind_eq_bind, Option.bind_eq_some_iff] at loads
      obtain ⟨⟨_, cut, stopped⟩, scanned, token, rfl, stored, set, rest⟩ := loads
      simp only [readOperands, scanned, set, Option.bind_eq_bind, Option.bind_some]
      exact induction rest

/-- Behind its loops `calculate` computes and prints. -/
theorem calculate_of_load (loads : loadTokens atoi call expr = some loaded) :
    calculate atoi call expr = finish loaded := by
  simp only [loadTokens, Option.bind_eq_bind, Option.bind_eq_some_iff] at loads
  obtain ⟨⟨_, cut, stopped⟩, scanned, token, rfl, rest⟩ := loads
  by_cases outside : (atoi token).toInt = 0 ∨ 127 < (atoi token).toInt
  · rw [if_pos outside] at rest
    cases rest
  · rw [if_neg outside] at rest
    simp only [calculate, scanned, Option.bind_eq_bind, Option.bind_some]
    rw [if_neg outside]
    exact readOperands_of_load rest

end loads

section tokens

variable {atoi : List Byte → Word} {expr : CArray Byte BUF_SIZE} {position : Nat}
  {found : List (List Byte)} {left i : Nat} {call : Call}

theorem storeOperator_cons {token : List Byte}
    (scans : Scans (ascii ' ') expr position (token :: found)) (inside : i < 255) :
    ∃ operators cut stopped,
      strtok (ascii ' ') expr position = some (some token, cut, stopped) ∧
      Scans (ascii ' ') cut stopped found ∧
      call.operators.set? i (token.headD 0#8) = some operators ∧
      call.storeOperator i token = some { call with operators := operators } := by
  obtain ⟨cut, stopped, first, behind⟩ := strtok_cons scans
  have nonempty : token ≠ [] :=
    ne_nil_of_mem_tokens (scans.tokens ▸ List.mem_cons_self)
  obtain ⟨operator, letters, rfl⟩ := List.exists_cons_of_ne_nil nonempty
  obtain ⟨operators, set⟩ : ∃ operators,
      call.operators.set? i operator = some operators := by
    simp [CArray.set?, inside]
  refine ⟨operators, cut, stopped, first, behind, set, ?_⟩
  simp [Call.storeOperator, set]

theorem storeOperand_cons {token : List Byte}
    (scans : Scans (ascii ' ') expr position (token :: found)) (inside : i < 255) :
    ∃ operands cut stopped,
      strtok (ascii ' ') expr position = some (some token, cut, stopped) ∧
      Scans (ascii ' ') cut stopped found ∧
      call.operands.set? i (atoi token) = some operands ∧
      call.storeOperand atoi i token = some { call with operands := operands } := by
  obtain ⟨cut, stopped, first, behind⟩ := strtok_cons scans
  obtain ⟨operands, set⟩ : ∃ operands,
      call.operands.set? i (atoi token) = some operands := by
    simp [CArray.set?, inside]
  refine ⟨operands, cut, stopped, first, behind, set, ?_⟩
  simp [Call.storeOperand, set]

theorem loadOperators_supplied (scans : Scans (ascii ' ') expr position found)
    (room : i + left ≤ 255) (enough : left ≤ found.length) :
    ∃ operators, call.operators.write? i ((found.take left).map (·.headD 0#8)) =
        some operators ∧
      loadOperators left i call expr position =
        some { call with operators := operators } := by
  induction left generalizing i call expr position found with
  | zero => exact ⟨call.operators, CArray.write?_nil (by omega), rfl⟩
  | succ left induction =>
      obtain ⟨token, found, rfl⟩ := List.exists_cons_of_length_pos
        (by omega : 0 < found.length)
      obtain ⟨stored, cut, stopped, first, behind, set, stores⟩ :=
        @storeOperator_cons _ _ _ i call _ scans (by omega)
      obtain ⟨operators, rest, loads⟩ := @induction _ _ _ (i + 1)
        { call with operators := stored } behind (by omega) (by simpa using enough)
      refine ⟨operators, CArray.write?_of_set? set rest, ?_⟩
      simp only [loadOperators, first, stores, Option.bind_eq_bind, Option.bind_some]
      exact loads

theorem readOperators_missing (scans : Scans (ascii ' ') expr position found)
    (room : i + left ≤ 255) (missing : found.length < left) :
    readOperators left i call expr position = some call.noToken ∧
      loadOperators left i call expr position = none := by
  induction left generalizing i call expr position found with
  | zero => omega
  | succ left induction =>
      cases found with
      | nil =>
          obtain ⟨stopped, ended, _⟩ := strtok_nil scans
          simp [readOperators, loadOperators, ended]
      | cons token found =>
          obtain ⟨stored, cut, stopped, first, behind, _, stores⟩ :=
            @storeOperator_cons _ _ _ i call _ scans (by omega)
          simp only [readOperators, loadOperators, first, stores, Option.bind_eq_bind,
            Option.bind_some]
          exact induction behind (by omega) (by simpa using missing)

theorem readOperands_supplied (scans : Scans (ascii ' ') expr position found)
    (room : i + left ≤ 255) (enough : left ≤ found.length) :
    ∃ operands cut stopped, call.operands.write? i ((found.take left).map atoi) =
        some operands ∧
      Scans (ascii ' ') cut stopped (found.drop left) ∧
      readOperands atoi left i call expr position =
        readOperators (call.operand_count - 1).toNat 0 { call with operands := operands }
          cut stopped ∧
      loadOperands atoi left i call expr position =
        loadOperators (call.operand_count - 1).toNat 0 { call with operands := operands }
          cut stopped := by
  induction left generalizing i call expr position found with
  | zero =>
      exact ⟨call.operands, expr, position, CArray.write?_nil (by omega), scans, rfl, rfl⟩
  | succ left induction =>
      obtain ⟨token, found, rfl⟩ := List.exists_cons_of_length_pos
        (by omega : 0 < found.length)
      obtain ⟨stored, cut, stopped, first, behind, set, stores⟩ :=
        @storeOperand_cons atoi _ _ _ i call _ scans (by omega)
      obtain ⟨operands, after, stoppedAfter, rest, scansRest, goesOn⟩ :=
        @induction _ _ _ (i + 1) { call with operands := stored } behind (by omega)
          (by simpa using enough)
      refine ⟨operands, after, stoppedAfter, CArray.write?_of_set? set rest, scansRest, ?_⟩
      simp only [readOperands, loadOperands, first, stores, Option.bind_eq_bind,
        Option.bind_some]
      exact goesOn

theorem readOperands_missing (scans : Scans (ascii ' ') expr position found)
    (room : i + left ≤ 255) (missing : found.length < left) :
    readOperands atoi left i call expr position = some call.noToken ∧
      loadOperands atoi left i call expr position = none := by
  induction left generalizing i call expr position found with
  | zero => omega
  | succ left induction =>
      cases found with
      | nil =>
          obtain ⟨stopped, ended, _⟩ := strtok_nil scans
          simp [readOperands, loadOperands, ended]
      | cons token found =>
          obtain ⟨stored, cut, stopped, first, behind, _, stores⟩ :=
            @storeOperand_cons atoi _ _ _ i call _ scans (by omega)
          simp only [readOperands, loadOperands, first, stores, Option.bind_eq_bind,
            Option.bind_some]
          exact induction behind (by omega) (by simpa using missing)

end tokens

/-! ## The exits of `calculate` -/

section calculate

variable {atoi : List Byte → Word} {expr : CArray Byte BUF_SIZE} {counted : List Byte}
  {found : List (List Byte)}

theorem calculate_empty (scans : Scans (ascii ' ') expr 0 []) (locals : Call) :
    calculate atoi locals expr = some locals.noToken := by
  obtain ⟨stopped, ended, _⟩ := strtok_nil scans
  simp [calculate, ended]

theorem calculate_outOfRange (scans : Scans (ascii ' ') expr 0 (counted :: found))
    (outside : (atoi counted).toInt = 0 ∨ 127 < (atoi counted).toInt) (locals : Call) :
    calculate atoi locals expr = some locals.overflow := by
  obtain ⟨cut, stopped, first, _⟩ := strtok_cons scans
  simp only [calculate, first, Option.bind_eq_bind, Option.bind_some]
  rw [if_pos outside]
  rfl

theorem calculate_accepted (scans : Scans (ascii ' ') expr 0 (counted :: found))
    (accepted : ¬ ((atoi counted).toInt = 0 ∨ 127 < (atoi counted).toInt)) :
    ∃ cut stopped, Scans (ascii ' ') cut stopped found ∧ ∀ locals : Call,
      calculate atoi locals expr =
        readOperands atoi (atoi counted).toInt.toNat 0
          { locals with operand_count := (atoi counted).toInt } cut stopped ∧
      loadTokens atoi locals expr =
        loadOperands atoi (atoi counted).toInt.toNat 0
          { locals with operand_count := (atoi counted).toInt } cut stopped := by
  obtain ⟨cut, stopped, first, behind⟩ := strtok_cons scans
  refine ⟨cut, stopped, behind, fun locals => ?_⟩
  simp only [calculate, loadTokens, first, Option.bind_eq_bind, Option.bind_some]
  rw [if_neg accepted, if_neg accepted]
  exact ⟨rfl, rfl⟩

theorem loadTokens_negative (scans : Scans (ascii ' ') expr 0 (counted :: found))
    (negative : (atoi counted).toInt < 0) (locals : Call) :
    loadTokens atoi locals expr =
      some { locals with operand_count := (atoi counted).toInt } := by
  obtain ⟨cut, stopped, _, accepted⟩ := @calculate_accepted atoi _ _ _ scans (by omega)
  have noOperand : (atoi counted).toInt.toNat = 0 := by omega
  have noOperator : ((atoi counted).toInt - 1).toNat = 0 := by omega
  rw [(accepted locals).2, noOperand, loadOperands, noOperator, loadOperators]

/-- Both loops are empty for a negative count, and the first operand is the one
that the array held. -/
theorem calculate_negative (scans : Scans (ascii ' ') expr 0 (counted :: found))
    (negative : (atoi counted).toInt < 0) (locals : Call) :
    ∃ stale formatted_expr, locals.operands.get? 0 = some stale ∧
      calculate atoi locals expr = some ⟨stale, formatted_expr⟩ ∧
      formatted_expr.cString? = some (decimal stale.toInt) := by
  have computes := calculate_of_load (loadTokens_negative scans negative locals)
  have inside : 0 < locals.operands.cells.length := by
    rw [locals.operands.length_cells]
    omega
  have stale : locals.operands.get? 0 = some locals.operands.cells[0] :=
    List.getElem?_eq_getElem inside
  have short := length_decimal_word_le locals.operands.cells[0]
  obtain ⟨formatted_expr, printed⟩ : ∃ formatted_expr, locals.formatted_expr.print?
      (decimal locals.operands.cells[0].toInt) = some formatted_expr :=
    CArray.print?_isSome (Nat.le_trans (Nat.succ_le_succ short) (by decide))
  have noOperator : ((atoi counted).toInt - 1).toNat = 0 := by omega
  have holds := CArray.cString?_print printed
  rw [cString_of_notMem (zero_notMem_decimal _)] at holds
  refine ⟨_, formatted_expr, stale, ?_, holds⟩
  rw [computes]
  simp only [finish, evaluate, format, noOperator, stale, printed, forLoop_zero,
    Option.bind_eq_bind, Option.bind_some, Option.pure_def]

theorem missing_spec (scans : Scans (ascii ' ') expr 0 (counted :: found))
    (positive : 1 ≤ (atoi counted).toInt) (small : (atoi counted).toInt ≤ 127)
    (missing : found.length < 2 * (atoi counted).toInt - 1) (locals : Call) :
    calculate atoi locals expr = some locals.noToken ∧
      loadTokens atoi locals expr = none := by
  obtain ⟨cut, stopped, behind, accepted⟩ :=
    @calculate_accepted atoi _ _ _ scans (by omega)
  rw [(accepted locals).1, (accepted locals).2]
  by_cases operands : found.length < (atoi counted).toInt.toNat
  · exact readOperands_missing behind (by omega) operands
  · obtain ⟨stored, after, stoppedAfter, _, scansOperators, reads, loads⟩ :=
      @readOperands_supplied atoi _ _ _ (atoi counted).toInt.toNat 0
        { locals with operand_count := (atoi counted).toInt } behind (by omega)
        (by omega)
    rw [reads, loads]
    refine readOperators_missing scansOperators ?_ ?_ <;>
      simp only [List.length_drop] <;> omega

theorem calculate_missing (scans : Scans (ascii ' ') expr 0 (counted :: found))
    (positive : 1 ≤ (atoi counted).toInt) (small : (atoi counted).toInt ≤ 127)
    (missing : found.length < 2 * (atoi counted).toInt - 1) (locals : Call) :
    calculate atoi locals expr = some locals.noToken :=
  (missing_spec scans positive small missing locals).1

theorem loadTokens_supplied (scans : Scans (ascii ' ') expr 0 (counted :: found))
    (supplied : Supplied (atoi counted).toInt found) (locals : Call) :
    loadTokens atoi locals expr =
      some (locals.load (foundExpression atoi (atoi counted).toInt.toNat found)) := by
  obtain ⟨positive, small, enough⟩ := supplied
  obtain ⟨cut, stopped, behind, accepted⟩ :=
    @calculate_accepted atoi _ _ _ scans (by omega)
  have ran := (accepted locals).2
  obtain ⟨opCount, value⟩ : ∃ opCount : Nat, (atoi counted).toInt = opCount :=
    ⟨(atoi counted).toInt.toNat, by omega⟩
  simp only [value, Int.toNat_natCast] at ran ⊢
  obtain ⟨operandCount, operatorCount⟩ := @length_foundOperands found opCount (by omega)
  have count := @count_foundExpression atoi found opCount (by omega) (by omega)
  obtain ⟨operands, after, stoppedAfter, filledOperands, scansOperators, _, goesOn⟩ :=
    @readOperands_supplied atoi _ _ _ opCount 0 { locals with operand_count := opCount }
      behind (by omega) (by omega)
  have turns : ((opCount : Int) - 1).toNat = opCount - 1 := by omega
  obtain ⟨operators, filledOperators, ended⟩ :=
    @loadOperators_supplied _ _ _ (opCount - 1) 0
      { locals with operand_count := opCount, operands := operands } scansOperators
      (by omega) (by
        rw [List.length_drop]
        omega)
  rw [CArray.write?_front _ (by rw [List.length_map]; omega),
    Option.some.injEq] at filledOperands
  rw [CArray.write?_front _ (by rw [List.length_map]; omega),
    Option.some.injEq] at filledOperators
  rw [ran, goesOn, turns, ended, Call.load, count, foundExpression,
    operands_lineExpression (by omega) (by omega), operators_lineExpression (by omega),
    filledOperands, filledOperators]

theorem calculate_supplied (scans : Scans (ascii ' ') expr 0 (counted :: found))
    (supplied : Supplied (atoi counted).toInt found) (locals : Call) :
    calculate atoi locals expr =
      finish (locals.load (foundExpression atoi (atoi counted).toInt.toNat found)) :=
  calculate_of_load (loadTokens_supplied scans supplied locals)

theorem loadTokens_outOfRange (scans : Scans (ascii ' ') expr 0 (counted :: found))
    (outside : (atoi counted).toInt = 0 ∨ 127 < (atoi counted).toInt) (locals : Call) :
    loadTokens atoi locals expr = none := by
  obtain ⟨cut, stopped, first, _⟩ := strtok_cons scans
  simp only [loadTokens, first, Option.bind_eq_bind, Option.bind_some]
  rw [if_pos outside]

/-- When `calculate` comes behind its loops with a positive count, the line had all
its tokens. -/
theorem loadTokens_positive {loaded locals : Call} {text : List Byte}
    (holds : expr.cString? = some text) (loads : loadTokens atoi locals expr = some loaded)
    (positive : 1 ≤ loaded.operand_count) :
    ∃ counted found, tokens (ascii ' ') text = counted :: found ∧
      Supplied (atoi counted).toInt found ∧
      loaded = locals.load (foundExpression atoi (atoi counted).toInt.toNat found) := by
  cases split : tokens (ascii ' ') text with
  | nil =>
      obtain ⟨stopped, ended, _⟩ := strtok_nil (scans_of_cString? holds split)
      simp [loadTokens, ended] at loads
  | cons counted found =>
      have scans := scans_of_cString? holds split
      refine ⟨counted, found, rfl, ?_⟩
      by_cases outside : (atoi counted).toInt = 0 ∨ 127 < (atoi counted).toInt
      · rw [loadTokens_outOfRange scans outside] at loads
        cases loads
      · by_cases negative : (atoi counted).toInt < 0
        · rw [loadTokens_negative scans negative] at loads
          obtain rfl := Option.some.inj loads
          have count : 1 ≤ (atoi counted).toInt := positive
          omega
        · by_cases supplied : Supplied (atoi counted).toInt found
          · rw [loadTokens_supplied scans supplied, Option.some.injEq] at loads
            exact ⟨supplied, loads.symm⟩
          · unfold Supplied at supplied
            rw [(missing_spec scans (by omega) (by omega) (by omega) locals).2] at loads
            cases loads

end calculate

end NetworkProgramming.TestServ
