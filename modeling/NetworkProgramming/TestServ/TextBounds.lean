import NetworkProgramming.TestServ.Answers

/-!
# The buffers for the text of a line

Nothing in `calculate` or `handle_clnt` looks at a length.  What keeps the text
inside `formatted_expr` is that every operand and operator has used up a space of a
line of at most 1023 bytes; what keeps the message inside `result_str`, where the
margin is smaller than what is put around the text, is that many operands cost many
spaces and few operands print a short text.
-/

namespace NetworkProgramming.TestServ

open MachineInt Strtok
open Hw8 (foundExpression Supplied PrintsShort)

/-- `%d` after `atoi` prints no more than a token of fewer than ten characters has;
of a longer one it prints some `int`, which has at most eleven. -/
def PrintsWithin (atoi : List Byte → Word) : Prop :=
  ∀ token, token ≠ [] → token.length < 10 →
    (decimal (atoi token).toInt).length ≤ token.length

theorem printsWithin_of_isAtoi {atoi : List Byte → Word} (reads : IsAtoi atoi) :
    PrintsWithin atoi := by
  intro token nonempty short
  obtain ⟨bound, lower, upper⟩ := numberOf_short nonempty short
  rw [reads.inRange token lower upper]
  exact bound

theorem PrintsWithin.printsShort {atoi : List Byte → Word} (prints : PrintsWithin atoi) :
    PrintsShort atoi := by
  intro token nonempty
  by_cases short : token.length < 10
  · have within := prints token nonempty short
    omega
  · have word := length_decimal_word_le (atoi token)
    omega

/-- The text behind the first operand and behind every turn of the printing loop lies
in `formatted_expr` with its NUL, and `result_str` holds the whole message, whoever
sends the line. -/
structure Bounded (loaded : Call) (returned : Returned) : Prop where
  turns : ∀ turns : Nat, turns < loaded.operand_count → ∃ formatted_expr text,
    format { loaded with operand_count := turns + 1 } = some formatted_expr ∧
      formatted_expr.cString? = some text ∧ text.length + 1 ≤ BUF_SIZE
  message : ∃ printed, returned.formatted_expr.cString? = some printed ∧
    ∀ (handler : Handler) (id : List Byte), handler.id.cells = id ++ [0#8] →
      resultString handler returned =
        some (ascii '[' :: cString id ++ [ascii ']', ascii ' '] ++ printed ++
          resultText returned.result)

section bounds

variable {call : Call} {expression : Expression}

theorem format_turns (small : expression.count ≤ 255)
    (plain : ∀ operator ∈ expression.operators, operator ≠ 0#8)
    (room : expression.text.length + 1 ≤ BUF_SIZE) {turns : Nat}
    (bound : turns ≤ expression.steps.length) :
    ∃ formatted_expr text,
      format { call.load expression with operand_count := turns + 1 } =
          some formatted_expr ∧
        formatted_expr.cString? = some text ∧ text.length + 1 ≤ BUF_SIZE := by
  have shorter := (Expression.text_take_prefix expression turns).length_le
  have plainTaken : ∀ operator ∈
      (⟨expression.first, expression.steps.take turns⟩ : Expression).operators,
      operator ≠ 0#8 := by
    intro operator member
    obtain ⟨step, taken, rfl⟩ := List.mem_map.mp member
    exact plain _ (List.mem_map_of_mem (List.mem_of_mem_take taken))
  have fits : (⟨expression.first, expression.steps.take turns⟩ : Expression).Fits
      BUF_SIZE 0 := Expression.fits_of_plain plainTaken (by omega)
  obtain ⟨formatted_expr, formats, text⟩ :=
    (@format_load_take call expression small plain turns bound).1 fits
  exact ⟨formatted_expr, _, formats, text, by omega⟩

end bounds

/-- When `calculate` comes to its printing loop with a positive count, text and message
stay inside their buffers. -/
theorem text_bounded {atoi : List Byte → Word} (prints : PrintsWithin atoi)
    {expr : CArray Byte BUF_SIZE} {text : List Byte} (holds : expr.cString? = some text)
    {locals loaded : Call} (loads : loadTokens atoi locals expr = some loaded)
    (positive : 1 ≤ loaded.operand_count) {result : Word}
    (computes : evaluate loaded = some result) :
    ∃ formatted_expr, calculate atoi locals expr = some ⟨result, formatted_expr⟩ ∧
      Bounded loaded ⟨result, formatted_expr⟩ := by
  have calculates := calculate_of_load loads
  obtain ⟨counted, found, split, supplied, rfl⟩ := loadTokens_positive holds loads positive
  have plainText := CArray.zero_notMem_of_cString? holds
  obtain ⟨_, small, plain⟩ := supplied_bounds plainText split supplied
  have short := supplied_short prints.printsShort plainText
    (CArray.length_lt_of_cString? holds) split supplied
  have size : BUF_SIZE = 1024 := rfl
  rw [evaluate_load small] at computes
  obtain ⟨formatted_expr, finished⟩ := @finish_load_isSome locals _ result small plain
    (Expression.fits_of_plain plain (by omega)) computes
  have formatted := (finish_load_eq_some small plain finished).2
  refine ⟨formatted_expr, calculates.trans finished, ?_, ?_⟩
  · intro turns inside
    refine format_turns small plain (by omega) ?_
    simpa [Call.load, Expression.count, Int.lt_add_one_iff] using inside
  · refine ⟨_, formatted, fun handler id terminated => ?_⟩
    have named : handler.id.cString? = some (cString id) := by
      rw [CArray.cString?_of_mem (by simp [terminated]), terminated, cString_concat_zero]
    simp only [resultString, named, formatted, Option.bind_eq_bind, Option.bind_some,
      Option.pure_def]
    rw [resultString_whole named formatted short]

/-- `expr` with the line `2 7 5 -`. -/
def differenceExpr : CArray Byte BUF_SIZE :=
  (CArray.replicate BUF_SIZE 0#8).fill (differenceText ++ [0#8])

theorem difference_bounded : ∃ loaded formatted_expr,
    calculate atoi Call.zero differenceExpr = some ⟨2, formatted_expr⟩ ∧
      Bounded loaded ⟨2, formatted_expr⟩ := by
  have holds : differenceExpr.cString? = some differenceText :=
    CArray.cString?_fill _ (by decide) (by decide)
  have scans := scans_of_cString? holds (by decide :
    tokens (ascii ' ') differenceText = [[ascii '2'], [ascii '7'], [ascii '5'], [ascii '-']])
  have loads := @loadTokens_supplied atoi _ _ _ scans (by unfold Supplied; decide) Call.zero
  refine ⟨_, text_bounded (printsWithin_of_isAtoi isAtoi_atoi) holds loads (by decide) ?_⟩
  rw [evaluate_load (by decide)]
  decide

end NetworkProgramming.TestServ
