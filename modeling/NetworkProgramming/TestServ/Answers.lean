import NetworkProgramming.TestServ.Turns

/-!
# What a client of `test_serv` gets for a line

Results and errors are one `int`: `calculate` returns `-99999` for a count out
of range, and the handler disconnects whoever's result that is.  The other
exits return 0 or a value like any other, and the handler broadcasts it.
-/

namespace NetworkProgramming.TestServ

open MachineInt Strtok Broadcast Transition
open Hw8 (foundExpression Supplied PrintsShort printsShort_of_isAtoi
  count_foundExpression plain_foundExpression length_text_foundExpression_lt)

def InRange (operand_count : Int) : Prop := 1 ≤ operand_count ∧ operand_count ≤ 127

/-- The client gets the overflow text, and its connection is removed from the
registry and closed. -/
def Disconnects (atoi : List Byte → Word) (s : System) (thread : Nat) : Prop :=
  ∃ final text, run (step atoi) s [.overflow thread, .remove thread, .close thread] =
      some final ∧
    overflowText <+: text ∧ final.sent = s.sent ++ [(thread, .overflow text)] ∧
    thread ∉ members final.history ∧ ∀ socket, final.connection socket ≠ some thread

/-- Every registered client gets the sender's name, the text and the value. -/
def Broadcasts (atoi : List Byte → Word) (s : System) (thread : Nat)
    (expression : Expression) (value : Word) : Prop :=
  ∃ next handler id, step atoi s (.broadcast thread) = some next ∧
    s.handler? thread = some handler ∧ handler.id.cString? = some id ∧
    next.sent = s.sent ++ (members s.history).map fun client =>
      (client, .result ⟨s.number, ascii '[' :: id ++ [ascii ']', ascii ' '] ++
        expression.text ++ resultText value⟩)

/-! ## The two ways out of `handle_clnt` -/

section ways

variable {atoi : List Byte → Word} {s : System} {thread : Nat} {handler : Handler}
  {text : List Byte} {returned : Returned} {expression : Expression}

theorem exists_leaving (held : Registered s) (found : s.handler? thread = some handler)
    (phase : handler.phase = .cleanup) :
    ∃ final, run (step atoi) s [.remove thread, .close thread] = some final ∧
      final.sent = s.sent ∧ thread ∉ members final.history ∧
      ∀ socket, final.connection socket ≠ some thread := by
  have place := place_of_handler found
  rw [Handler.place, phase] at place
  obtain ⟨clnt_socks, clnt_count, removed, _⟩ :=
    remove_possible held.bound handler.clnt_sock
  refine ⟨{ s.put thread { handler with phase := .ended } with
    clnt_socks := clnt_socks
    clnt_count := clnt_count
    history := s.history ++ [.leave thread]
    connection := Function.update s.connection handler.clnt_sock none }, ?_, rfl, ?_, ?_⟩
  · have removes := @remove_step atoi _ _ _ _ _ found phase removed
    refine run_cons_eq_some.mpr ⟨_, removes, ?_⟩
    have refound := @System.handler?_put s thread handler
      { handler with phase := .closing } found
    simp only [System.put, System.handler?] at refound
    simp [step, System.handler?, System.put, refound]
  · rw [members_snoc, Event.members]
    exact fun member => (held.consistent.once.mem_erase_iff.mp member).1 rfl
  · intro socket isOpen
    by_cases same : socket = handler.clnt_sock
    · subst same
      simp at isOpen
    · exact same (held.consistent.unique place
        ((Function.update_of_ne same _ _).symm.trans isOpen))

theorem overflowMessage_spec {expr : List Byte} (holds : handler.expr.cString? = some expr) :
    ∃ text, overflowMessage atoi handler = some text ∧ overflowText <+: text := by
  have count := length_decimal_char_le ((atoi expr).setWidth 8)
  have overflow : 0#8 ∉ overflowText := by decide
  have closed : 0#8 ∉ closedText := by decide
  refine ⟨overflowText ++ decimal ((atoi expr).setWidth 8).toInt ++ closedText, ?_,
    by simp⟩
  simp only [overflowMessage, holds, Option.bind_eq_bind, Option.bind_some]
  rw [snprintf_eq (by simp [overflow, closed, zero_notMem_decimal]) (by
    simp only [overflowText, closedText, List.length_append, List.length_cons,
      List.length_nil]
    omega)]
  rfl

/-- The client is disconnected exactly when what `calculate` returned is the
number that stands for a bad count. -/
theorem Evaluated.disconnects_iff (evaluated : Evaluated atoi text s thread returned) :
    Disconnects atoi s thread ↔ returned.result = -99999#32 := by
  obtain ⟨actions, reached⟩ := evaluated.reached
  obtain ⟨handler, evaluation, found, phase, holds, _⟩ := evaluated.evaluation
  constructor
  · intro disconnects
    obtain ⟨final, _, ran, _⟩ := disconnects
    obtain ⟨next, taken, _⟩ := run_cons_eq_some.mp ran
    cases taken_of_step taken with
    | overflow thread other _ _ _ otherFound otherPhase outOfRange =>
        rw [found] at otherFound
        cases otherFound
        rw [phase] at otherPhase
        cases otherPhase
        exact outOfRange
  · intro sentinel
    obtain ⟨message, printed, begins⟩ := @overflowMessage_spec atoi handler text holds
    have held := registered_of_reached reached
    have isOpen := held.consistent.handled (place_of_handler found) (by
      simp [phase, Phase.status])
    have taken : step atoi s (.overflow thread) = some
        { s.put thread { handler with phase := .cleanup } with
          sent := s.sent ++ [(thread, .overflow message)] } := by
      have client : s.connection handler.clnt_sock = some thread := isOpen
      simp [step, found, phase, sentinel, printed, client]
    obtain ⟨final, ran, sent, removed, closed⟩ :=
      @exists_leaving atoi _ thread { handler with phase := .cleanup }
        (registered_step held taken) (System.handler?_put found) rfl
    exact ⟨final, message, run_cons_eq_some.mpr ⟨_, taken, ran⟩, begins, sent, removed,
      closed⟩

theorem Evaluated.broadcast_step (evaluated : Evaluated atoi text s thread returned)
    (other : returned.result ≠ -99999#32) {printed : List Byte}
    (formatted : returned.formatted_expr.cString? = some printed) :
    ∃ handler id, s.handler? thread = some handler ∧ handler.id.cString? = some id ∧
      ∀ message, snprintf (BUF_SIZE + NAME_SIZE + 10) (ascii '[' :: id ++
          [ascii ']', ascii ' '] ++ printed ++ resultText returned.result) = message →
        step atoi s (.broadcast thread) = some
          { s.put thread { handler with phase := .reading } with
            sent := s.sent ++ s.broadcast (.result ⟨s.number, message⟩)
            history := s.history ++ [.send ⟨s.number, message⟩] } := by
  obtain ⟨actions, reached⟩ := evaluated.reached
  obtain ⟨handler, evaluation, found, phase, _, _⟩ := evaluated.evaluation
  obtain ⟨id, named⟩ := (ready_of_reached reached handler
    (List.mem_of_getElem? found)).name evaluation (by simp [phase, Phase.evaluation])
  refine ⟨handler, id, found, named, fun message isMessage => ?_⟩
  have result : resultString handler returned = some message := by
    simp only [resultString, named, formatted, isMessage, Option.bind_eq_bind,
      Option.bind_some, Option.pure_def]
  simp only [step, found, phase, Option.bind_eq_bind, Option.bind_some]
  rw [if_pos other, result]
  rfl

theorem Evaluated.other (evaluated : Evaluated atoi text s thread returned) {next : System}
    (taken : step atoi s (.broadcast thread) = some next) :
    returned.result ≠ -99999#32 := by
  obtain ⟨handler, evaluation, found, phase, _, _⟩ := evaluated.evaluation
  cases taken_of_step taken with
  | broadcast thread other _ _ _ otherFound otherPhase inRange =>
      rw [found] at otherFound
      cases otherFound
      rw [phase] at otherPhase
      cases otherPhase
      exact inRange

/-- `result_str` holds the whole message when the text in it leaves room for its
decoration. -/
theorem resultString_whole {id printed : List Byte} (named : handler.id.cString? = some id)
    (formatted : returned.formatted_expr.cString? = some printed)
    (short : printed.length ≤ 1017) :
    snprintf (BUF_SIZE + NAME_SIZE + 10) (ascii '[' :: id ++ [ascii ']', ascii ' '] ++
        printed ++ resultText returned.result) =
      ascii '[' :: id ++ [ascii ']', ascii ' '] ++ printed ++
        resultText returned.result := by
  have nameLength := CArray.length_lt_of_cString? named
  have valueLength := length_decimal_word_le returned.result
  have sizes : NAME_SIZE = 4 ∧ BUF_SIZE = 1024 := ⟨rfl, rfl⟩
  have bracket : (0#8 : Byte) ≠ ascii '[' ∧ (0#8 : Byte) ≠ ascii ']' ∧
      (0#8 : Byte) ≠ ascii ' ' := by decide
  apply snprintf_eq
  · simp [bracket, CArray.zero_notMem_of_cString? named,
      CArray.zero_notMem_of_cString? formatted, zero_notMem_resultText]
  · simp only [resultText, List.length_append, List.length_cons, List.length_nil]
    omega

theorem Evaluated.broadcasts (evaluated : Evaluated atoi text s thread returned)
    (other : returned.result ≠ -99999#32)
    (formatted : returned.formatted_expr.cString? = some expression.text)
    (short : expression.text.length ≤ 1017) :
    Broadcasts atoi s thread expression returned.result := by
  obtain ⟨actions, reached⟩ := evaluated.reached
  have held := registered_of_reached reached
  obtain ⟨handler, id, found, named, taken⟩ := evaluated.broadcast_step other formatted
  refine ⟨_, handler, id, taken _ (resultString_whole named formatted short), found, named,
    ?_⟩
  exact congrArg (s.sent ++ ·) (held.consistent.broadcast _)

end ways

/-! ## Disconnecting on a bad count -/

/-- Whoever sends the line is disconnected exactly when its count is out of
range, and otherwise its value is broadcast. -/
structure Answers (atoi : List Byte → Word) (text counted : List Byte)
    (found : List (List Byte)) : Prop where
  returns : ∀ (locals : Call) (expr : CArray Byte BUF_SIZE),
    expr.cString? = some text → ∃ returned, calculate atoi locals expr = some returned
  disconnects : ∀ s thread returned, Evaluated atoi text s thread returned →
    (Disconnects atoi s thread ↔ ¬ InRange (atoi counted).toInt)
  broadcasts : ∀ s thread returned, Evaluated atoi text s thread returned →
    InRange (atoi counted).toInt → ∃ value,
      leftToRight (foundExpression atoi (atoi counted).toInt.toNat found) = some value ∧
      Broadcasts atoi s thread (foundExpression atoi (atoi counted).toInt.toNat found) value

section line

variable {atoi : List Byte → Word} {text counted : List Byte} {found : List (List Byte)}
  {s : System} {thread : Nat} {returned : Returned}

theorem supplied_bounds (plain : 0#8 ∉ text)
    (split : tokens (ascii ' ') text = counted :: found)
    (supplied : Supplied (atoi counted).toInt found) :
    (foundExpression atoi (atoi counted).toInt.toNat found).count =
        (atoi counted).toInt.toNat ∧
      (foundExpression atoi (atoi counted).toInt.toNat found).count ≤ 255 ∧
      ∀ operator ∈ (foundExpression atoi (atoi counted).toInt.toNat found).operators,
        operator ≠ 0#8 := by
  obtain ⟨positive, small, enough⟩ := supplied
  have count := @count_foundExpression atoi found (atoi counted).toInt.toNat (by omega)
    (by omega)
  have isToken : ∀ token ∈ found, token ∈ tokens (ascii ' ') text := by
    intro token member
    rw [split]
    exact List.mem_cons_of_mem _ member
  exact ⟨count, by omega, plain_foundExpression
    (fun token member => ne_nil_of_mem_tokens (isToken token member))
    fun token member zero => plain (mem_of_mem_tokens (isToken token member) zero)⟩

/-- `formatted_expr` and `result_str` are large enough for its text. -/
theorem supplied_short (prints : PrintsShort atoi) (plain : 0#8 ∉ text)
    (short : text.length < BUF_SIZE)
    (split : tokens (ascii ' ') text = counted :: found)
    (supplied : Supplied (atoi counted).toInt found) :
    (foundExpression atoi (atoi counted).toInt.toNat found).text.length ≤ 1017 := by
  obtain ⟨count, _, operators⟩ := supplied_bounds plain split supplied
  obtain ⟨positive, small, enough⟩ := supplied
  have isToken : ∀ token ∈ counted :: found, token ∈ tokens (ascii ' ') text := by
    rw [split]
    exact fun _ member => member
  have total := (@sum_length_tokens_le (ascii ' ') text).trans short
  rw [split] at total
  have size : BUF_SIZE = 1024 := rfl
  have trade := @length_text_foundExpression_lt atoi _ _ (atoi counted).toInt.toNat _
    prints (fun token member => ne_nil_of_mem_tokens (isToken token member))
    (fun token member zero => plain (mem_of_mem_tokens
      (isToken token (List.mem_cons_of_mem _ member)) zero)) total (by omega) (by omega)
  have each := Expression.length_text_lt operators
  omega

theorem Evaluated.scans (evaluated : Evaluated atoi text s thread returned)
    (split : tokens (ascii ' ') text = found) :
    ∃ (expr : CArray Byte BUF_SIZE) (locals : Call), Scans (ascii ' ') expr 0 found ∧
      TestServ.calculate atoi locals expr = some returned := by
  obtain ⟨expr, locals, holds, computed⟩ := evaluated.calculate
  exact ⟨expr, locals, scans_of_cString? holds split, computed⟩

theorem Evaluated.supplied (evaluated : Evaluated atoi text s thread returned)
    (plain : 0#8 ∉ text) (split : tokens (ascii ' ') text = counted :: found)
    (supplied : Supplied (atoi counted).toInt found) :
    leftToRight (foundExpression atoi (atoi counted).toInt.toNat found) =
        some returned.result ∧
      returned.formatted_expr.cString? =
        some (foundExpression atoi (atoi counted).toInt.toNat found).text := by
  obtain ⟨_, small, operators⟩ := supplied_bounds plain split supplied
  obtain ⟨expr, locals, scans, computed⟩ := evaluated.scans split
  rw [calculate_supplied scans supplied] at computed
  exact finish_load_eq_some small operators computed

theorem Evaluated.outOfRange (evaluated : Evaluated atoi text s thread returned)
    (split : tokens (ascii ' ') text = counted :: found)
    (outside : (atoi counted).toInt = 0 ∨ 127 < (atoi counted).toInt) :
    returned.result = -99999#32 := by
  obtain ⟨expr, locals, scans, computed⟩ := evaluated.scans split
  rw [calculate_outOfRange scans outside] at computed
  cases computed
  rfl

/-- A negative count gives a broadcast of whatever `operands[0]` held. -/
theorem exists_negative (plain : 0#8 ∉ text) (short : text.length < BUF_SIZE)
    (split : tokens (ascii ' ') text = counted :: found)
    (negative : (atoi counted).toInt < 0) (stale : Word) :
    ∃ s thread formatted_expr, Evaluated atoi text s thread ⟨stale, formatted_expr⟩ ∧
      formatted_expr.cString? = some (decimal stale.toInt) := by
  obtain ⟨expr, holds, evaluates⟩ := exists_evaluated atoi plain short
    { Call.zero with operands := CArray.replicate 255 stale }
  have scans := scans_of_cString? holds split
  obtain ⟨first, formatted_expr, got, computed, text⟩ := calculate_negative scans negative
    { Call.zero with operands := CArray.replicate 255 stale }
  obtain rfl : stale = first := Option.some.inj got
  obtain ⟨s, thread, evaluated⟩ := evaluates _ computed
  exact ⟨s, thread, formatted_expr, evaluated, text⟩

theorem answers_of_outOfRange (split : tokens (ascii ' ') text = counted :: found)
    (outside : (atoi counted).toInt = 0 ∨ 127 < (atoi counted).toInt) :
    Answers atoi text counted found := by
  have notInRange : ¬ InRange (atoi counted).toInt := by
    unfold InRange
    omega
  constructor
  · intro locals expr holds
    have scans := scans_of_cString? holds split
    exact ⟨_, calculate_outOfRange scans outside locals⟩
  · intro s thread returned evaluated
    exact ⟨fun _ => notInRange, fun _ => evaluated.disconnects_iff.mpr
      (evaluated.outOfRange split outside)⟩
  · intro s thread returned _ inRange
    exact absurd inRange notInRange

theorem answers_of_supplied (reads : IsAtoi atoi) (plain : 0#8 ∉ text)
    (short : text.length < BUF_SIZE)
    (split : tokens (ascii ' ') text = counted :: found)
    (supplied : Supplied (atoi counted).toInt found) {value : Word}
    (isValue : leftToRight (foundExpression atoi (atoi counted).toInt.toNat found) =
      some value) (other : value ≠ -99999#32) : Answers atoi text counted found := by
  have inRange : InRange (atoi counted).toInt := ⟨supplied.1, supplied.2.1⟩
  have textShort := supplied_short (printsShort_of_isAtoi reads) plain short split supplied
  obtain ⟨_, small, operators⟩ := supplied_bounds plain split supplied
  have size : BUF_SIZE = 1024 := rfl
  have result {s : System} {thread : Nat} {returned : Returned}
      (evaluated : Evaluated atoi text s thread returned) : value = returned.result := by
    have same := (evaluated.supplied plain split supplied).1
    rwa [isValue, Option.some.injEq] at same
  constructor
  · intro locals expr holds
    have scans := scans_of_cString? holds split
    obtain ⟨formatted_expr, finished⟩ := @finish_load_isSome locals _ value small
      operators (Expression.fits_of_plain operators (by omega)) isValue
    exact ⟨_, (calculate_supplied scans supplied locals).trans finished⟩
  · intro s thread returned evaluated
    rw [evaluated.disconnects_iff, ← result evaluated]
    exact ⟨fun sentinel => absurd sentinel other, fun outside => absurd inRange outside⟩
  · intro s thread returned evaluated _
    have formatted := (evaluated.supplied plain split supplied).2
    rw [result evaluated] at isValue other
    exact ⟨_, isValue, evaluated.broadcasts other formatted textShort⟩

theorem Answers.other (answers : Answers atoi text counted found) (plain : 0#8 ∉ text)
    (short : text.length < BUF_SIZE)
    (split : tokens (ascii ' ') text = counted :: found)
    (supplied : Supplied (atoi counted).toInt found) :
    leftToRight (foundExpression atoi (atoi counted).toInt.toNat found) ≠
      some (-99999#32) := by
  intro sentinel
  obtain ⟨expr, holds, evaluates⟩ := exists_evaluated atoi plain short Call.zero
  obtain ⟨returned, computed⟩ := answers.returns Call.zero expr holds
  obtain ⟨s, thread, evaluated⟩ := evaluates returned computed
  have value := (evaluated.supplied plain split supplied).1
  rw [sentinel, Option.some.injEq] at value
  exact (answers.disconnects s thread returned evaluated).mp
    (evaluated.disconnects_iff.mpr value.symm) ⟨supplied.1, supplied.2.1⟩

theorem Answers.nonnegative (answers : Answers atoi text counted found)
    (plain : 0#8 ∉ text) (short : text.length < BUF_SIZE)
    (split : tokens (ascii ' ') text = counted :: found) : 0 ≤ (atoi counted).toInt := by
  by_contra negative
  obtain ⟨s, thread, _, evaluated, _⟩ :=
    exists_negative plain short split (by omega : (atoi counted).toInt < 0) 0
  have sentinel := evaluated.disconnects_iff.mp
    ((answers.disconnects s thread _ evaluated).mpr (by unfold InRange; omega))
  exact absurd sentinel (by decide : (0 : Word) ≠ -99999#32)

end line

/-- The client of a line with all its tokens and a value is answered as said
exactly when the count is 0 or too large, or in range with a value that is not
the one that stands for a bad count. -/
theorem disconnects_on_bad_count_iff {atoi : List Byte → Word} (reads : IsAtoi atoi)
    {text counted : List Byte} {found : List (List Byte)} (plain : 0#8 ∉ text)
    (short : text.length < BUF_SIZE)
    (split : tokens (ascii ' ') text = counted :: found)
    (enough : 2 * (atoi counted).toInt - 1 ≤ found.length)
    (defined : InRange (atoi counted).toInt →
      leftToRight (foundExpression atoi (atoi counted).toInt.toNat found) ≠ none) :
    Answers atoi text counted found ↔
      (atoi counted).toInt = 0 ∨ 127 < (atoi counted).toInt ∨
        (InRange (atoi counted).toInt ∧
          leftToRight (foundExpression atoi (atoi counted).toInt.toNat found) ≠
            some (-99999#32)) := by
  constructor
  · intro answers
    have nonnegative := answers.nonnegative plain short split
    by_cases inRange : InRange (atoi counted).toInt
    · exact .inr (.inr ⟨inRange,
        answers.other plain short split ⟨inRange.1, inRange.2, enough⟩⟩)
    · unfold InRange at inRange
      omega
  · intro given
    rcases given with zero | large | ⟨inRange, other⟩
    · exact answers_of_outOfRange split (.inl zero)
    · exact answers_of_outOfRange split (.inr large)
    · obtain ⟨value, isValue⟩ := Option.ne_none_iff_exists'.mp (defined inRange)
      exact answers_of_supplied reads plain short split
        ⟨inRange.1, inRange.2, enough⟩ isValue (by rintro rfl; exact other isValue)

/-- `2 7 5 -`. -/
def differenceText : List Byte :=
  [ascii '2', ascii ' ', ascii '7', ascii ' ', ascii '5', ascii ' ', ascii '-']

theorem difference_answered : Answers atoi differenceText [ascii '2']
    [[ascii '7'], [ascii '5'], [ascii '-']] :=
  (disconnects_on_bad_count_iff isAtoi_atoi (by decide) (by decide) (by decide)
    (by decide) (fun _ => by decide)).mpr (.inr (.inr ⟨by unfold InRange; decide, by decide⟩))

/-- `1 -99999`. -/
def sentinelText : List Byte :=
  [ascii '1', ascii ' ', ascii '-', ascii '9', ascii '9', ascii '9', ascii '9', ascii '9']

/-- A client that sends `1 -99999` is disconnected, and one that sends `-1` is
not. -/
theorem sentinel_disconnects :
    ¬ Answers atoi sentinelText [ascii '1']
        [[ascii '-', ascii '9', ascii '9', ascii '9', ascii '9', ascii '9']] ∧
      ¬ Answers atoi [ascii '-', ascii '1'] [ascii '-', ascii '1'] [] := by
  constructor
  · intro answers
    exact answers.other (by decide) (by decide) (by decide)
      (by unfold Supplied; decide) (by decide)
  · intro answers
    exact absurd (answers.nonnegative (by decide) (by decide) (by decide)) (by decide)

end NetworkProgramming.TestServ
