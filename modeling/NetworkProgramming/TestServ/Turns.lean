import NetworkProgramming.TestServ.Evaluation
import NetworkProgramming.TestServ.Membership
import NetworkProgramming.TestServ.Tokenising

/-!
# From a request to its evaluation in `test_serv`

A handler that reads a request evaluates a copy of its expression, and both the
name and the expression are terminated.  When no other thread has a turn before
`calculate` returns, it returns what it returns alone; so each text that a
client can send is evaluated in some reachable state, whatever the locals held.
-/

namespace NetworkProgramming.TestServ

open MachineInt Strtok Transition

/-! ## The buffers of a handler -/

theorem cString?_strncpy {source : CArray Byte BUF_SIZE} {text : List Byte}
    (holds : source.cString? = some text) : (strncpy source).cString? = some text := by
  have short := CArray.length_lt_of_cString? holds
  have terminated := CArray.zero_mem_of_cString? holds
  rw [CArray.cString?_of_mem terminated, Option.some.injEq] at holds
  refine CArray.cString?_eq_some.mpr ⟨holds ▸ zero_notMem_cString _,
    List.replicate (BUF_SIZE - text.length - 1) 0#8, ?_⟩
  obtain ⟨zeros, room⟩ : ∃ zeros, BUF_SIZE - text.length = zeros + 1 :=
    ⟨BUF_SIZE - text.length - 1, by omega⟩
  have cells : (strncpy source).cells = cString source.cells ++
      List.replicate (BUF_SIZE - (cString source.cells).length) 0#8 := rfl
  rw [cells, holds, room, List.replicate_succ, Nat.add_sub_cancel]

theorem cString?_set_zero {size : Nat} {array ended : CArray Byte size} {index : Nat}
    (set : array.set? index 0#8 = some ended) : ∃ text, ended.cString? = some text := by
  obtain ⟨inside, cells⟩ := CArray.set?_eq_some.mp set
  refine ⟨_, CArray.cString?_of_mem (cells ▸ ?_)⟩
  exact List.mem_set (by rwa [array.length_cells]) _

theorem scatter_isSome (handler : Handler) (received : List Byte) :
    ∃ scattered, handler.scatter received = some scattered := by
  have nameInside : NAME_SIZE < NAME_SIZE + 1 := by decide
  have exprInside : BUF_SIZE - 1 < BUF_SIZE := by decide
  simp [Handler.scatter, CArray.set?, nameInside, exprInside]

/-- Name and expression are terminated, and the evaluation is that of the
expression. -/
structure Ready (handler : Handler) : Prop where
  name : ∀ evaluation, handler.phase.evaluation = some evaluation →
    ∃ id, handler.id.cString? = some id
  expression : ∀ evaluation, handler.phase.evaluation = some evaluation →
    ∃ text, handler.expr.cString? = some text ∧ evaluation.expr.cString? = some text

theorem Ready.of_no_evaluation {handler : Handler}
    (none : handler.phase.evaluation = none) : Ready handler where
  name := by simp [none]
  expression := by simp [none]

theorem ready_scatter {handler scattered : Handler} {received : List Byte}
    (filled : handler.scatter received = some scattered) (locals : Call) :
    Ready { scattered with
      phase := .calculating ⟨scattered.expr_copy, locals, []⟩ .count locals } := by
  simp only [Handler.scatter, Option.bind_eq_bind, Option.bind_eq_some_iff] at filled
  obtain ⟨id, named, expr, ended, isScattered⟩ := filled
  cases isScattered
  obtain ⟨name, isName⟩ := cString?_set_zero named
  obtain ⟨text, isText⟩ := cString?_set_zero ended
  constructor
  · intro evaluation _
    exact ⟨name, isName⟩
  · intro evaluation current
    cases current
    exact ⟨text, isText, cString?_strncpy isText⟩

section ready

variable {atoi : List Byte → Word} {s next : System} {thread : Nat} {handler : Handler}

theorem Ready.of_same {moved : Handler} (ready : Ready handler)
    (id : moved.id = handler.id) (expr : moved.expr = handler.expr)
    (kept : ∀ evaluation, moved.phase.evaluation = some evaluation →
      ∃ earlier, handler.phase.evaluation = some earlier ∧
        evaluation.expr = earlier.expr) : Ready moved where
  name := by
    intro evaluation current
    obtain ⟨earlier, was, _⟩ := kept evaluation current
    exact id ▸ ready.name earlier was
  expression := by
    intro evaluation current
    obtain ⟨earlier, was, same⟩ := kept evaluation current
    rw [expr, same]
    exact ready.expression earlier was

theorem evaluation_progress (evaluation : Evaluation) (progress : Progress) :
    (progress.phase evaluation).evaluation = some evaluation := by
  cases progress <;> rfl

theorem ready_set {handlers : List Handler} (held : ∀ handler ∈ handlers, Ready handler)
    (moved : Ready handler) : ∀ other ∈ handlers.set thread handler, Ready other := by
  intro other member
  rcases List.mem_or_eq_of_mem_set member with earlier | rfl
  · exact held other earlier
  · exact moved

theorem ready_step {action : Action} (held : ∀ handler ∈ s.handlers, Ready handler)
    (taken : step atoi s action = some next) :
    ∀ handler ∈ next.handlers, Ready handler := by
  cases taken_of_step taken with
  | accept | append => exact held
  | create id expr expr_copy =>
      intro handler member
      rcases List.mem_append.mp member with earlier | isNew
      · exact held handler earlier
      · rw [List.mem_singleton.mp isNew]
        exact .of_no_evaluation rfl
  | request thread received locals handler scattered found phase _ filled =>
      exact ready_set held (ready_scatter filled locals)
  | strtok thread next called =>
      obtain ⟨handler, evaluation, point, call, owner, position, scanned, token, cut,
        stopped, again, progress, found, phase, _, ownerFound, _, refound, _, rfl⟩ :=
        System.strtok_eq_some called
      have cutReady : ∀ other ∈
          (s.put owner { scanned with expr_copy := cut }).handlers, Ready other :=
        ready_set held ((held _ (List.mem_of_getElem? ownerFound)).of_same rfl rfl
          fun evaluation current => ⟨evaluation, current, rfl⟩)
      have sameCall : again.phase.evaluation = some evaluation := by
        rcases (getElem?_set_eq_some ownerFound).mp refound with
          ⟨rfl, rfl⟩ | ⟨_, isAgain⟩
        · rw [found] at ownerFound
          cases ownerFound
          simp [phase, Phase.evaluation]
        · rw [System.handler?, isAgain] at found
          cases found
          simp [phase, Phase.evaluation]
      refine ready_set cutReady
        ((cutReady _ (List.mem_of_getElem? refound)).of_same rfl rfl ?_)
      intro current isCurrent
      rw [evaluation_progress] at isCurrent
      cases isCurrent
      exact ⟨evaluation, sameCall, rfl⟩
  | broadcast | overflow | leave | remove | close =>
      exact ready_set held (.of_no_evaluation rfl)

theorem ready_of_reached {actions : List Action}
    (reached : run (step atoi) System.initial actions = some s) :
    ∀ handler ∈ s.handlers, Ready handler :=
  run_invariant_of_step (fun s => ∀ handler ∈ s.handlers, Ready handler)
    (fun held taken => ready_step held taken) (by simp [System.initial]) reached

end ready

/-! ## A handler alone -/

section alone

variable {atoi : List Byte → Word} {s : System} {thread : Nat} {handler : Handler}
  {evaluation : Evaluation} {point : Point} {call : Call} {position : Nat}

/-- A call of `strtok` by the thread that has the position. -/
theorem strtok_own {token : Option (List Byte)} {cut : CArray Byte BUF_SIZE}
    {stopped : Nat} {progress : Progress} (found : s.handler? thread = some handler)
    (phase : handler.phase = .calculating evaluation point call)
    (cursor : point ≠ .count → s.cursor = some (thread, position))
    (scan : Strtok.strtok (ascii ' ') handler.expr_copy (point.start position) =
      some (token, cut, stopped))
    (received : receive atoi call point token = some progress) :
    s.strtok atoi thread = some { s.put thread { handler with
        expr_copy := cut
        phase := progress.phase { evaluation with
          seen := evaluation.seen ++ [token] } } with
      cursor := some (thread, stopped) } := by
  have bound := (List.getElem?_eq_some_iff.mp found).1
  have start : s.start thread point = some (thread, point.start position) := by
    unfold System.start
    cases point with
    | count => rfl
    | operand left i => exact cursor (by simp)
    | operator left i => exact cursor (by simp)
  have refound := @System.handler?_put s thread handler
    { handler with expr_copy := cut } found
  simp only [System.strtok, found, phase, start, scan, received, Option.bind_eq_bind,
    Option.bind_some]
  rw [phase] at refound
  rw [refound]
  simp [System.put]

/-- When nobody else has a turn, the calls of `strtok` lead to what `calculate`
returns alone; nothing but the thread and the position has changed. -/
theorem exists_alone {returned : Returned} {tokens : List (List Byte)}
    (scans : Scans (ascii ' ') handler.expr_copy (point.start position) tokens)
    (found : s.handler? thread = some handler)
    (phase : handler.phase = .calculating evaluation point call)
    (cursor : point ≠ .count → s.cursor = some (thread, position))
    (resumed : resume atoi point call handler.expr_copy position = some returned) :
    ∃ calls seen expr_copy last,
      run (step atoi) s (List.replicate calls (.strtok thread)) =
        some { s.put thread { handler with
          expr_copy := expr_copy
          phase := .calculated { evaluation with seen := seen } returned } with
        cursor := last } := by
  induction tokens generalizing s handler evaluation point call position with
  | nil =>
      obtain ⟨stopped, scan, _⟩ := strtok_nil scans
      rw [resume_eq, scan, Option.bind_some, receive_none, Option.bind_some] at resumed
      cases resumed
      have last := strtok_own found phase cursor scan (@receive_none atoi call point)
      refine ⟨1, evaluation.seen ++ [none], handler.expr_copy, some (thread, stopped), ?_⟩
      rw [List.replicate_one, run_cons, step, last]
      rfl
  | cons token tokens induction =>
      obtain ⟨cut, stopped, scan, behind⟩ := strtok_cons scans
      rw [resume_eq, scan, Option.bind_some] at resumed
      obtain ⟨progress, received, rest⟩ := Option.bind_eq_some_iff.mp resumed
      have first := strtok_own found phase cursor scan received
      cases progress with
      | returned result =>
          cases rest
          refine ⟨1, evaluation.seen ++ [some token], cut, some (thread, stopped), ?_⟩
          rw [List.replicate_one, run_cons, step, first]
          rfl
      | calling next after =>
          have start := start_of_receive received stopped
          obtain ⟨calls, seen, expr_copy, last, ran⟩ := @induction
            { s.put thread { handler with
                expr_copy := cut
                phase := .calculating { evaluation with
                  seen := evaluation.seen ++ [some token] } next after } with
              cursor := some (thread, stopped) }
            { handler with
              expr_copy := cut
              phase := .calculating { evaluation with
                seen := evaluation.seen ++ [some token] } next after }
            { evaluation with seen := evaluation.seen ++ [some token] } next after
            stopped (by rwa [start])
            (System.handler?_put found) rfl (fun _ => rfl) rest
          refine ⟨calls + 1, seen, expr_copy, last, ?_⟩
          rw [List.replicate_succ, run_cons, step, first, Option.bind_some]
          refine ran.trans ?_
          simp [System.put]

end alone

/-! ## A text that was received and evaluated -/

/-- In a state that is reached a handler has received the text as its
expression, and `calculate` has returned what it returns alone. -/
structure Evaluated (atoi : List Byte → Word) (text : List Byte) (s : System)
    (thread : Nat) (returned : Returned) : Prop where
  reached : ∃ actions, run (step atoi) System.initial actions = some s
  evaluation : ∃ handler evaluation, s.handler? thread = some handler ∧
    handler.phase = .calculated evaluation returned ∧
    handler.expr.cString? = some text ∧ evaluation.alone atoi = some returned

section evaluated

variable {atoi : List Byte → Word} {text : List Byte} {s : System} {thread : Nat}
  {returned : Returned}

theorem Evaluated.calculate (evaluated : Evaluated atoi text s thread returned) :
    ∃ (expr : CArray Byte BUF_SIZE) (locals : Call), expr.cString? = some text ∧
      TestServ.calculate atoi locals expr = some returned := by
  obtain ⟨actions, reached⟩ := evaluated.reached
  obtain ⟨handler, evaluation, found, phase, holds, alone⟩ := evaluated.evaluation
  have ready := ready_of_reached reached handler (List.mem_of_getElem? found)
  obtain ⟨other, same, copied⟩ := ready.expression evaluation (by simp [phase, Phase.evaluation])
  rw [holds, Option.some.injEq] at same
  subst same
  exact ⟨evaluation.expr, evaluation.call, copied, alone⟩

theorem scatter_text {handler scattered : Handler} {received rest : List Byte}
    (plain : 0#8 ∉ text) (behind : received.drop NAME_SIZE = text ++ 0#8 :: rest)
    (size : received.length ≤ NAME_SIZE + BUF_SIZE)
    (filled : handler.scatter received = some scattered) :
    scattered.expr.cString? = some text ∧ scattered.expr_copy.cString? = some text := by
  simp only [Handler.scatter, behind, Option.bind_eq_bind,
    Option.bind_eq_some_iff] at filled
  obtain ⟨id, _, expr, ended, isScattered⟩ := filled
  cases isScattered
  have length := congrArg List.length behind
  have bufSize : BUF_SIZE = 1024 := rfl
  rw [List.length_drop, List.length_append, List.length_cons] at length
  obtain ⟨_, cells⟩ := CArray.set?_eq_some.mp ended
  rw [CArray.cells_fill _ (by rw [List.length_append, List.length_cons]; omega),
    List.append_assoc, List.set_append_right _ _ (by omega), List.cons_append] at cells
  have holds : expr.cString? = some text := by
    refine CArray.cString?_eq_some.mpr ⟨plain, ?_⟩
    rw [cells]
    cases BUF_SIZE - 1 - text.length with
    | zero => exact ⟨_, rfl⟩
    | succ further => exact ⟨_, rfl⟩
  exact ⟨holds, cString?_strncpy holds⟩

/-- A handler that reads a terminated text and has the turns until `calculate`
returns has evaluated that text. -/
theorem exists_request {handler : Handler} {received rest : List Byte}
    (found : s.handler? thread = some handler) (reading : handler.phase = .reading)
    (plain : 0#8 ∉ text) (received_eq : received.drop NAME_SIZE = text ++ 0#8 :: rest)
    (size : received.length ≤ NAME_SIZE + BUF_SIZE) (locals : Call) :
    ∃ expr : CArray Byte BUF_SIZE, expr.cString? = some text ∧
      ∀ returned, TestServ.calculate atoi locals expr = some returned →
        ∃ calls final evaluated evaluation,
          run (step atoi) s
              (.request thread received locals :: List.replicate calls (.strtok thread)) =
            some final ∧
          final.handler? thread = some evaluated ∧
          evaluated.phase = .calculated evaluation returned ∧
          evaluated.expr.cString? = some text ∧
          evaluation.alone atoi = some returned := by
  obtain ⟨scattered, filled⟩ := scatter_isSome handler received
  obtain ⟨holds, copied⟩ := scatter_text plain received_eq size filled
  have bound := (List.getElem?_eq_some_iff.mp found).1
  have length := congrArg List.length received_eq
  rw [List.length_drop, List.length_append, List.length_cons] at length
  have requests : step atoi s (.request thread received locals) =
      some (s.put thread { scattered with
        phase := .calculating ⟨scattered.expr_copy, locals, []⟩ .count locals }) := by
    have arrives : 0 < received.length ∧ received.length ≤ NAME_SIZE + BUF_SIZE := by
      omega
    simp only [step, found, reading, Option.bind_eq_bind, Option.bind_some]
    rw [if_pos arrives, filled]
    rfl
  refine ⟨scattered.expr_copy, copied, fun returned computed => ?_⟩
  have isRequested := @System.handler?_put s thread handler { scattered with
    phase := .calculating ⟨scattered.expr_copy, locals, []⟩ .count locals } found
  obtain ⟨calls, seen, expr_copy, last, ran⟩ := @exists_alone atoi _ thread
    { scattered with
      phase := .calculating ⟨scattered.expr_copy, locals, []⟩ .count locals }
    ⟨scattered.expr_copy, locals, []⟩ .count locals 0 returned _
    (scans_of_cString? copied rfl) isRequested rfl (fun between => absurd rfl between) computed
  have whole := run_cons_eq_some.mpr ⟨_, requests, ran⟩
  refine ⟨calls, _, { scattered with
    expr_copy := expr_copy
    phase := .calculated ⟨scattered.expr_copy, locals, seen⟩ returned },
    ⟨scattered.expr_copy, locals, seen⟩, whole, ?_, rfl, holds, computed⟩
  exact System.handler?_put isRequested

/-- Every text can be received with any locals, and is then evaluated. -/
theorem exists_evaluated (atoi : List Byte → Word) (plain : 0#8 ∉ text)
    (short : text.length < BUF_SIZE) (locals : Call) :
    ∃ expr : CArray Byte BUF_SIZE, expr.cString? = some text ∧
      ∀ returned, TestServ.calculate atoi locals expr = some returned →
        ∃ s thread, Evaluated atoi text s thread returned := by
  let handler : Handler := ⟨4, CArray.replicate (NAME_SIZE + 1) 0#8,
    CArray.replicate BUF_SIZE 0#8, CArray.replicate BUF_SIZE 0#8, .reading⟩
  obtain ⟨registered, started, isHandler⟩ : ∃ s,
      run (step atoi) System.initial [.accept 4, .append,
        .create handler.id handler.expr handler.expr_copy] = some s ∧
      s.handler? 0 = some handler := ⟨_, rfl, rfl⟩
  obtain ⟨expr, holds, evaluates⟩ := @exists_request atoi text registered 0 handler
    (List.replicate NAME_SIZE 0#8 ++ (text ++ [0#8])) [] isHandler rfl plain
    (List.drop_left' (by simp)) (by
      simp only [List.length_append, List.length_replicate, List.length_singleton]
      omega) locals
  refine ⟨expr, holds, fun returned computed => ?_⟩
  obtain ⟨calls, final, evaluated, evaluation, ran, outcome⟩ := evaluates returned computed
  exact ⟨final, 0, ⟨_, run_append_of_eq_some started ran⟩, evaluated, evaluation, outcome⟩

end evaluated

end NetworkProgramming.TestServ
