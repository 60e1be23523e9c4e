import NetworkProgramming.TestServ.System

/-!
# Shared tokenising in `test_serv`

`strtok` keeps one position for the process, and `calculate` runs outside the
mutex.  Two handlers that take their expressions apart at the same time get
each other's tokens.  When no handler makes the first call of its `calculate`
while another is between its first and its last one, each sees the tokens of
its own expression and returns what it returns alone.
-/

namespace NetworkProgramming.TestServ

open MachineInt Strtok Transition

/-- The call of `calculate` a handler is in, or has last returned from. -/
def Phase.evaluation : Phase → Option Evaluation
  | .calculating evaluation _ _ | .calculated evaluation _ => some evaluation
  | .reading | .cleanup | .closing | .ended => none

/-- What the call of `calculate` has returned. -/
def Phase.returned : Phase → Option Returned
  | .calculated _ returned => some returned
  | .reading | .calculating _ _ _ | .cleanup | .closing | .ended => none

theorem Phase.returned_eq_some {phase : Phase} {returned : Returned} :
    phase.returned = some returned ↔
      ∃ evaluation, phase = .calculated evaluation returned := by
  cases phase <;> simp [Phase.returned]

/-- In front of the first call of `strtok`. -/
def Phase.starting : Phase → Bool
  | .calculating _ point _ => point = .count
  | .calculated _ _ | .reading | .cleanup | .closing | .ended => false

/-- Between the first call of `strtok` and the last. -/
def Phase.tokenising : Phase → Bool
  | .calculating _ point _ => point ≠ .count
  | .calculated _ _ | .reading | .cleanup | .closing | .ended => false

/-- What the calls of `strtok` return when nothing interferes: the tokens of
the expression and then NULL. -/
def Evaluation.tokens (evaluation : Evaluation) : List (Option (List Byte)) :=
  (Strtok.tokens (ascii ' ') (cString evaluation.expr.cells)).map some ++ [none]

/-- What `calculate` returns when it runs alone. -/
def Evaluation.alone (atoi : List Byte → Word) (evaluation : Evaluation) :
    Option Returned :=
  calculate atoi evaluation.call evaluation.expr

/-- A handler has seen its own tokens, and returned what they give. -/
structure Undisturbed (atoi : List Byte → Word) (handler : Handler) : Prop where
  seen : ∀ evaluation, handler.phase.evaluation = some evaluation →
    evaluation.seen <+: evaluation.tokens
  result : ∀ evaluation returned, handler.phase = .calculated evaluation returned →
    evaluation.alone atoi = some returned

/-- `strtok(expr, " ")` is called only when no handler is between its first and
its last call of `strtok`. -/
def OneAtATime (s : System) : Action → Prop
  | .strtok thread =>
      ((s.handler? thread).any fun handler => handler.phase.starting) = true →
        ∀ other ∈ s.handlers, other.phase.tokenising = false
  | .accept _ | .append | .create _ _ _ | .request _ _ _ | .broadcast _
  | .overflow _ | .leave _ | .remove _ | .close _ => True

instance (s : System) : (action : Action) → Decidable (OneAtATime s action)
  | .strtok _ => inferInstanceAs (Decidable (_ → _))
  | .accept _ | .append | .create _ _ _ | .request _ _ _ | .broadcast _
  | .overflow _ | .leave _ | .remove _ | .close _ => isTrue trivial

/-! ## One handler on its own tokens -/

/-- The tokens seen are the first of the expression, the others stand behind
the position, and the rest of the call gives what the whole call gives alone. -/
structure OnTrack (atoi : List Byte → Word) (evaluation : Evaluation) (point : Point)
    (call : Call) (expr_copy : CArray Byte BUF_SIZE) (position : Nat) : Prop where
  seen : ∃ seen, evaluation.seen = seen.map some ∧
    Strtok.tokens (ascii ' ') (cString evaluation.expr.cells) = seen ++
      Strtok.tokens (ascii ' ')
        (cString (expr_copy.cells.drop (point.start position)))
  rest : resume atoi point call expr_copy position = evaluation.alone atoi

theorem receive_none {atoi : List Byte → Word} {call : Call} {point : Point} :
    receive atoi call point none = some (.returned call.noToken) := by
  cases point <;> rfl

theorem toOperators_ne_count {left i : Nat} {call next : Call} :
    toOperators left i call ≠ some (.calling .count next) := by
  cases left with
  | zero => cases finished : finish call <;> simp [toOperators, finished]
  | succ left => simp [toOperators]

theorem toOperands_ne_count {left i : Nat} {call next : Call} :
    toOperands left i call ≠ some (.calling .count next) := by
  cases left with
  | zero => exact toOperators_ne_count
  | succ left => simp [toOperands]

theorem receive_ne_count {atoi : List Byte → Word} {call next : Call} {point : Point}
    {token : Option (List Byte)} :
    receive atoi call point token ≠ some (.calling .count next) := by
  intro received
  cases token with
  | none => simp [receive_none] at received
  | some token =>
      cases point with
      | count =>
          simp only [receive] at received
          split at received
          · simp at received
          · exact toOperands_ne_count received
      | operand left i =>
          simp only [receive, Option.bind_eq_some_iff] at received
          obtain ⟨_, _, received⟩ := received
          exact toOperands_ne_count received
      | operator left i =>
          simp only [receive, Option.bind_eq_some_iff] at received
          obtain ⟨_, _, received⟩ := received
          exact toOperators_ne_count received

/-- Behind the first token a call goes on where it stopped. -/
theorem start_of_receive {atoi : List Byte → Word} {call after : Call} {point next : Point}
    {token : Option (List Byte)}
    (received : receive atoi call point token = some (.calling next after))
    (position : Nat) : next.start position = position := by
  cases next with
  | count => exact absurd received receive_ne_count
  | operand left i => rfl
  | operator left i => rfl

section onTrack

variable {atoi : List Byte → Word} {evaluation : Evaluation} {point : Point}
  {call : Call} {expr_copy cut : CArray Byte BUF_SIZE} {position stopped : Nat}
  {token : Option (List Byte)}

theorem onTrack_start (evaluation : Evaluation) (fresh : evaluation.seen = [])
    (position : Nat) :
    OnTrack atoi evaluation .count evaluation.call evaluation.expr position where
  seen := ⟨[], fresh, by simp [Point.start]⟩
  rest := rfl

theorem OnTrack.seen_prefix
    (track : OnTrack atoi evaluation point call expr_copy position) :
    evaluation.seen <+: evaluation.tokens := by
  obtain ⟨seen, isSeen, split⟩ := track.seen
  rw [isSeen, Evaluation.tokens, split, List.map_append, List.append_assoc]
  exact List.prefix_append _ _

theorem OnTrack.next (track : OnTrack atoi evaluation point call expr_copy position)
    (scan : strtok (ascii ' ') expr_copy (point.start position) =
      some (token, cut, stopped)) :
    ∃ seen found, evaluation.seen = seen.map some ∧
      Strtok.tokens (ascii ' ') (cString evaluation.expr.cells) =
        seen ++ (token.toList ++ found) ∧
      Strtok.tokens (ascii ' ') (cString (cut.cells.drop stopped)) = found ∧
      (token = none → found = []) := by
  obtain ⟨seen, isSeen, split⟩ := track.seen
  obtain ⟨found, before, behind, ended⟩ := scans_of_strtok scan
  exact ⟨seen, found, isSeen, by rw [split, before.tokens], behind.tokens, ended⟩

theorem OnTrack.calling {next : Point} {after : Call}
    (track : OnTrack atoi evaluation point call expr_copy position)
    (scan : strtok (ascii ' ') expr_copy (point.start position) =
      some (token, cut, stopped))
    (received : receive atoi call point token = some (.calling next after)) :
    OnTrack atoi { evaluation with seen := evaluation.seen ++ [token] } next after cut
      stopped := by
  obtain ⟨seen, found, isSeen, split, behind, _⟩ := track.next scan
  cases token with
  | none => simp [receive_none] at received
  | some token =>
      have start := start_of_receive received stopped
      refine ⟨⟨seen ++ [token], by simp [isSeen], ?_⟩, ?_⟩
      · rw [split, start, behind]
        simp
      · have whole := track.rest
        rw [resume_eq, scan, Option.bind_some, received, Option.bind_some] at whole
        exact whole

theorem OnTrack.returned {result : Returned}
    (track : OnTrack atoi evaluation point call expr_copy position)
    (scan : strtok (ascii ' ') expr_copy (point.start position) =
      some (token, cut, stopped))
    (received : receive atoi call point token = some (.returned result)) :
    evaluation.alone atoi = some result ∧
      evaluation.seen ++ [token] <+: evaluation.tokens := by
  constructor
  · have whole := track.rest
    rw [resume_eq, scan, Option.bind_some, received, Option.bind_some] at whole
    exact whole.symm
  · obtain ⟨seen, found, isSeen, split, _, ended⟩ := track.next scan
    rw [isSeen, Evaluation.tokens, split]
    cases token with
    | none => simp [ended rfl]
    | some token => exact ⟨found.map some ++ [none], by simp⟩

end onTrack

/-! ## All handlers -/

/-- A handler that is calculating is on its own tokens, and has the position
when it is between two calls of `strtok`. -/
structure Own (atoi : List Byte → Word) (cursor : Option (Nat × Nat)) (thread : Nat)
    (handler : Handler) : Prop where
  calculating : ∀ evaluation point call,
    handler.phase = .calculating evaluation point call →
      ∃ position, (point ≠ .count → cursor = some (thread, position)) ∧
        OnTrack atoi evaluation point call handler.expr_copy position
  calculated : ∀ evaluation returned,
    handler.phase = .calculated evaluation returned →
      evaluation.alone atoi = some returned ∧ evaluation.seen <+: evaluation.tokens

def Separate (atoi : List Byte → Word) (s : System) : Prop :=
  ∀ thread handler, s.handler? thread = some handler → Own atoi s.cursor thread handler

section own

variable {atoi : List Byte → Word} {cursor : Option (Nat × Nat)} {thread : Nat}
  {handler : Handler}

theorem Own.undisturbed (own : Own atoi cursor thread handler) :
    Undisturbed atoi handler where
  seen := by
    intro evaluation current
    cases phase : handler.phase with
    | calculating other point call =>
        rw [phase] at current
        cases current
        obtain ⟨position, _, track⟩ := own.calculating _ _ _ phase
        exact track.seen_prefix
    | calculated other returned =>
        rw [phase] at current
        cases current
        exact (own.calculated _ _ phase).2
    | reading => simp [phase, Phase.evaluation] at current
    | cleanup => simp [phase, Phase.evaluation] at current
    | closing => simp [phase, Phase.evaluation] at current
    | ended => simp [phase, Phase.evaluation] at current
  result := fun evaluation returned phase => (own.calculated evaluation returned phase).1

theorem Own.of_idle {other : Option (Nat × Nat)} (own : Own atoi cursor thread handler)
    (idle : handler.phase.tokenising = false) : Own atoi other thread handler where
  calculating := by
    intro evaluation point call phase
    obtain ⟨position, _, track⟩ := own.calculating _ _ _ phase
    refine ⟨position, fun between => ?_, track⟩
    simp [phase, Phase.tokenising, between] at idle
  calculated := own.calculated

theorem Own.of_no_evaluation (none : handler.phase.evaluation = none) :
    Own atoi cursor thread handler where
  calculating := by
    intro evaluation point call phase
    simp [phase, Phase.evaluation] at none
  calculated := by
    intro evaluation returned phase
    simp [phase, Phase.evaluation] at none

theorem Own.tokenising (own : Own atoi cursor thread handler)
    (between : handler.phase.tokenising = true) :
    ∃ position, cursor = some (thread, position) := by
  cases phase : handler.phase with
  | calculating evaluation point call =>
      obtain ⟨position, holds, _⟩ := own.calculating _ _ _ phase
      simp only [phase, Phase.tokenising, decide_eq_true_eq] at between
      exact ⟨position, holds between⟩
  | calculated evaluation returned => simp [phase, Phase.tokenising] at between
  | reading => simp [phase, Phase.tokenising] at between
  | cleanup => simp [phase, Phase.tokenising] at between
  | closing => simp [phase, Phase.tokenising] at between
  | ended => simp [phase, Phase.tokenising] at between

end own

section separate

variable {atoi : List Byte → Word} {s next : System} {thread : Nat}
  {handler moved : Handler}

theorem separate_set (held : ∀ other handler, other ≠ thread →
      s.handler? other = some handler → Own atoi next.cursor other handler)
    (handlers : next.handlers = s.handlers.set thread moved)
    (own : Own atoi next.cursor thread moved) : Separate atoi next := by
  intro other handler found
  rw [System.handler?, handlers, List.getElem?_set] at found
  split at found
  · rename_i same
    subst same
    split at found
    · cases found
      exact own
    · cases found
  · rename_i different
    exact held other handler (Ne.symm different) found

theorem separate_put (held : Separate atoi s) (cursor : next.cursor = s.cursor)
    (handlers : next.handlers = s.handlers.set thread moved)
    (own : Own atoi s.cursor thread moved) : Separate atoi next := by
  refine separate_set (fun other handler _ found => ?_) handlers (by rwa [cursor])
  rw [cursor]
  exact held other handler found

/-- When a handler calls `strtok`, no other one is between two calls. -/
theorem idle_others (held : Separate atoi s) (allowed : OneAtATime s (.strtok thread))
    {evaluation : Evaluation} {point : Point} {call : Call}
    (found : s.handler? thread = some handler)
    (phase : handler.phase = .calculating evaluation point call) {other : Nat}
    {another : Handler} (different : other ≠ thread)
    (otherFound : s.handler? other = some another) :
    another.phase.tokenising = false := by
  by_cases first : point = .count
  · subst first
    exact allowed (by simp [found, phase, Phase.starting]) another
      (List.mem_of_getElem? otherFound)
  · obtain ⟨position, holds, _⟩ := (held thread handler found).calculating _ _ _ phase
    by_contra between
    obtain ⟨elsewhere, otherHolds⟩ := (held other another otherFound).tokenising
      (by simpa using between)
    rw [holds first] at otherHolds
    cases otherHolds
    exact different rfl

theorem separate_strtok (held : Separate atoi s)
    (allowed : OneAtATime s (.strtok thread))
    (taken : s.strtok atoi thread = some next) : Separate atoi next := by
  obtain ⟨handler, evaluation, point, call, owner, position, scanned, token, cut,
    stopped, again, progress, found, phase, start, ownerFound, scan, refound,
    received, rfl⟩ := System.strtok_eq_some taken
  obtain ⟨own, holds, track⟩ := (held thread handler found).calculating _ _ _ phase
  have here : owner = thread ∧ position = point.start own := by
    unfold System.start at start
    split at start
    · rename_i first
      cases start
      exact ⟨rfl, by rw [first, Point.start]⟩
    · rename_i notFirst
      rw [holds notFirst] at start
      cases start
      refine ⟨rfl, ?_⟩
      cases point with
      | count => exact absurd rfl notFirst
      | operand left i => rfl
      | operator left i => rfl
  obtain ⟨rfl, rfl⟩ := here
  rw [found] at ownerFound
  cases ownerFound
  have bound := (List.getElem?_eq_some_iff.mp found).1
  have isAgain : again = { handler with expr_copy := cut } := by
    simp only [System.handler?, System.put, List.getElem?_set_self bound,
      Option.some.injEq] at refound
    exact refound.symm
  subst isAgain
  refine @separate_set atoi s _ owner { handler with
      expr_copy := cut
      phase := progress.phase { evaluation with seen := evaluation.seen ++ [token] } }
    (fun other another different otherFound => ?_)
    (by simp only [System.put, List.set_set]) ?_
  · exact (held other another otherFound).of_idle
      (idle_others held allowed found phase different otherFound)
  · cases progress with
    | calling after nextCall =>
        refine ⟨?_, by simp [Progress.phase]⟩
        intro current point call isCalling
        cases isCalling
        exact ⟨stopped, fun _ => rfl, track.calling scan received⟩
    | returned result =>
        refine ⟨by simp [Progress.phase], ?_⟩
        intro current returned isReturned
        cases isReturned
        exact track.returned scan received

theorem separate_step {action : Action} (held : Separate atoi s)
    (allowed : OneAtATime s action) (taken : step atoi s action = some next) :
    Separate atoi next := by
  cases taken_of_step taken with
  | strtok thread next called => exact separate_strtok held allowed called
  | request thread received locals handler scattered =>
      refine separate_put held rfl rfl ⟨?_, by simp⟩
      intro evaluation point call isCalling
      cases isCalling
      exact ⟨0, fun between => absurd rfl between, onTrack_start _ rfl _⟩
  | accept | append => exact held
  | create id expr expr_copy =>
      intro other handler found
      rcases getElem?_snoc_eq_some.mp found with earlier | ⟨_, rfl⟩
      · exact held other handler earlier
      · exact .of_no_evaluation rfl
  | broadcast | overflow | leave | remove | close =>
      exact separate_put held rfl rfl (.of_no_evaluation rfl)

end separate

/-- In a run whose handlers take their expressions apart one at a time, every
handler sees the tokens of its own expression and returns what it returns
alone. -/
theorem undisturbed_one_at_a_time {atoi : List Byte → Word} {actions : List Action}
    {s : System} (guarded : Guarded (step atoi) OneAtATime System.initial actions)
    (reached : run (step atoi) System.initial actions = some s) :
    ∀ handler ∈ s.handlers, Undisturbed atoi handler := by
  have initially : Separate atoi System.initial := by
    intro thread handler found
    simp [System.handler?, System.initial] at found
  have held : Separate atoi s := run_invariant (Separate atoi)
    (fun held allowed taken => separate_step held allowed taken) initially guarded
    reached
  intro handler member
  obtain ⟨thread, found⟩ := List.mem_iff_getElem?.mp member
  exact (held thread handler found).undisturbed

/-- Two clients are connected and their handlers have read `2 1 2 +` and
`2 3 4 *`. -/
def twoRequests : List Action :=
  let cleared := CArray.replicate BUF_SIZE 0#8
  let id := CArray.replicate (NAME_SIZE + 1) 0#8
  let name := [107#8, 105#8, 109#8, 49#8]
  let blank := ascii ' '
  [.accept 4, .append, .create id cleared cleared, .accept 5, .append,
    .create id cleared cleared,
    .request 0 (name ++ [ascii '2', blank, ascii '1', blank, ascii '2', blank,
      ascii '+', 0#8]) Call.zero,
    .request 1 (name ++ [ascii '2', blank, ascii '3', blank, ascii '4', blank,
      ascii '*', 0#8]) Call.zero]

theorem undisturbed_one_at_a_time_inTurn :
    ∃ s, run (step atoi) System.initial (twoRequests ++
          [.strtok 1, .strtok 1, .strtok 1, .strtok 1, .strtok 0, .strtok 0]) = some s ∧
      ∀ handler ∈ s.handlers, Undisturbed atoi handler := by
  have guarded : Guarded (step atoi) OneAtATime System.initial (twoRequests ++
      [.strtok 1, .strtok 1, .strtok 1, .strtok 1, .strtok 0, .strtok 0]) := by
    decide +kernel
  have defined : (run (step atoi) System.initial (twoRequests ++
      [.strtok 1, .strtok 1, .strtok 1, .strtok 1, .strtok 0, .strtok 0])).isSome := by
    decide +kernel
  obtain ⟨s, reached⟩ := Option.isSome_iff_exists.mp defined
  exact ⟨s, reached, undisturbed_one_at_a_time guarded reached⟩

/-- Both handlers call `strtok(expr, " ")` before the first goes on. -/
def overlapping : List Action :=
  twoRequests ++ [.strtok 0, .strtok 1, .strtok 0, .strtok 0, .strtok 0]

/-- The first handler returns the product of the second one's operands. -/
theorem overlapping_disturbs :
    ¬ ∀ s, run (step atoi) System.initial overlapping = some s →
      ∀ handler ∈ s.handlers, Undisturbed atoi handler := by
  intro always
  have shape : (run (step atoi) System.initial overlapping).any (fun s =>
      (s.handler? 0).any fun handler =>
        handler.phase.returned.map Returned.result = some 12 ∧
          (handler.phase.evaluation.bind (·.alone atoi)).map Returned.result =
            some 3) = true := by
    decide +kernel
  obtain ⟨s, reached, shaped⟩ := (Option.any_eq_true _ _).mp shape
  obtain ⟨handler, found, shaped⟩ := (Option.any_eq_true _ _).mp shaped
  obtain ⟨product, sum⟩ := of_decide_eq_true shaped
  have undisturbed := always s reached handler (List.mem_of_getElem? found)
  obtain ⟨returned, isReturned, twelve⟩ := Option.map_eq_some_iff.mp product
  obtain ⟨evaluation, phase⟩ := Phase.returned_eq_some.mp isReturned
  simp only [phase, Phase.evaluation, Option.bind_some,
    undisturbed.result evaluation returned phase, Option.map_some, twelve] at sum
  exact absurd sum (by decide)

end NetworkProgramming.TestServ
