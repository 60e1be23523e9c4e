import NetworkProgramming.Hw6.Pipes

/-!
# Failing reads of `hw6_server`

The result of `readv` is compared with 0 only, so after an error `mode_check`
looks at the mode of whichever request came before.  When that is none of the
three words the error passes without a trace.  Otherwise the old request begins
once more: its mode word goes to the pipe before anything is written to the
descriptor that failed.
-/

namespace NetworkProgramming.Hw6

open MachineInt Transition

/-- Between a failing read and `final` nothing was stored or sent, only that
client may be gone, and the pipes and the child are as some steps of the child
alone make them. -/
structure Untouched (serv_sock : Nat) (s final : System) : Prop where
  dataArray : final.globals.dataArray = s.globals.dataArray
  trace : final.trace = s.trace ++ [.received s.i .failed]
  sockets : s.sockets.erase s.i ⊆ final.sockets
  store : ∃ count alone,
    run (step serv_sock) s (List.replicate count .child) = some alone ∧
      final.child = alone.child ∧ final.fdsA = alone.fdsA ∧ final.fdsB = alone.fdsB

/-- Whatever the server goes on to do by itself leaves the store alone, and it
comes back to its loop. -/
structure LeavesAlone (serv_sock : Nat) (s next : System) : Prop where
  untouched : ∀ actions final, (∀ action ∈ actions, Internal action) →
    run (step serv_sock) next actions = some final → Untouched serv_sock s final
  returns : ∃ actions final, (∀ action ∈ actions, Internal action) ∧
    run (step serv_sock) next actions = some final ∧ final.Idle

def FailureHarmless (serv_sock : Nat) (s : System) (action : Action) : Prop :=
  action = .readv .failed → ∀ next, step serv_sock s action = some next →
    LeavesAlone serv_sock s next

/-- A read fails only while `mode` holds none of the three words. -/
def NoModeLeft (serv_sock : Nat) (s : System) (action : Action) : Prop :=
  action = .readv .failed → ∀ next, step serv_sock s action = some next →
    branch s.globals.mode.cells = .unknown

section failure

variable {serv_sock : Nat} {s next : System}

theorem failed_eq (taken : step serv_sock s (.readv .failed) = some next) :
    s.point = .scan ∧ next = { s with
      trace := s.trace ++ [.received s.i .failed]
      point := entry (branch s.globals.mode.cells)
      i := if branch s.globals.mode.cells = .unknown then s.i + 1 else s.i } := by
  cases step_moves taken with
  | readv _ point => exact ⟨point, rfl⟩

theorem childStep_of_parent (s : System) (trace : List Event) (i : Nat) :
    childStep { s with trace := trace, i := i } =
      (childStep s).map fun next => { next with trace := trace, i := i } := by
  unfold childStep
  cases point : s.child.point <;> dsimp only
  · cases Channel.read MOD_SIZE s.fdsA with
    | none => rfl
    | some received => simp [modeOf_eq]
  · cases Channel.read Data.SIZE s.fdsA with
    | none => rfl
    | some received =>
        simp only [Option.bind_eq_bind, Option.bind_some]
        split <;> rfl
  · cases Channel.read ID_SIZE s.fdsA with
    | none => rfl
    | some received =>
        simp only [Option.bind_eq_bind, Option.bind_some]
        cases loadReply (s.child.id.fill received.1) s.child.dataArray <;> rfl
  · rfl
  · rfl

/-- While the parent scans, the internal steps are those of the child. -/
theorem scanning_internal {final : System} {trace : List Event} {i : Nat}
    (point : s.point = .scan) {actions : List Action}
    (internal : ∀ action ∈ actions, Internal action)
    (reached : run (step serv_sock) { s with trace := trace, i := i } actions =
      some final) :
    ∃ count alone, run (step serv_sock) s (List.replicate count .child) = some alone ∧
      alone.globals = s.globals ∧ alone.point = .scan ∧ alone.sockets = s.sockets ∧
      final = { alone with trace := trace, i := i } := by
  refine run_invariant (fun final => ∃ count alone,
      run (step serv_sock) s (List.replicate count .child) = some alone ∧
        alone.globals = s.globals ∧ alone.point = .scan ∧ alone.sockets = s.sockets ∧
        final = { alone with trace := trace, i := i }) ?_
    ⟨0, s, rfl, rfl, point, rfl, rfl⟩
    (Guarded.of_forall (fun _ action member => internal action member) _) reached
  intro before action after held isInternal taken
  obtain ⟨count, alone, ran, globals, scans, sockets, rfl⟩ := held
  rcases isInternal with rfl | rfl
  · simp [step, parentStep, scans] at taken
  · simp only [step, childStep_of_parent] at taken
    obtain ⟨moved, childTaken, rfl⟩ := Option.map_eq_some_iff.mp taken
    have frame := childStep_frame childTaken
    refine ⟨count + 1, moved, ?_, ?_, ?_, ?_, rfl⟩
    · rw [List.replicate_succ', run_snoc, ran]
      exact childTaken
    · rw [frame]
      exact globals
    · rw [frame]
      exact scans
    · rw [frame]
      exact sockets

theorem leavesAlone_of_unknown (unknown : branch s.globals.mode.cells = .unknown)
    (taken : step serv_sock s (.readv .failed) = some next) :
    LeavesAlone serv_sock s next := by
  obtain ⟨point, same⟩ := failed_eq taken
  have moved : next = { s with
      trace := s.trace ++ [.received s.i .failed], i := s.i + 1 } := by
    rw [same, unknown, point]
    rfl
  subst moved
  constructor
  · intro actions final internal reached
    obtain ⟨count, alone, ran, globals, _, sockets, rfl⟩ :=
      scanning_internal point internal reached
    refine ⟨by rw [globals], rfl, ?_, count, alone, ran, rfl, rfl, rfl⟩
    rw [sockets]
    exact Finset.erase_subset _ _
  · exact ⟨[], _, by simp, rfl, .inr (.inl point)⟩

theorem length_fdsA_child (taken : childStep s = some next) :
    next.fdsA.length ≤ s.fdsA.length := by
  have lower := childStep_work taken
  have point : next.point = s.point := by rw [childStep_frame taken]
  have small : s.child.point.work ≤ 1 := by
    cases s.child.point <;> simp [ChildPoint.work]
  simp only [System.work, point] at lower
  omega

/-- What the parent writes to the pipe is more than the child alone leaves there. -/
theorem not_untouched (written : next.fdsA = s.fdsA ++ s.globals.mode.cells) :
    ¬ Untouched serv_sock s next := by
  intro untouched
  obtain ⟨count, alone, ran, _, same, _⟩ := untouched.store
  have shorter : alone.fdsA.length ≤ s.fdsA.length := by
    refine run_invariant (fun alone => alone.fdsA.length ≤ s.fdsA.length) ?_
      (Nat.le_refl _) (Guarded.of_forall
        (fun _ action member => List.eq_of_mem_replicate member) s) ran
    intro before action after held isChild taken
    subst isChild
    exact Nat.le_trans (length_fdsA_child taken) held
  have length := s.globals.mode.length_cells
  have size : MOD_SIZE = 5 := rfl
  rw [← same, written, List.length_append] at shorter
  omega

/-- A load of an id without terminator does not get past its `printf`. -/
theorem stuck_loadMode {final : System} (point : s.point = .loadMode)
    (unterminated : s.globals.id.cString? = none) {actions : List Action}
    (internal : ∀ action ∈ actions, Internal action)
    (reached : run (step serv_sock) s actions = some final) :
    final.point = .loadMode := by
  have held := run_invariant
    (fun final => final.point = .loadMode ∧ final.globals.id.cString? = none) ?_
    ⟨point, unterminated⟩
    (Guarded.of_forall (fun _ action member => internal action member) s) reached
  · exact held.1
  · intro before action after held isInternal taken
    rcases isInternal with rfl | rfl
    · simp [step, parentStep, held.1, held.2] at taken
    · rw [childStep_frame taken]
      exact held

theorem not_leavesAlone (known : branch s.globals.mode.cells ≠ .unknown)
    (taken : step serv_sock s (.readv .failed) = some next) :
    ¬ LeavesAlone serv_sock s next := by
  intro leaves
  obtain ⟨_, same⟩ := failed_eq taken
  -- The first call of the parent writes the old mode to the pipe.
  have noWrite : ∀ after, step serv_sock next .parent = some after →
      after.fdsA ≠ s.fdsA ++ s.globals.mode.cells := by
    intro after parentTaken written
    have reached : run (step serv_sock) next [.parent] = some after := by
      simp [parentTaken]
    exact not_untouched written (leaves.untouched [.parent] after
      (by simp [Internal]) reached)
  cases mode : branch s.globals.mode.cells with
  | save =>
      rw [mode] at same
      subst same
      exact noWrite _ rfl rfl
  | load =>
      rw [mode] at same
      cases name : s.globals.id.cString? with
      | none =>
          have point : next.point = .loadMode := by
            rw [same]
            rfl
          have unterminated : next.globals.id.cString? = none := by
            rw [same]
            exact name
          obtain ⟨actions, final, internal, reached, idle⟩ := leaves.returns
          have stuck := stuck_loadMode point unterminated internal reached
          rcases idle with point | point | point <;> simp [stuck] at point
      | some text =>
          subst same
          exact noWrite _ (by simp [step, parentStep, entry, name]; rfl) rfl
  | quit =>
      rw [mode] at same
      subst same
      exact noWrite _ rfl rfl
  | unknown => exact known mode

end failure

/-- In every run the failing reads leave the store alone exactly when each comes
while `mode` holds none of the three words. -/
theorem failures_harmless_iff {serv_sock : Nat} {actions : List Action} :
    Guarded (step serv_sock) (FailureHarmless serv_sock) (System.initial serv_sock)
        actions ↔
      Guarded (step serv_sock) (NoModeLeft serv_sock) (System.initial serv_sock)
        actions := by
  have same : FailureHarmless serv_sock = NoModeLeft serv_sock := by
    funext s action
    apply propext
    constructor
    · intro harmless failed next taken
      by_contra known
      subst failed
      exact not_leavesAlone known taken (harmless rfl next taken)
    · intro unknown failed next taken
      subst failed
      exact leavesAlone_of_unknown (unknown rfl next taken) taken
  rw [same]

/-- Client 8 saves the number 7, and client 9 is found ready. -/
def savedOnce : List Action :=
  connectTwice ++ scanTo {8} ++
    [.readv (.data (saveWord ++ [107#8, 105#8, 109#8, 49#8, 0#8] ++
        [1#8, 7#8, 0#8, 0#8, 0#8])),
      .parent, .parent, .parent, .parent, .child, .child, .skip, .skip] ++
    scanTo {9} ++ [.skip]

/-- When the connection of client 9 is reset, the mode word of client 8 goes to the pipe once
more.  The answer to client 9, next, raises `SIGPIPE`, which the server does not handle. -/
theorem reset_sends_mode_again :
    ∃ s next after, run (step 3) (System.initial 3) savedOnce = some s ∧
      step 3 s (.readv .failed) = some next ∧ step 3 next .parent = some after ∧
      s.fdsA = [] ∧ after.fdsA = saveWord ∧ ¬ FailureHarmless 3 s (.readv .failed) := by
  have shape : (run (step 3) (System.initial 3) savedOnce).any (fun s =>
      (step 3 s (.readv .failed)).any (fun next =>
        (step 3 next .parent).any (fun after =>
          s.fdsA = [] ∧ s.globals.mode.cells = saveWord ∧ after.fdsA = saveWord))) =
      true := by
    decide +kernel
  obtain ⟨s, reached, shape⟩ := (Option.any_eq_true _ _).mp shape
  obtain ⟨next, taken, shape⟩ := (Option.any_eq_true _ _).mp shape
  obtain ⟨after, resumed, shape⟩ := (Option.any_eq_true _ _).mp shape
  obtain ⟨empty, mode, written⟩ := of_decide_eq_true shape
  refine ⟨s, next, after, reached, taken, resumed, empty, written, fun harmless => ?_⟩
  have untouched := (harmless rfl next taken).untouched [.parent] after (by simp [Internal])
    (by rw [run_cons, resumed]; rfl)
  exact not_untouched (by rw [written, empty, mode]; rfl) untouched

end NetworkProgramming.Hw6
