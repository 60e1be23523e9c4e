import Mathlib.Tactic.Common

/-!
# Runs of a transition system

A system is a partial step function on states; `none` says that the action is
not possible in that state.  A run takes the actions of a list in order.  The
rules below reduce a fact about all runs to a fact about one step: invariants,
runs whose steps all meet a permission, and termination of internal actions
through a measure.
-/

namespace Transition

variable {σ α : Type*} {step : σ → α → Option σ}

def run (step : σ → α → Option σ) : σ → List α → Option σ
  | state, [] => some state
  | state, action :: actions =>
      (step state action).bind fun next => run step next actions

/-- Every action of the run is permitted in the state it is taken in. -/
def Guarded (step : σ → α → Option σ) (permitted : σ → α → Prop) :
    σ → List α → Prop
  | _, [] => True
  | state, action :: actions =>
      permitted state action ∧
        ∀ next, step state action = some next →
          Guarded step permitted next actions

@[simp] theorem run_nil (state : σ) : run step state [] = some state := rfl

@[simp] theorem run_cons (state : σ) (action : α) (actions : List α) :
    run step state (action :: actions) =
      (step state action).bind fun next => run step next actions := rfl

theorem run_cons_eq_some {state final : σ} {action : α} {actions : List α} :
    run step state (action :: actions) = some final ↔
      ∃ next, step state action = some next ∧
        run step next actions = some final := by
  simp [Option.bind_eq_some_iff]

theorem run_append {state : σ} {actions later : List α} :
    run step state (actions ++ later) =
      (run step state actions).bind fun middle => run step middle later := by
  induction actions generalizing state with
  | nil => simp
  | cons first actions induction =>
      simp only [List.cons_append, run_cons, induction, Option.bind_assoc]

theorem run_append_of_eq_some {start middle final : σ} {actions later : List α}
    (first : run step start actions = some middle)
    (second : run step middle later = some final) :
    run step start (actions ++ later) = some final := by
  rw [run_append, first, Option.bind_some, second]

theorem run_snoc {state : σ} {action : α} {actions : List α} :
    run step state (actions ++ [action]) =
      (run step state actions).bind fun last => step last action := by
  simp [run_append]

theorem Guarded.of_forall {permitted : σ → α → Prop} {actions : List α}
    (always : ∀ state, ∀ action ∈ actions, permitted state action)
    (state : σ) : Guarded step permitted state actions := by
  induction actions generalizing state with
  | nil => trivial
  | cons action actions induction =>
      refine ⟨always state action (by simp), ?_⟩
      intro next _
      exact induction
        (fun other later member => always other later (by simp [member])) next

theorem Guarded.append {permitted : σ → α → Prop} {start middle : σ} {actions later : List α}
    (first : Guarded step permitted start actions) (reached : run step start actions = some middle)
    (second : Guarded step permitted middle later) :
    Guarded step permitted start (actions ++ later) := by
  induction actions generalizing start with
  | nil =>
      rw [run_nil, Option.some.injEq] at reached
      exact reached ▸ second
  | cons action actions induction =>
      obtain ⟨next, taken, rest⟩ := run_cons_eq_some.mp reached
      refine ⟨first.1, fun other alsoTaken => ?_⟩
      rw [taken, Option.some.injEq] at alsoTaken
      subst alsoTaken
      exact induction (first.2 next taken) rest

/-- The permissions of a run can be checked by running it. -/
instance Guarded.decidable {permitted : σ → α → Prop}
    [∀ state action, Decidable (permitted state action)] :
    (state : σ) → (actions : List α) →
      Decidable (Guarded step permitted state actions)
  | _, [] => isTrue trivial
  | state, action :: actions =>
      match taken : step state action with
      | none =>
          decidable_of_iff (permitted state action)
            ⟨fun permit => ⟨permit, by simp [taken]⟩, And.left⟩
      | some next =>
          have : Decidable (Guarded step permitted next actions) :=
            Guarded.decidable next actions
          decidable_of_iff
            (permitted state action ∧ Guarded step permitted next actions)
            (by simp [Guarded, taken])

theorem Guarded.of_invariant {permitted allowed : σ → α → Prop}
    (Invariant : σ → Prop)
    (preserved : ∀ {state action next}, Invariant state →
      permitted state action → step state action = some next → Invariant next)
    (allows : ∀ {state action}, Invariant state → permitted state action →
      allowed state action)
    {start : σ} {actions : List α} (initially : Invariant start)
    (guarded : Guarded step permitted start actions) :
    Guarded step allowed start actions := by
  induction actions generalizing start with
  | nil => trivial
  | cons action actions induction =>
      obtain ⟨permit, tailGuarded⟩ := guarded
      refine ⟨allows initially permit, ?_⟩
      intro next taken
      exact induction (preserved initially permit taken) (tailGuarded next taken)

/-- An invariant of all permitted steps holds at the end of every run whose
steps are all permitted. -/
theorem run_invariant {permitted : σ → α → Prop} (Invariant : σ → Prop)
    (preserved : ∀ {state action next}, Invariant state →
      permitted state action → step state action = some next → Invariant next)
    {start final : σ} {actions : List α}
    (initially : Invariant start)
    (guarded : Guarded step permitted start actions)
    (reached : run step start actions = some final) :
    Invariant final := by
  induction actions generalizing start with
  | nil =>
      cases reached
      exact initially
  | cons action actions induction =>
      obtain ⟨next, taken, rest⟩ := run_cons_eq_some.mp reached
      obtain ⟨allowed, tailGuarded⟩ := guarded
      exact induction (preserved initially allowed taken)
        (tailGuarded next taken) rest

theorem run_invariant_of_step (Invariant : σ → Prop)
    (preserved : ∀ {state action next}, Invariant state →
      step state action = some next → Invariant next)
    {start final : σ} {actions : List α}
    (initially : Invariant start)
    (reached : run step start actions = some final) :
    Invariant final := by
  have always : Guarded step (fun _ _ => True) start actions :=
    Guarded.of_forall (fun _ _ _ => trivial) start
  refine run_invariant Invariant ?_ initially always reached
  intro state action next held _ taken
  exact preserved held taken

/-- When a fault that is there stays, and a step adds one exactly where it was not
permitted, a run ends without a fault exactly when all its steps were permitted. -/
theorem iff_guarded {permitted : σ → α → Prop} {Invariant Sound : σ → Prop}
    (preserved : ∀ {state action next}, Invariant state →
      step state action = some next → Invariant next)
    (sound : ∀ {state action next}, Invariant state →
      step state action = some next →
        (Sound next ↔ Sound state ∧ permitted state action))
    {start final : σ} {actions : List α} (initially : Invariant start)
    (reached : run step start actions = some final) :
    Sound final ↔ Sound start ∧ Guarded step permitted start actions := by
  induction actions generalizing start with
  | nil =>
      cases reached
      simp [Guarded]
  | cons action actions induction =>
      obtain ⟨next, taken, rest⟩ := run_cons_eq_some.mp reached
      rw [induction (preserved initially taken) rest, sound initially taken]
      simp [Guarded, taken, and_assoc]

/-- When a step from a sound state leads to one exactly where it is permitted, all states of
a run are sound exactly when all its steps are permitted. -/
theorem always_iff_guarded {ambient permitted : σ → α → Prop} {Invariant Sound : σ → Prop}
    (preserved : ∀ {state action next}, Invariant state → ambient state action →
      step state action = some next → Invariant next)
    (sound : ∀ {state action next}, Invariant state → Sound state → ambient state action →
      step state action = some next → (Sound next ↔ permitted state action))
    {start final : σ} {actions : List α} (initially : Invariant start) (soundly : Sound start)
    (guarded : Guarded step ambient start actions)
    (reached : run step start actions = some final) :
    (∀ front state, front <+: actions → run step start front = some state → Sound state) ↔
      Guarded step permitted start actions := by
  induction actions generalizing start with
  | nil =>
      refine ⟨fun _ => trivial, fun _ front state isFront ran => ?_⟩
      rw [List.prefix_nil.mp isFront, run_nil, Option.some.injEq] at ran
      exact ran ▸ soundly
  | cons action actions induction =>
      obtain ⟨next, taken, rest⟩ := run_cons_eq_some.mp reached
      obtain ⟨allowed, tailGuarded⟩ := guarded
      have kept := preserved initially allowed taken
      have exactly := sound initially soundly allowed taken
      have tail (soundNext : Sound next) :=
        induction kept soundNext (tailGuarded next taken) rest
      constructor
      · intro always
        have soundNext : Sound next := always [action] next ⟨actions, rfl⟩ (by
          rw [run_cons, taken, Option.bind_some, run_nil])
        refine ⟨exactly.mp soundNext, fun other alsoTaken => ?_⟩
        rw [taken, Option.some.injEq] at alsoTaken
        subst alsoTaken
        refine (tail soundNext).mp fun front state isFront ran => ?_
        refine always (action :: front) state ?_ ?_
        · exact (List.prefix_cons_inj action).mpr isFront
        · rw [run_cons, taken, Option.bind_some, ran]
      · rintro ⟨isPermitted, later⟩ front state isFront ran
        have soundNext := exactly.mpr isPermitted
        cases front with
        | nil =>
            rw [run_nil, Option.some.injEq] at ran
            exact ran ▸ soundly
        | cons first front =>
            obtain ⟨rfl, inTail⟩ := List.cons_prefix_cons.mp isFront
            rw [run_cons, taken, Option.bind_some] at ran
            exact (tail soundNext).mpr (later next taken) front state inTail ran

/-- Internal actions that lower a measure: a run of them is no longer than the
measure of its first state. -/
theorem length_le_of_measure {internal : α → Prop} {measure : σ → Nat}
    (lowers : ∀ {state action next}, internal action →
      step state action = some next → measure next < measure state)
    {start final : σ} {actions : List α}
    (allInternal : ∀ action ∈ actions, internal action)
    (reached : run step start actions = some final) :
    actions.length + measure final ≤ measure start := by
  induction actions generalizing start with
  | nil =>
      cases reached
      simp
  | cons action actions induction =>
      obtain ⟨next, taken, rest⟩ := run_cons_eq_some.mp reached
      have head := lowers (allInternal action (by simp)) taken
      have tail := induction
        (fun later member => allInternal later (by simp [member])) rest
      simp only [List.length_cons]
      omega

/-- When every step lowers a measure and every unfinished state has a step, a run is no
longer than the measure of its first state and can go on until it is finished. -/
theorem ends_of_measure {measure : σ → Nat} {Invariant Finished : σ → Prop}
    (lowers : ∀ {state action next},
      step state action = some next → measure next < measure state)
    (progress : ∀ {state}, Invariant state → ¬ Finished state →
      ∃ action next, step state action = some next)
    {start final : σ} {actions : List α} (held : Invariant final)
    (reached : run step start actions = some final) :
    actions.length ≤ measure start ∧
      (Finished final ∨ ∃ action next, step final action = some next) := by
  have bound := @length_le_of_measure _ _ step (fun _ => True) measure
    (fun _ taken => lowers taken) _ _ _ (fun _ _ => trivial) reached
  refine ⟨by omega, ?_⟩
  by_cases finished : Finished final
  · exact .inl finished
  · exact .inr (progress held finished)

/-- When the permitted steps from states in which an invariant holds keep it and lower a
measure, a run of them is no longer than the measure of its first state. -/
theorem length_le_of_held {permitted : σ → α → Prop} {measure : σ → Nat}
    {Invariant : σ → Prop}
    (preserved : ∀ {state action next}, Invariant state → permitted state action →
      step state action = some next → Invariant next)
    (lowers : ∀ {state action next}, Invariant state → permitted state action →
      step state action = some next → measure next < measure state)
    {start final : σ} {actions : List α} (initially : Invariant start)
    (guarded : Guarded step permitted start actions)
    (reached : run step start actions = some final) :
    actions.length + measure final ≤ measure start := by
  induction actions generalizing start with
  | nil =>
      cases reached
      simp
  | cons action actions induction =>
      obtain ⟨next, taken, rest⟩ := run_cons_eq_some.mp reached
      obtain ⟨allowed, tailGuarded⟩ := guarded
      have head := lowers initially allowed taken
      have tail := induction (preserved initially allowed taken) (tailGuarded next taken) rest
      simp only [List.length_cons]
      omega

/-- When every unfinished state in which an invariant holds has a step that keeps it and
lowers a measure, such steps lead to a finished state. -/
theorem exists_run_of_held {measure : σ → Nat} {Invariant Finished : σ → Prop}
    (progress : ∀ {state}, Invariant state → ¬ Finished state →
      ∃ action next, step state action = some next ∧ Invariant next ∧
        measure next < measure state)
    {start : σ} (initially : Invariant start) :
    ∃ actions final, run step start actions = some final ∧ Invariant final ∧
      Finished final := by
  induction size : measure start using Nat.strongRecOn generalizing start with
  | ind bound induction =>
      by_cases finished : Finished start
      · exact ⟨[], start, rfl, initially, finished⟩
      · obtain ⟨action, next, taken, held, smaller⟩ := progress initially finished
        obtain ⟨actions, final, rest, finalHeld, done⟩ :=
          induction (measure next) (size ▸ smaller) held rfl
        exact ⟨action :: actions, final, run_cons_eq_some.mpr ⟨next, taken, rest⟩,
          finalHeld, done⟩

/-- When an internal action is possible in every unfinished state, internal
actions alone lead to a finished one. -/
theorem exists_run_of_measure {internal : α → Prop} {measure : σ → Nat}
    {Invariant Finished : σ → Prop}
    (lowers : ∀ {state action next}, internal action →
      step state action = some next → measure next < measure state)
    (progress : ∀ {state}, Invariant state → ¬ Finished state →
      ∃ action next, internal action ∧ step state action = some next ∧
        Invariant next)
    {start : σ} (initially : Invariant start) :
    ∃ actions final, (∀ action ∈ actions, internal action) ∧
      run step start actions = some final ∧ Invariant final ∧
        Finished final := by
  induction size : measure start using Nat.strongRecOn generalizing start with
  | ind bound induction =>
      by_cases finished : Finished start
      · exact ⟨[], start, by simp, rfl, initially, finished⟩
      · obtain ⟨action, next, isInternal, taken, held⟩ :=
          progress initially finished
        have smaller : measure next < bound := size ▸ lowers isInternal taken
        obtain ⟨actions, final, allInternal, rest, finalHeld, done⟩ :=
          induction (measure next) smaller held rfl
        refine ⟨action :: actions, final, ?_,
          run_cons_eq_some.mpr ⟨next, taken, rest⟩, finalHeld, done⟩
        intro other member
        rcases List.mem_cons.mp member with rfl | later
        · exact isInternal
        · exact allInternal other later

/-- A system whose steps another one can keep up with: a run of the first is accompanied
by a run of the second. -/
theorem run_simulates {τ β : Type*} {other : τ → β → Option τ} (Related : σ → τ → Prop)
    (matched : ∀ {state action next image}, Related state image →
      step state action = some next →
        ∃ actions imageNext, run other image actions = some imageNext ∧
          Related next imageNext)
    {start final : σ} {image : τ} {actions : List α} (initially : Related start image)
    (reached : run step start actions = some final) :
    ∃ others imageFinal, run other image others = some imageFinal ∧
      Related final imageFinal := by
  induction actions generalizing start image with
  | nil =>
      cases reached
      exact ⟨[], image, rfl, initially⟩
  | cons action actions induction =>
      obtain ⟨next, taken, rest⟩ := run_cons_eq_some.mp reached
      obtain ⟨first, middle, kept, related⟩ := matched initially taken
      obtain ⟨later, imageFinal, ended, finalRelated⟩ := induction related rest
      exact ⟨first ++ later, imageFinal, run_append_of_eq_some kept ended, finalRelated⟩

/-- When every step is a step of another system behind a view of the states or does not
show there, so is a run. -/
theorem run_shows {τ β : Type*} {other : τ → β → Option τ} {view : σ → τ}
    (shown : ∀ {state action next}, step state action = some next →
      view next = view state ∨ ∃ seen, other (view state) seen = some (view next))
    {start final : σ} {actions : List α} (reached : run step start actions = some final) :
    ∃ others, run other (view start) others = some (view final) := by
  have matched {state : σ} {action : α} {next : σ} {image : τ} (same : image = view state)
      (taken : step state action = some next) :
      ∃ actions imageNext, run other image actions = some imageNext ∧
        imageNext = view next := by
    subst same
    rcases shown taken with silent | ⟨seen, moved⟩
    · exact ⟨[], view state, rfl, silent.symm⟩
    · exact ⟨[seen], view next, by simp [moved], rfl⟩
  obtain ⟨others, _, ran, rfl⟩ :=
    run_simulates (fun state image => image = view state) matched rfl reached
  exact ⟨others, ran⟩

/-! ## What the steps of a run show -/

/-- What `view` says of the steps of a run, one after another. -/
def observed {β : Type*} (step : σ → α → Option σ) (view : σ → α → Option β) :
    σ → List α → List β
  | _, [] => []
  | state, action :: actions =>
      (step state action).elim [] fun next =>
        (view state action).toList ++ observed step view next actions

/-- When no step lowers the rank and each step that is seen raises it over what
it shows, a run shows larger and larger values. -/
theorem observed_pairwise {allowed : α → Prop} {view : σ → α → Option Nat}
    {rank : σ → Nat}
    (kept : ∀ {state action next}, allowed action → step state action = some next →
      rank state ≤ rank next)
    (raised : ∀ {state action next value}, allowed action →
      step state action = some next → view state action = some value →
      rank state ≤ value ∧ value < rank next)
    {start : σ} {actions : List α} (allAllowed : ∀ action ∈ actions, allowed action) :
    (∀ value ∈ observed step view start actions, rank start ≤ value) ∧
      (observed step view start actions).Pairwise (· < ·) := by
  induction actions generalizing start with
  | nil => simp [observed]
  | cons action actions induction =>
      have head := allAllowed action (by simp)
      cases taken : step start action with
      | none => simp [observed, taken]
      | some next =>
          have monotone := kept head taken
          obtain ⟨above, later⟩ := @induction next fun other member =>
            allAllowed other (by simp [member])
          simp only [observed, taken, Option.elim_some]
          cases shown : view start action with
          | none =>
              refine ⟨?_, later⟩
              intro value member
              exact Nat.le_trans monotone (above value member)
          | some value =>
              obtain ⟨lower, upper⟩ := raised head taken shown
              simp only [Option.toList_some, List.singleton_append, List.mem_cons,
                List.pairwise_cons]
              refine ⟨?_, ?_, later⟩
              · intro other member
                rcases member with rfl | member
                · exact lower
                · exact Nat.le_trans monotone (above other member)
              · intro other member
                exact Nat.lt_of_lt_of_le upper (above other member)

end Transition
