import NetworkProgramming.Foundation.Transition

/-!
# Zombies of `hw5_server`

`SIGCHLD` does not queue: an exit while it is pending adds no second signal.
Each delivery runs `read_childproc`, which calls `waitpid` once.  So of the
zombies one is due to be removed for the pending signal and one for a handler
that has not called `waitpid` yet, and every exit that found the signal pending
leaves one behind for good.
-/

namespace NetworkProgramming.Hw5.Reaping

open Transition

/-- Where `read_childproc` is, when it runs. -/
inductive HandlerPoint where
  | idle
  | waitpid
  /-- `printf` of what `waitpid` returned: a process id, or that no child has
  exited. -/
  | printf (pid : Option Nat)
deriving DecidableEq

/-- The children of the server as its signal handler finds them. -/
structure System where
  /-- The workers that have not exited. -/
  running : List Nat
  zombies : List Nat
  /-- `SIGCHLD` is pending. -/
  pending : Bool
  handler : HandlerPoint
  /-- What `read_childproc` has printed. -/
  removed : List (Option Nat)

def System.initial : System where
  running := []
  zombies := []
  pending := false
  handler := .idle
  removed := []

/-- A child exits, or the parent forks or goes on in its handler. -/
inductive Action where
  /-- The main loop accepts and forks; the process id is not in use. -/
  | fork (pid : Nat)
  | exit (pid : Nat)
  | deliver
  /-- `waitpid(-1, &status, WNOHANG)`: any zombie, or none when there is none. -/
  | waitpid (pid : Option Nat)
  | printf

/-- What `waitpid` can return. -/
def Reapable (zombies : List Nat) : Option Nat → Prop
  | none => zombies = []
  | some pid => pid ∈ zombies

instance (zombies : List Nat) : (pid : Option Nat) → Decidable (Reapable zombies pid)
  | none => inferInstanceAs (Decidable (zombies = []))
  | some pid => inferInstanceAs (Decidable (pid ∈ zombies))

def reap (zombies : List Nat) : Option Nat → List Nat
  | none => zombies
  | some pid => zombies.erase pid

def step (s : System) : Action → Option System
  | .fork pid =>
      if s.handler = .idle ∧ pid ∉ s.running ∧ pid ∉ s.zombies then
        some { s with running := s.running ++ [pid] }
      else none
  | .exit pid =>
      if pid ∈ s.running then
        some { s with
          running := s.running.erase pid
          zombies := s.zombies ++ [pid]
          pending := true }
      else none
  | .deliver =>
      if s.pending = true ∧ s.handler = .idle then
        some { s with pending := false, handler := .waitpid }
      else none
  | .waitpid pid =>
      if s.handler = .waitpid ∧ Reapable s.zombies pid then
        some { s with zombies := reap s.zombies pid, handler := .printf pid }
      else none
  | .printf =>
      match s.handler with
      | .printf pid => some { s with
          handler := .idle
          removed := s.removed ++ [pid] }
      | _ => none

/-- No signal is pending and the handler does not run. -/
def System.Quiet (s : System) : Prop :=
  s.pending = false ∧ s.handler = .idle

/-- An exit gets a signal of its own when none is pending. -/
def Signalled (s : System) : Action → Prop
  | .exit _ => s.pending = false
  | _ => True

/-! ## The zombies that nobody waits for -/

/-- The calls of `waitpid` that are still to come. -/
def System.due (s : System) : Nat :=
  s.pending.toNat + if s.handler = .waitpid then 1 else 0

/-- Every call to come has its zombie. -/
def Due (s : System) : Prop := s.due ≤ s.zombies.length

/-- There are no more zombies than calls to come. -/
def Balanced (s : System) : Prop := s.zombies.length = s.due

section step

variable {s next : System}

theorem length_reap {zombies : List Nat} {pid : Option Nat}
    (reapable : Reapable zombies pid) :
    (reap zombies pid).length = zombies.length - 1 := by
  cases pid with
  | none =>
      obtain rfl : zombies = [] := reapable
      rfl
  | some pid => exact List.length_erase_of_mem reapable

/-- A step keeps the difference between the zombies and the calls to come,
except for an exit while the signal is pending. -/
theorem difference_step {action : Action} (held : Due s)
    (taken : step s action = some next) :
    (Signalled s action ∧ next.zombies.length + s.due = s.zombies.length + next.due) ∨
      (¬ Signalled s action ∧
        next.zombies.length + s.due = s.zombies.length + next.due + 1) := by
  cases action with
  | fork pid =>
      simp only [step] at taken
      split at taken
      · cases taken
        exact .inl ⟨trivial, rfl⟩
      · cases taken
  | exit pid =>
      simp only [step] at taken
      split at taken
      · cases taken
        cases pending : s.pending with
        | false =>
            refine .inl ⟨pending, ?_⟩
            simp [System.due, pending]
            omega
        | true =>
            refine .inr ⟨by simp [Signalled, pending], ?_⟩
            simp [System.due, pending]
            omega
      · cases taken
  | deliver =>
      simp only [step] at taken
      split at taken <;> rename_i delivers
      · cases taken
        refine .inl ⟨trivial, ?_⟩
        simp [System.due, delivers.1, delivers.2]
      · cases taken
  | waitpid pid =>
      simp only [step] at taken
      split at taken <;> rename_i waits
      · cases taken
        refine .inl ⟨trivial, ?_⟩
        unfold Due at held
        simp only [System.due, waits.1, if_true] at held
        simp only [System.due, waits.1, if_true, length_reap waits.2, reduceCtorEq,
          if_false]
        omega
      · cases taken
  | printf =>
      simp only [step] at taken
      split at taken <;> rename_i prints
      · cases taken
        refine .inl ⟨trivial, ?_⟩
        simp [System.due, prints]
      · cases taken

theorem due_step {action : Action} (held : Due s)
    (taken : step s action = some next) : Due next := by
  have difference := difference_step held taken
  unfold Due at held ⊢
  omega

theorem balanced_step {action : Action} (held : Due s)
    (taken : step s action = some next) :
    Balanced next ↔ Balanced s ∧ Signalled s action := by
  have difference := difference_step held taken
  unfold Due at held
  unfold Balanced
  rcases difference with ⟨signalled, same⟩ | ⟨lost, more⟩
  · simp only [signalled, and_true]
    omega
  · simp only [lost, and_false, iff_false]
    omega

end step

/-- In every state without pending signal and running handler no worker is left
unreaped exactly when no worker exited while the signal was pending. -/
theorem reaped_iff_signalled {actions : List Action} {s : System}
    (reached : run step System.initial actions = some s) (quiet : s.Quiet) :
    s.zombies = [] ↔ Guarded step Signalled System.initial actions := by
  have counted := @iff_guarded _ _ step Signalled Due Balanced due_step balanced_step
    _ _ _ (Nat.le_refl _) reached
  have start : Balanced System.initial := rfl
  have nothingDue : s.due = 0 := by simp [System.due, quiet.1, quiet.2]
  have balanced : Balanced s ↔ s.zombies = [] := by
    rw [Balanced, nothingDue, List.length_eq_zero_iff]
  rw [← balanced, counted]
  simp [start]

instance (s : System) : (action : Action) → Decidable (Signalled s action)
  | .exit _ => inferInstanceAs (Decidable (s.pending = false))
  | .fork _ | .deliver | .waitpid _ | .printf => isTrue trivial

/-- The second worker exits behind the delivery for the first. -/
def oneByOne : List Action :=
  [.fork 11, .fork 12, .exit 11, .deliver, .exit 12, .waitpid (some 12), .printf,
    .deliver, .waitpid (some 11), .printf]

theorem reaped_iff_signalled_oneByOne :
    ∃ s, run step System.initial oneByOne = some s ∧ s.Quiet ∧ s.zombies = [] := by
  have shape : (run step System.initial oneByOne).any (fun s =>
      s.pending = false ∧ s.handler = .idle) = true := by
    decide
  obtain ⟨s, reached, shaped⟩ := (Option.any_eq_true _ _).mp shape
  have quiet : s.pending = false ∧ s.handler = .idle := of_decide_eq_true shaped
  exact ⟨s, reached, quiet, (reaped_iff_signalled reached quiet).mpr (by decide)⟩

/-- Both workers exit before the delivery. -/
def together : List Action :=
  [.fork 11, .fork 12, .exit 11, .exit 12, .deliver, .waitpid (some 11), .printf]

theorem together_leaves_zombie :
    ∃ s, run step System.initial together = some s ∧ s.Quiet ∧ s.zombies = [12] := by
  have shape : (run step System.initial together).any (fun s =>
      (s.pending = false ∧ s.handler = .idle) ∧ s.zombies = [12]) = true := by
    decide
  obtain ⟨s, reached, shaped⟩ := (Option.any_eq_true _ _).mp shape
  have quiet : (s.pending = false ∧ s.handler = .idle) ∧ s.zombies = [12] :=
    of_decide_eq_true shaped
  exact ⟨s, reached, quiet.1, quiet.2⟩

end NetworkProgramming.Hw5.Reaping
