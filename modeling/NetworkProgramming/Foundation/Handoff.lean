import NetworkProgramming.Foundation.Transition

/-!
# A slot handed over by two semaphores

One thread puts values into a slot, another takes them out.  Each waits on one
semaphore and posts the other behind its access.  With one permit in both
together the accesses exclude each other, no value is overwritten before it was
taken, and none is taken twice.
-/

namespace Handoff

open Transition

variable {α : Type*}

/-- `sem_wait`: a thread waits while the count is zero. -/
def semWait : Nat → Option Nat
  | 0 => none
  | count + 1 => some count

/-- `sem_post`. -/
def semPost (count : Nat) : Nat := count + 1

/-- A thread before its wait, before its access, and before its post. -/
inductive Turn where
  | outside
  | entered
  | accessed
deriving DecidableEq

/-- A slot that is handed over with two semaphores. -/
structure State (α : Type*) where
  free : Nat
  full : Nat
  slot : α
  producer : Turn
  consumer : Turn
  /-- What was stored and what was taken so far. -/
  stored : List α
  taken : List α

/-- The slot is free, as nothing was stored in it yet. -/
def State.initial (slot : α) : State α := ⟨1, 0, slot, .outside, .outside, [], []⟩

/-- Each side waits for its semaphore, uses the slot and posts the other. -/
inductive Action (α : Type*) where
  | waitFree
  | store (value : α)
  | postFull
  | waitFull
  | take
  | postFree

def step (s : State α) : Action α → Option (State α)
  | .waitFree =>
      match s.producer with
      | .outside => (semWait s.free).map fun free =>
          { s with free := free, producer := .entered }
      | _ => none
  | .store value =>
      match s.producer with
      | .entered => some { s with
          slot := value
          stored := s.stored ++ [value]
          producer := .accessed }
      | _ => none
  | .postFull =>
      match s.producer with
      | .accessed => some { s with full := semPost s.full, producer := .outside }
      | _ => none
  | .waitFull =>
      match s.consumer with
      | .outside => (semWait s.full).map fun full =>
          { s with full := full, consumer := .entered }
      | _ => none
  | .take =>
      match s.consumer with
      | .entered => some { s with
          taken := s.taken ++ [s.slot]
          consumer := .accessed }
      | _ => none
  | .postFree =>
      match s.consumer with
      | .accessed => some { s with free := semPost s.free, consumer := .outside }
      | _ => none

theorem semWait_eq_some {count rest : Nat} :
    semWait count = some rest ↔ count = rest + 1 := by
  cases count <;> simp [semWait, eq_comm]

/-! ## One permit -/

def Turn.permit : Turn → Nat
  | .outside => 0
  | .entered | .accessed => 1

@[simp] theorem Turn.permit_outside : Turn.outside.permit = 0 := rfl

@[simp] theorem Turn.permit_entered : Turn.entered.permit = 1 := rfl

@[simp] theorem Turn.permit_accessed : Turn.accessed.permit = 1 := rfl

/-- The value in the slot that was not taken yet. -/
def State.pending (s : State α) : List α :=
  if s.producer = .accessed ∨ 0 < s.full ∨ s.consumer = .entered then [s.slot] else []

/-- One permit goes round, and nothing is taken that was not stored. -/
structure Exclusive (s : State α) : Prop where
  one : s.free + s.full + s.producer.permit + s.consumer.permit = 1
  kept : s.stored = s.taken ++ s.pending

theorem exclusive_initial (slot : α) : Exclusive (State.initial slot) where
  one := rfl
  kept := by simp [State.initial, State.pending]

theorem exclusive_step {s next : State α} {action : Action α} (held : Exclusive s)
    (moved : step s action = some next) : Exclusive next := by
  have one := held.one
  have kept := held.kept
  cases action with
  | waitFree =>
      simp only [step] at moved
      split at moved <;> rename_i turn
      · obtain ⟨free, waited, rfl⟩ := Option.map_eq_some_iff.mp moved
        have count := semWait_eq_some.mp waited
        simp only [turn] at one
        refine ⟨by simp at one ⊢; omega, ?_⟩
        simpa [State.pending, turn] using kept
      · cases moved
  | store value =>
      simp only [step] at moved
      split at moved <;> rename_i turn
      · cases moved
        simp only [turn] at one
        have alone : s.full = 0 ∧ s.consumer.permit = 0 := by simp at one; omega
        have outside : s.consumer ≠ .entered := by
          intro inside
          simp [inside] at alone
        refine ⟨by simp at one ⊢; omega, ?_⟩
        simp only [State.pending, turn, alone.1, outside] at kept
        simpa [State.pending] using kept
      · cases moved
  | postFull =>
      simp only [step] at moved
      split at moved <;> rename_i turn
      · cases moved
        simp only [turn] at one
        refine ⟨by simp [semPost] at one ⊢; omega, ?_⟩
        simpa [State.pending, turn, semPost] using kept
      · cases moved
  | waitFull =>
      simp only [step] at moved
      split at moved <;> rename_i turn
      · obtain ⟨full, waited, rfl⟩ := Option.map_eq_some_iff.mp moved
        have count := semWait_eq_some.mp waited
        simp only [turn] at one
        refine ⟨by simp at one ⊢; omega, ?_⟩
        have positive : 0 < s.full := by omega
        simpa [State.pending, positive] using kept
      · cases moved
  | take =>
      simp only [step] at moved
      split at moved <;> rename_i turn
      · cases moved
        simp only [turn] at one
        have alone : s.full = 0 ∧ s.producer.permit = 0 := by simp at one; omega
        have outside : s.producer ≠ .accessed := by
          intro inside
          simp [inside] at alone
        refine ⟨by simp at one ⊢; omega, ?_⟩
        simp only [State.pending, turn, or_true, if_true] at kept
        simpa [State.pending, alone.1, outside] using kept
      · cases moved
  | postFree =>
      simp only [step] at moved
      split at moved <;> rename_i turn
      · cases moved
        simp only [turn] at one
        refine ⟨by simp [semPost] at one ⊢; omega, ?_⟩
        simpa [State.pending, turn] using kept
      · cases moved

theorem Exclusive.length_stored {s : State α} (held : Exclusive s) :
    s.stored.length = s.taken.length + s.pending.length := by
  rw [held.kept, List.length_append]

/-- A thread that waits for a permit nobody holds finds it in its semaphore or in the
other one. -/
theorem Exclusive.outside {s : State α} (held : Exclusive s)
    (producer : s.producer = .outside) (consumer : s.consumer = .outside) :
    s.free = 1 ∧ s.full = 0 ∧ s.pending = [] ∨
      s.free = 0 ∧ s.full = 1 ∧ s.pending = [s.slot] := by
  have one := held.one
  simp only [producer, consumer, Turn.permit_outside] at one
  have cases : s.free = 1 ∧ s.full = 0 ∨ s.free = 0 ∧ s.full = 1 := by omega
  rcases cases with ⟨free, full⟩ | ⟨free, full⟩
  · exact .inl ⟨free, full, by simp [State.pending, producer, consumer, full]⟩
  · exact .inr ⟨free, full, by simp [State.pending, full]⟩

end Handoff
