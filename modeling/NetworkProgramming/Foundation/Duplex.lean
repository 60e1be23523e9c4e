import Mathlib.Tactic.Common

/-!
# Connections with two directions

Each direction of a connection carries bytes in order until its writer shuts it
down.  A read waits while nothing is there, returns some of what is there, and
returns nothing once the stream is at its end.
-/

namespace Duplex

variable {β : Type*}

/-- One direction of a connection. -/
structure Direction (β : Type*) where
  /-- What was written and not yet read. -/
  pending : List β
  /-- The writer has shut it down. -/
  shut : Bool
deriving DecidableEq

namespace Direction

def fresh (β : Type*) : Direction β := ⟨[], false⟩

def write (d : Direction β) (bytes : List β) : Direction β :=
  { d with pending := d.pending ++ bytes }

def shutdown (d : Direction β) : Direction β := { d with shut := true }

@[simp] theorem pending_write (d : Direction β) (bytes : List β) :
    (d.write bytes).pending = d.pending ++ bytes := rfl

@[simp] theorem shut_write (d : Direction β) (bytes : List β) :
    (d.write bytes).shut = d.shut := rfl

@[simp] theorem pending_shutdown (d : Direction β) : d.shutdown.pending = d.pending := rfl

@[simp] theorem shut_shutdown (d : Direction β) : d.shutdown.shut = true := rfl

/-- A read of at most `limit` elements that returns `count`; none of them is the end of the
stream. -/
def read (limit count : Nat) (d : Direction β) : Option (List β × Direction β) :=
  if count = 0 then if d.pending.isEmpty ∧ d.shut then some ([], d) else none
  else if count ≤ limit ∧ count ≤ d.pending.length then
    some (d.pending.take count, { d with pending := d.pending.drop count })
  else none

/-- What a read returns. -/
inductive Reads (limit : Nat) (d : Direction β) : Nat → List β → Direction β → Prop where
  | ended (empty : d.pending = []) (shut : d.shut = true) : Reads limit d 0 [] d
  | block {count : Nat} (positive : 0 < count) (small : count ≤ limit)
      (there : count ≤ d.pending.length) :
      Reads limit d count (d.pending.take count)
        { d with pending := d.pending.drop count }

theorem reads_of_read {limit count : Nat} {d rest : Direction β} {block : List β}
    (returned : d.read limit count = some (block, rest)) :
    Reads limit d count block rest := by
  unfold read at returned
  split at returned <;> rename_i zero
  · split at returned <;> rename_i ended
    · cases returned
      subst zero
      exact .ended (by simpa using ended.1) ended.2
    · cases returned
  · split at returned <;> rename_i there
    · cases returned
      exact .block (Nat.pos_of_ne_zero zero) there.1 there.2
    · cases returned

theorem read_isSome {limit : Nat} (positive : 0 < limit) {d : Direction β}
    (ready : d.pending ≠ [] ∨ d.shut = true) :
    ∃ count block rest, count ≤ 1 ∧ d.read limit count = some (block, rest) := by
  cases pending : d.pending with
  | nil =>
      have shut := ready.resolve_left (absurd pending)
      exact ⟨0, [], d, Nat.zero_le 1, by simp [read, pending, shut]⟩
  | cons byte bytes =>
      have small : 1 ≤ limit := positive
      exact ⟨1, [byte], { d with pending := bytes }, Nat.le_refl 1, by
        simp [read, pending, small]⟩

section reads

variable {limit count : Nat} {d rest : Direction β} {block : List β}

theorem Reads.split (reads : Reads limit d count block rest) :
    block ++ rest.pending = d.pending := by
  cases reads with
  | ended empty shut => rfl
  | block positive small there => exact List.take_append_drop _ _

theorem Reads.length (reads : Reads limit d count block rest) : block.length = count := by
  cases reads with
  | ended empty shut => rfl
  | block positive small there => exact List.length_take_of_le there

theorem Reads.shut (reads : Reads limit d count block rest) : rest.shut = d.shut := by
  cases reads with
  | ended empty shut => rfl
  | block positive small there => rfl

theorem Reads.le (reads : Reads limit d count block rest) : count ≤ limit := by
  cases reads with
  | ended empty shut => exact Nat.zero_le _
  | block positive small there => exact small

theorem Reads.ended_of_nil (reads : Reads limit d count block rest) (none : block = []) :
    d.pending = [] ∧ d.shut = true ∧ rest = d := by
  have length := reads.length
  rw [none, List.length_nil] at length
  cases reads with
  | ended empty shut => exact ⟨empty, shut, rfl⟩
  | block positive small there => omega

end reads

end Direction

end Duplex
