import Mathlib.Data.List.Basic

/-!
# Messages in a stream

Messages that are written one after another to a stream are read from it in blocks that
know nothing of them.  A block ends between two messages, or it was cut inside one; blocks
of at most `limit` elements that take all there is cut one exactly when some messages in a
row go beyond the limit and none of them ends at it.
-/

namespace Frames

variable {β : Type*} {messages : List (List β)} {limit position : Nat}

/-- Blocks in a row, each with the position at which it starts. -/
def placed (start : Nat) : List (List β) → List (Nat × List β)
  | [] => []
  | block :: blocks => (start, block) :: placed (start + block.length) blocks

theorem placed_concat {start : Nat} {blocks : List (List β)} {block : List β} :
    placed start (blocks ++ [block]) =
      placed start blocks ++ [(start + blocks.flatten.length, block)] := by
  induction blocks generalizing start with
  | nil => rfl
  | cons first blocks induction =>
      simp only [List.cons_append, placed, induction, List.flatten_cons, List.length_append,
        Nat.add_assoc]

theorem map_snd_placed (start : Nat) (blocks : List (List β)) :
    (placed start blocks).map Prod.snd = blocks := by
  induction blocks generalizing start with
  | nil => rfl
  | cons first blocks induction => rw [placed, List.map_cons, induction]

/-- Messages in a row go beyond the limit, and none of them ends at it. -/
def Crosses (limit : Nat) (messages : List (List β)) : Prop :=
  ∃ front current last behind, messages = front ++ current ++ last :: behind ∧
    current.flatten.length < limit ∧ limit < current.flatten.length + last.length

/-- The first messages that cross the limit; those in front of them fit in a block. -/
theorem Crosses.first (crosses : Crosses limit messages) (positive : 0 < limit) :
    ∃ front current last behind, messages = front ++ current ++ last :: behind ∧
      (∀ message ∈ front, message.length ≤ limit) ∧
        current.flatten.length < limit ∧
          limit < current.flatten.length + last.length := by
  obtain ⟨front, current, last, behind, rfl, before, beyond⟩ := crosses
  induction front with
  | nil => exact ⟨[], current, last, behind, rfl, by simp, before, beyond⟩
  | cons first front induction =>
      by_cases fits : first.length ≤ limit
      · obtain ⟨earlier, others, final, later, split, short, small, large⟩ := induction
        refine ⟨first :: earlier, others, final, later, ?_, ?_, small, large⟩
        · rw [List.cons_append, List.cons_append, split, List.cons_append, List.cons_append]
        · intro message member
          rcases List.mem_cons.mp member with rfl | member
          · exact fits
          · exact short message member
      · refine ⟨[], [], first, front ++ current ++ last :: behind, rfl, by simp, ?_, ?_⟩
        · simpa using positive
        · simpa using fits

end Frames
