import Mathlib.Algebra.Order.BigOperators.Group.List
import Mathlib.Algebra.Order.Group.Nat

/-!
# Byte channels

A channel holds the bytes written and not yet read, oldest first.  A pipe read
waits while the channel is empty and otherwise returns what is there, up to
the number asked for.  A stream that delivers every requested byte is read by
`readAll`, one that is cut anywhere and ends by `readCut`.
-/

namespace Channel

variable {β : Type*}

/-- Read at most `count` elements; an empty channel makes the reader wait. -/
def read (count : Nat) : List β → Option (List β × List β)
  | [] => none
  | pending@(_ :: _) => some (pending.take count, pending.drop count)

/-- Read exactly `count` elements; the reader waits until they are there. -/
def readAll (count : Nat) (pending : List β) : Option (List β × List β) :=
  if count ≤ pending.length then some (pending.take count, pending.drop count)
  else none

theorem read_eq_some {count : Nat} {pending taken rest : List β} :
    read count pending = some (taken, rest) ↔
      pending ≠ [] ∧ taken = pending.take count ∧
        rest = pending.drop count := by
  cases pending with
  | nil => simp [read]
  | cons head tail => simp [read, eq_comm]

theorem read_message {count : Nat} {message rest : List β}
    (length : message.length = count) (positive : 0 < count) :
    read count (message ++ rest) = some (message, rest) := by
  refine read_eq_some.mpr ⟨?_, ?_, ?_⟩
  · apply List.ne_nil_of_length_pos
    rw [List.length_append]
    omega
  · simp [← length]
  · simp [← length]

/-- A read that returns all that it was asked for when that is there. -/
def Delivers (read : Nat → List β → Option (List β × List β)) : Prop :=
  ∀ {count : Nat} {message rest : List β}, message.length = count → 0 < count →
    read count (message ++ rest) = some (message, rest)

theorem delivers_read : Delivers (@read β) := read_message

theorem length_rest_lt {count : Nat} {pending taken rest : List β}
    (positive : 0 < count)
    (result : read count pending = some (taken, rest)) :
    rest.length < pending.length := by
  obtain ⟨nonempty, _, rfl⟩ := read_eq_some.mp result
  have := List.length_pos_iff.mpr nonempty
  simp
  omega

theorem readAll_message {count : Nat} {message rest : List β}
    (length : message.length = count) :
    readAll count (message ++ rest) = some (message, rest) := by
  simp [readAll, ← length]

theorem delivers_readAll : Delivers (@readAll β) :=
  fun length _ => readAll_message length

/-! ## A stream cut into pieces -/

/-- How many elements the read with this number returns while that many are
left: what it asks for, or the front of that up to the next cut. -/
def cutSize (cuts : Nat → Nat) (count turn : Nat) : Nat :=
  min count (max 1 (cuts turn))

/-- A read from a peer that closes behind its last element.  The state counts
the reads; after the end every read returns nothing. -/
def readCut (cuts : Nat → Nat) (count : Nat) (stream : List β × Nat) :
    Option (List β × List β × Nat) :=
  let size := cutSize cuts count stream.2
  some (stream.1.take size, stream.1.drop size, stream.2 + 1)

/-- Where the read with the given index starts, among reads of `count`
elements that follow each other. -/
def cutOffset (cuts : Nat → Nat) (count turn : Nat) : Nat → Nat
  | 0 => 0
  | index + 1 => cutOffset cuts count turn index + cutSize cuts count (turn + index)

theorem cutSize_le (cuts : Nat → Nat) (count turn : Nat) :
    cutSize cuts count turn ≤ count :=
  Nat.min_le_left _ _

theorem cutSize_one (cuts : Nat → Nat) (turn : Nat) : cutSize cuts 1 turn = 1 :=
  Nat.min_eq_left (Nat.le_max_left _ _)

theorem cutSize_eq_iff {cuts : Nat → Nat} {count turn : Nat} (several : 1 < count) :
    cutSize cuts count turn = count ↔ count ≤ cuts turn := by
  unfold cutSize
  omega

theorem cutOffset_full {cuts : Nat → Nat} {count turn index : Nat}
    (full : ∀ earlier < index, cutSize cuts count (turn + earlier) = count) :
    cutOffset cuts count turn index = index * count := by
  induction index with
  | zero => simp [cutOffset]
  | succ index induction =>
      rw [cutOffset, induction (fun earlier bound => full earlier (by omega)),
        full index (by omega), Nat.succ_mul]

/-- A stream that has its own cuts; many of them share one reader. -/
structure CutStream (β : Type*) where
  cuts : Nat → Nat
  content : List β
  /-- How often it was read. -/
  turn : Nat

namespace CutStream

def of (cuts : Nat → Nat) (stream : List β × Nat) : CutStream β :=
  ⟨cuts, stream.1, stream.2⟩

def read (count : Nat) (stream : CutStream β) : Option (List β × CutStream β) :=
  (readCut stream.cuts count (stream.content, stream.turn)).map
    (Prod.map id (of stream.cuts))

theorem read_of (cuts : Nat → Nat) (count : Nat) (stream : List β × Nat) :
    read count (of cuts stream) = (readCut cuts count stream).map (Prod.map id (of cuts)) :=
  rfl

end CutStream

/-! ## Blocks of a stream -/

section blocks

variable {size : Nat} {blocks : List (List β)}

theorem length_flatten_le (small : ∀ block ∈ blocks, block.length ≤ size) :
    blocks.flatten.length ≤ blocks.length * size := by
  have bound := List.sum_le_card_nsmul (blocks.map List.length) size (by
    simpa using small)
  simpa [List.length_flatten] using bound

theorem length_flatten_full (full : ∀ block ∈ blocks, block.length = size) :
    blocks.flatten.length = blocks.length * size := by
  have total := List.sum_eq_card_nsmul (blocks.map List.length) size (by
    simpa using full)
  simpa [List.length_flatten] using total

theorem full_of_length_flatten (small : ∀ block ∈ blocks, block.length ≤ size)
    (total : blocks.flatten.length = blocks.length * size) :
    ∀ block ∈ blocks, block.length = size := by
  induction blocks with
  | nil => simp
  | cons block blocks induction =>
      have head := small block (by simp)
      have smallTail : ∀ later ∈ blocks, later.length ≤ size :=
        fun later member => small later (by simp [member])
      have tail := length_flatten_le smallTail
      simp only [List.flatten_cons, List.length_append, List.length_cons,
        Nat.succ_mul] at total
      intro other member
      rcases List.mem_cons.mp member with rfl | later
      · omega
      · exact induction smallTail (by omega) other later

theorem full_blocks_eq {others : List (List β)}
    (full : ∀ block ∈ blocks, block.length = size)
    (otherFull : ∀ block ∈ others, block.length = size)
    (sameLength : blocks.length = others.length)
    (same : blocks.flatten = others.flatten) : blocks = others := by
  induction blocks generalizing others with
  | nil =>
      cases others with
      | nil => rfl
      | cons other others => simp at sameLength
  | cons block blocks induction =>
      cases others with
      | nil => simp at sameLength
      | cons other others =>
          have length : block.length = other.length :=
            (full block (by simp)).trans (otherFull other (by simp)).symm
          obtain ⟨rfl, rest⟩ := List.append_inj (by simpa using same) length
          rw [induction (fun later member => full later (by simp [member]))
            (fun later member => otherFull later (by simp [member]))
            (by simpa using sameLength) rest]

end blocks

end Channel
