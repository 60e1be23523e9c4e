import Mathlib.Algebra.BigOperators.Fin
import Mathlib.Algebra.Order.BigOperators.Group.Finset
import NetworkProgramming.Foundation.Transition

/-!
# Streams that are echoed and collected

Each source is read in blocks of limited size; a block is echoed to its source
and then copied to a pipe that all sources share.  A collector takes bytes out
of the pipe.  Whatever the order of the steps, the echo of a source is the front
of its stream, and what was collected is the front of the blocks of all sources,
which contain the blocks of each source in order.
-/

namespace Tee

open Transition

variable {β : Type*}

/-- What a source is waiting for. -/
inductive Phase where
  | read
  | echo
  | copy
deriving DecidableEq

/-- A stream that is read block by block, echoed and copied. -/
structure Source (β : Type*) where
  /-- The whole stream. -/
  sent : List β
  /-- What was not read of it. -/
  coming : List β
  /-- The last block that was read. -/
  held : List β
  echoed : List β
  phase : Phase

/-- All sources share the pipe to the collector. -/
structure State (β : Type*) where
  sources : List (Source β)
  /-- Which source copied which block, in this order. -/
  blocks : List (Nat × List β)
  pipe : List β
  collected : List β

def State.initial (β : Type*) : State β := ⟨[], [], [], []⟩

/-- A block of a source is read, echoed and copied in three steps. -/
inductive Action (β : Type*) where
  | join (sent : List β)
  | read (index count : Nat)
  | echo (index : Nat)
  | copy (index : Nat)
  | collect (count : Nat)

def step (limit : Nat) (s : State β) : Action β → Option (State β)
  | .join sent => some { s with sources := s.sources ++ [⟨sent, sent, [], [], .read⟩] }
  | .read index count => do
      let source ← s.sources[index]?
      if source.phase = .read ∧ 0 < count ∧ count ≤ limit ∧ count ≤ source.coming.length then
        some { s with sources := s.sources.set index { source with
          coming := source.coming.drop count
          held := source.coming.take count
          phase := .echo } }
      else none
  | .echo index => do
      let source ← s.sources[index]?
      if source.phase = .echo then
        some { s with sources := s.sources.set index { source with
          echoed := source.echoed ++ source.held
          phase := .copy } }
      else none
  | .copy index => do
      let source ← s.sources[index]?
      if source.phase = .copy then
        some { s with
          sources := s.sources.set index { source with held := [], phase := .read }
          blocks := s.blocks ++ [(index, source.held)]
          pipe := s.pipe ++ source.held }
      else none
  | .collect count =>
      if count ≤ s.pipe.length then
        some { s with
          pipe := s.pipe.drop count
          collected := s.collected ++ s.pipe.take count }
      else none

/-! ## Tagged blocks -/

/-- The blocks of all sources. -/
def merged (blocks : List (Nat × List β)) : List β := (blocks.map Prod.snd).flatten

/-- The blocks of one source. -/
def contribution (source : Nat) (blocks : List (Nat × List β)) : List β :=
  merged (blocks.filter fun block => block.1 = source)

@[simp] theorem merged_nil : merged ([] : List (Nat × List β)) = [] := rfl

@[simp] theorem merged_snoc (blocks : List (Nat × List β)) (block : Nat × List β) :
    merged (blocks ++ [block]) = merged blocks ++ block.2 := by
  simp [merged]

@[simp] theorem contribution_nil (source : Nat) :
    contribution source ([] : List (Nat × List β)) = [] := rfl

theorem contribution_snoc (source : Nat) (blocks : List (Nat × List β))
    (block : Nat × List β) :
    contribution source (blocks ++ [block]) =
      contribution source blocks ++ if block.1 = source then block.2 else [] := by
  unfold contribution
  rw [List.filter_append]
  by_cases same : block.1 = source <;> simp [same, merged]

theorem contribution_eq_nil {source : Nat} {blocks : List (Nat × List β)}
    (absent : ∀ block ∈ blocks, block.1 ≠ source) : contribution source blocks = [] := by
  have none : blocks.filter (fun block => block.1 = source) = [] := by
    simpa using absent
  simp [contribution, none]

theorem sum_length_contribution {blocks : List (Nat × List β)} {count : Nat}
    (known : ∀ block ∈ blocks, block.1 < count) :
    ∑ source ∈ Finset.range count, (contribution source blocks).length =
      (merged blocks).length := by
  induction blocks using List.reverseRecOn with
  | nil => simp
  | append_singleton blocks block induction =>
      have inRange : block.1 ∈ Finset.range count :=
        Finset.mem_range.mpr (known block (by simp))
      have before := induction fun other member => known other (by simp [member])
      have added (source : Nat) :
          (contribution source (blocks ++ [block])).length =
            (contribution source blocks).length +
              if block.1 = source then block.2.length else 0 := by
        rw [contribution_snoc]
        split <;> simp
      simp only [added, Finset.sum_add_distrib, before, Finset.sum_ite_eq, inRange, if_true,
        merged_snoc, List.length_append]

/-! ## What is kept -/

def Source.reading (source : Source β) : List β :=
  match source.phase with
  | .echo => source.held
  | .read | .copy => []

def Source.copying (source : Source β) : List β :=
  match source.phase with
  | .copy => source.held
  | .read | .echo => []

/-- Every element of a source is in one place of its way. -/
structure Conserved (limit : Nat) (s : State β) : Prop where
  stream : ∀ source ∈ s.sources,
    source.echoed ++ source.reading ++ source.coming = source.sent
  copied : ∀ index source, s.sources[index]? = some source →
    contribution index s.blocks ++ source.copying = source.echoed
  small : ∀ source ∈ s.sources, source.held.length ≤ limit
  known : ∀ block ∈ s.blocks, block.1 < s.sources.length
  pipe : s.collected ++ s.pipe = merged s.blocks

theorem conserved_initial (limit : Nat) : Conserved limit (State.initial β) := by
  constructor <;> simp [State.initial]

theorem Conserved.set {limit : Nat} {s : State β} (held : Conserved limit s) {index : Nat}
    {new : Source β} (stream : new.echoed ++ new.reading ++ new.coming = new.sent)
    (copied : contribution index s.blocks ++ new.copying = new.echoed)
    (small : new.held.length ≤ limit) :
    Conserved limit { s with sources := s.sources.set index new } := by
  refine ⟨?_, ?_, ?_, by simpa using held.known, held.pipe⟩
  · intro source member
    rcases List.mem_or_eq_of_mem_set member with other | rfl
    · exact held.stream source other
    · exact stream
  · intro other source isSource
    rw [List.getElem?_set] at isSource
    split at isSource <;> rename_i same
    · subst same
      split at isSource
      · cases isSource
        exact copied
      · cases isSource
    · exact held.copied other source isSource
  · intro source member
    rcases List.mem_or_eq_of_mem_set member with other | rfl
    · exact held.small source other
    · exact small

theorem conserved_step {limit : Nat} {s next : State β} {action : Action β}
    (held : Conserved limit s) (taken : step limit s action = some next) :
    Conserved limit next := by
  cases action with
  | join sent =>
      cases taken
      refine ⟨?_, ?_, ?_, ?_, held.pipe⟩
      · intro source member
        rcases List.mem_append.mp member with old | new
        · exact held.stream source old
        · rw [List.mem_singleton.mp new]
          simp [Source.reading]
      · intro index source found
        rcases Nat.lt_trichotomy index s.sources.length with old | new | beyond
        · rw [List.getElem?_append_left old] at found
          exact held.copied index source found
        · subst new
          rw [List.getElem?_concat_length] at found
          cases found
          have absent : contribution s.sources.length s.blocks = [] :=
            contribution_eq_nil fun block member => Nat.ne_of_lt (held.known block member)
          simp [absent, Source.copying]
        · rw [List.getElem?_eq_none (by simp; omega)] at found
          cases found
      · intro source member
        rcases List.mem_append.mp member with old | new
        · exact held.small source old
        · rw [List.mem_singleton.mp new]
          simp
      · intro block member
        have := held.known block member
        simp
        omega
  | read index count =>
      simp only [step, Option.bind_eq_bind, Option.bind_eq_some_iff] at taken
      obtain ⟨source, found, taken⟩ := taken
      split at taken <;> rename_i guard
      · cases taken
        obtain ⟨phase, positive, small, enough⟩ := guard
        have stream := held.stream source (List.mem_of_getElem? found)
        have copied := held.copied index source found
        refine held.set ?_ ?_ (by simp; omega)
        · simpa [Source.reading, phase] using stream
        · simpa [Source.copying, phase] using copied
      · cases taken
  | echo index =>
      simp only [step, Option.bind_eq_bind, Option.bind_eq_some_iff] at taken
      obtain ⟨source, found, taken⟩ := taken
      split at taken <;> rename_i phase
      · cases taken
        have stream := held.stream source (List.mem_of_getElem? found)
        have copied := held.copied index source found
        refine held.set ?_ ?_ (held.small source (List.mem_of_getElem? found))
        · simpa [Source.reading, phase] using stream
        · simpa [Source.copying, phase] using copied
      · cases taken
  | copy index =>
      simp only [step, Option.bind_eq_bind, Option.bind_eq_some_iff] at taken
      obtain ⟨source, found, taken⟩ := taken
      split at taken <;> rename_i phase
      · cases taken
        have stream := held.stream source (List.mem_of_getElem? found)
        have copied := held.copied index source found
        have bound := (List.getElem?_eq_some_iff.mp found).1
        refine ⟨?_, ?_, ?_, ?_, ?_⟩
        · intro other member
          rcases List.mem_or_eq_of_mem_set member with old | rfl
          · exact held.stream other old
          · simpa [Source.reading, phase] using stream
        · intro other image isSource
          rw [List.getElem?_set] at isSource
          rw [contribution_snoc]
          split at isSource <;> rename_i same
          · subst same
            cases isSource
            simpa [Source.copying, phase] using copied
          · rw [if_neg same, List.append_nil]
            exact held.copied other image isSource
        · intro other member
          rcases List.mem_or_eq_of_mem_set member with old | rfl
          · exact held.small other old
          · simp
        · intro entry member
          rw [List.length_set]
          rcases List.mem_append.mp member with old | new
          · exact held.known entry old
          · rw [List.mem_singleton.mp new]
            exact bound
        · rw [merged_snoc, ← held.pipe, List.append_assoc]
      · cases taken
  | collect count =>
      simp only [step] at taken
      split at taken
      · cases taken
        refine ⟨held.stream, held.copied, held.small, held.known, ?_⟩
        rw [← held.pipe, List.append_assoc, List.take_append_drop]
      · cases taken

theorem conserved_run {limit : Nat} {actions : List (Action β)} {s : State β}
    (reached : run (step limit) (State.initial β) actions = some s) : Conserved limit s :=
  run_invariant_of_step (Conserved limit) (fun held taken => conserved_step held taken)
    (conserved_initial limit) reached

section conserved

variable {limit : Nat} {s : State β}

theorem Conserved.echoed_prefix (held : Conserved limit s) {source : Source β}
    (member : source ∈ s.sources) : source.echoed <+: source.sent := by
  rw [← held.stream source member, List.append_assoc]
  exact List.prefix_append _ _

theorem Conserved.collected_prefix (held : Conserved limit s) :
    s.collected <+: merged s.blocks :=
  ⟨s.pipe, held.pipe⟩

theorem Conserved.contribution_prefix (held : Conserved limit s) {index : Nat}
    {source : Source β} (found : s.sources[index]? = some source) :
    contribution index s.blocks <+: source.echoed :=
  ⟨source.copying, held.copied index source found⟩

/-- A source whose stream is at its end has the whole of it back, and in the blocks. -/
theorem Conserved.through (held : Conserved limit s) {index : Nat} {source : Source β}
    (found : s.sources[index]? = some source) (phase : source.phase = .read)
    (ended : source.coming = []) :
    source.echoed = source.sent ∧ contribution index s.blocks = source.sent := by
  have stream := held.stream source (List.mem_of_getElem? found)
  have copied := held.copied index source found
  simp only [Source.reading, phase, ended, List.append_nil] at stream
  simp only [Source.copying, phase, List.append_nil] at copied
  exact ⟨stream, copied.trans stream⟩

theorem Conserved.echoed_le (held : Conserved limit s) :
    (s.sources.map fun source => source.echoed.length).sum ≤
      (merged s.blocks).length + limit * s.sources.length := by
  have each (index : Fin s.sources.length) : s.sources[index].echoed.length ≤
      (contribution index s.blocks).length + limit := by
    have found : s.sources[index.val]? = some s.sources[index] := by simp
    have small := held.small _ (List.mem_of_getElem? found)
    have copied := congrArg List.length (held.copied index _ found)
    have part : s.sources[index].copying.length ≤ s.sources[index].held.length := by
      unfold Source.copying
      split <;> simp
    rw [List.length_append] at copied
    omega
  calc (s.sources.map fun source => source.echoed.length).sum
      = ∑ index : Fin s.sources.length, s.sources[index].echoed.length := by
        rw [← List.sum_ofFn]
        congr 1
        exact (List.ofFn_getElem_eq_map s.sources _).symm
    _ ≤ ∑ index : Fin s.sources.length, ((contribution index s.blocks).length + limit) :=
        Finset.sum_le_sum fun index _ => each index
    _ = (merged s.blocks).length + limit * s.sources.length := by
        rw [Finset.sum_add_distrib, Finset.sum_const, Finset.card_univ, Fintype.card_fin,
          Fin.sum_univ_eq_sum_range fun index => (contribution index s.blocks).length,
          sum_length_contribution held.known, smul_eq_mul, Nat.mul_comm]

end conserved

end Tee
