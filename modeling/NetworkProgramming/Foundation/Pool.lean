import Mathlib.Algebra.BigOperators.Group.List.Basic
import Mathlib.Algebra.Ring.Nat
import Mathlib.Data.List.Nodup
import Mathlib.Data.List.Perm.Basic
import Mathlib.Data.List.ReduceOption

/-!
# A pool of parts

A system of many processes, threads or users holds them in a list, and a step
replaces one of them.  These are the rules for facts about all parts, for what some of
them hold, and for sums over them.
-/

namespace Pool

variable {α β : Type*} {P Q : Nat → α → Prop} {items : List α} {index : Nat} {old new : α}

/-- Every part, with its index. -/
def Each (P : Nat → α → Prop) (items : List α) : Prop :=
  ∀ index item, items[index]? = some item → P index item

theorem Each.nil : Each P [] := by
  intro index item found
  simp at found

theorem Each.mono (held : Each P items) (weaker : ∀ index item, P index item → Q index item) :
    Each Q items := fun index item found => weaker index item (held index item found)

theorem Each.set (held : Each P items) (moved : P index new) :
    Each P (items.set index new) := by
  intro other item found
  by_cases same : index = other
  · subst same
    have bound : index < items.length := by
      simpa using (List.getElem?_eq_some_iff.mp found).1
    rw [List.getElem?_set_self bound, Option.some.injEq] at found
    subst found
    exact moved
  · rw [List.getElem?_set_ne same] at found
    exact held other item found

theorem Each.snoc (held : Each P items) (added : P items.length new) :
    Each P (items ++ [new]) := by
  intro other item found
  rw [List.getElem?_append] at found
  split at found
  · exact held other item found
  · rename_i behind
    obtain ⟨bound, rfl⟩ := List.getElem?_eq_some_iff.mp found
    have last : other = items.length := by
      simp only [List.length_singleton] at bound
      omega
    subst last
    simpa using added

theorem exists_split (found : items[index]? = some old) :
    ∃ front behind, items = front ++ old :: behind ∧
      ∀ new, items.set index new = front ++ new :: behind := by
  obtain ⟨bound, rfl⟩ := List.getElem?_eq_some_iff.mp found
  refine ⟨items.take index, items.drop (index + 1), ?_, fun new => ?_⟩
  · rw [List.getElem_cons_drop, List.take_append_drop]
  · rw [List.set_eq_take_append_cons_drop, if_pos bound]

theorem map_set_of_same (found : items[index]? = some old) {view : α → β}
    (same : view new = view old) : (items.set index new).map view = items.map view := by
  obtain ⟨bound, rfl⟩ := List.getElem?_eq_some_iff.mp found
  have inside : index < (items.map view).length := by simpa using bound
  have kept : (items.map view)[index] = view items[index] := List.getElem_map _
  rw [List.map_set, same, ← kept, List.set_getElem_self]

theorem findIdx?_view [DecidableEq β] {view : α → β} (distinct : (items.map view).Nodup)
    (found : items[index]? = some old) :
    items.findIdx? (fun item => view item = view old) = some index := by
  obtain ⟨bound, rfl⟩ := List.getElem?_eq_some_iff.mp found
  refine List.findIdx?_eq_some_iff_getElem.mpr ⟨bound, by simp, ?_⟩
  intro earlier before isSame
  have inside : index < (items.map view).length := by simpa using bound
  have earlierInside : earlier < (items.map view).length := by omega
  have same : (items.map view)[earlier] = (items.map view)[index] := by simpa using isSame
  have equal := distinct.getElem_inj_iff.mp same
  omega

theorem view_ne {view : α → β} {other : Nat} {item : α} (distinct : (items.map view).Nodup)
    (found : items[index]? = some old) (also : items[other]? = some item)
    (different : index ≠ other) : view item ≠ view old := by
  obtain ⟨bound, rfl⟩ := List.getElem?_eq_some_iff.mp found
  obtain ⟨inside, rfl⟩ := List.getElem?_eq_some_iff.mp also
  intro same
  have first : index < (items.map view).length := by simpa using bound
  have second : other < (items.map view).length := by simpa using inside
  have equal : (items.map view)[index] = (items.map view)[other] := by simpa using same.symm
  exact different (distinct.getElem_inj_iff.mp equal)

/-- A view of the parts with their indices, when one of them moves and the view of the
others stays. -/
theorem mapIdx_set {view moved : Nat → α → β} (bound : index < items.length)
    (others : ∀ other item, other ≠ index → moved other item = view other item) :
    (items.set index new).mapIdx moved = (items.mapIdx view).set index (moved index new) := by
  apply List.ext_getElem?
  intro other
  rw [List.getElem?_mapIdx]
  by_cases same : index = other
  · subst same
    rw [List.getElem?_set_self bound, List.getElem?_set_self (by simpa using bound)]
    rfl
  · rw [List.getElem?_set_ne same, List.getElem?_set_ne same, List.getElem?_mapIdx]
    cases items[other]? with
    | none => rfl
    | some item => rw [Option.map_some, Option.map_some, others other item (Ne.symm same)]

/-! ## What some of the parts hold -/

/-- What those parts hold that hold something, by the order of the parts. -/
def held (view : Nat → α → Option β) (items : List α) : List β :=
  (items.mapIdx view).reduceOption

section held

variable {view moved : Nat → α → Option β}

@[simp] theorem held_nil : held view [] = [] := rfl

theorem held_snoc (items : List α) (new : α) :
    held view (items ++ [new]) = held view items ++ (view items.length new).toList := by
  rw [held, List.mapIdx_append, List.reduceOption_append]
  cases shown : view items.length new <;> simp [held, List.mapIdx_cons, shown]

theorem map_held {γ : Type*} (f : β → γ) :
    (held view items).map f = held (fun index item => (view index item).map f) items := by
  have same : (items.mapIdx view).map (Option.map f) =
      items.mapIdx fun index item => (view index item).map f := by
    apply List.ext_getElem?
    intro index
    rw [List.getElem?_map, List.getElem?_mapIdx, List.getElem?_mapIdx, Option.map_map]
    rfl
  rw [held, held, ← List.reduceOption_map, same]

theorem mem_held {held : β} :
    held ∈ Pool.held view items ↔
      ∃ index item, items[index]? = some item ∧ view index item = some held := by
  rw [Pool.held, List.reduceOption_mem_iff, List.mem_iff_getElem?]
  simp [List.getElem?_mapIdx, Option.map_eq_some_iff]

/-- When one part moves, its place among those that hold something stays. -/
theorem held_set (found : items[index]? = some old)
    (others : ∀ other item, other ≠ index → moved other item = view other item) (new : α) :
    ∃ front behind, held view items = front ++ (view index old).toList ++ behind ∧
      held moved (items.set index new) = front ++ (moved index new).toList ++ behind := by
  have bound := (List.getElem?_eq_some_iff.mp found).1
  have place : (items.mapIdx view)[index]? = some (view index old) := by
    rw [List.getElem?_mapIdx, found, Option.map_some]
  obtain ⟨front, behind, split, replaced⟩ := exists_split place
  refine ⟨front.reduceOption, behind.reduceOption, ?_, ?_⟩
  · rw [held, split, List.reduceOption_append]
    cases view index old <;> simp
  · rw [held, mapIdx_set bound others, replaced, List.reduceOption_append]
    cases moved index new <;> simp

theorem held_set_of_same (found : items[index]? = some old)
    (others : ∀ other item, other ≠ index → moved other item = view other item)
    (same : moved index new = view index old) :
    held moved (items.set index new) = held view items := by
  obtain ⟨front, behind, before, after⟩ := held_set found others new
  rw [before, after, same]

theorem held_set_perm (found : items[index]? = some old)
    (others : ∀ other item, other ≠ index → moved other item = view other item) (new : α) :
    (held view items ++ (moved index new).toList).Perm
      (held moved (items.set index new) ++ (view index old).toList) := by
  obtain ⟨front, behind, before, after⟩ := held_set found others new
  rw [before, after, List.append_assoc, List.append_assoc, List.append_assoc,
    List.append_assoc]
  refine List.Perm.append_left front ?_
  refine List.perm_append_comm.trans ?_
  rw [List.append_assoc]
  exact List.perm_append_comm_assoc _ _ _

theorem held_of_only (found : items[index]? = some old)
    (others : ∀ other item, items[other]? = some item → other ≠ index →
      view other item = none) :
    held view items = (view index old).toList := by
  let without (other : Nat) (item : α) : Option β :=
    if other = index then none else view other item
  obtain ⟨front, behind, before, after⟩ := @held_set _ _ _ _ _ view without found
    (fun other item different => if_neg different) old
  obtain ⟨bound, rfl⟩ := List.getElem?_eq_some_iff.mp found
  have nothing : held without items = [] := by
    refine List.eq_nil_iff_forall_not_mem.mpr fun held member => ?_
    obtain ⟨other, item, isItem, shown⟩ := mem_held.mp member
    by_cases same : other = index
    · simp [without, same] at shown
    · simp [without, same, others other item isItem same] at shown
  rw [List.set_getElem_self, nothing] at after
  obtain ⟨rest, rfl⟩ := List.append_eq_nil_iff.mp after.symm
  obtain ⟨rfl, _⟩ := List.append_eq_nil_iff.mp rest
  rw [before, List.nil_append, List.append_nil]

end held

theorem sum_map_set (found : items[index]? = some old) (size : α → Nat) :
    ((items.set index new).map size).sum + size old = (items.map size).sum + size new := by
  obtain ⟨bound, rfl⟩ := List.getElem?_eq_some_iff.mp found
  have before := ((List.getElem_cons_eraseIdx_perm bound).map size).sum_eq
  have after := ((List.set_perm_cons_eraseIdx bound new).map size).sum_eq
  simp only [List.map_cons, List.sum_cons] at before after
  omega

end Pool
