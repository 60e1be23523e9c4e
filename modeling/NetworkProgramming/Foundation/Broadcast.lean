import Mathlib.Data.List.Induction
import Mathlib.Data.List.Nodup

/-!
# Broadcast to changing members

What a shared list of members is for: whoever joins hears every message sent
until it leaves.  A history says who joined, who left and what was sent, in
order; `heard` is what it makes one member hear.  Two members hear the messages
they have in common in one order.
-/

namespace Broadcast

variable {α μ : Type*}

/-- What happens to the list of members, or is sent to all of them. -/
inductive Event (α μ : Type*) where
  | join (member : α)
  | leave (member : α)
  | send (message : μ)

section members

variable [DecidableEq α]

/-- The members after one event, in the order in which they joined. -/
def Event.members (here : List α) : Event α μ → List α
  | .join member => here ++ [member]
  | .leave member => here.erase member
  | .send _ => here

def members (history : List (Event α μ)) : List α :=
  history.foldl Event.members []

@[simp] theorem members_nil : members ([] : List (Event α μ)) = [] := rfl

@[simp] theorem members_snoc (history : List (Event α μ)) (event : Event α μ) :
    members (history ++ [event]) = event.members (members history) := by
  simp [members]

/-- What `client` hears of a history that starts with these members. -/
def heardFrom (client : α) : List α → List (Event α μ) → List μ
  | _, [] => []
  | here, .send message :: history =>
      (if client ∈ here then [message] else []) ++ heardFrom client here history
  | here, event :: history => heardFrom client (event.members here) history

def heard (client : α) (history : List (Event α μ)) : List μ :=
  heardFrom client [] history

end members

def sends (history : List (Event α μ)) : List μ :=
  history.filterMap fun
    | .send message => some message
    | .join _ | .leave _ => none

@[simp] theorem sends_nil : sends ([] : List (Event α μ)) = [] := rfl

@[simp] theorem sends_join (history : List (Event α μ)) (member : α) :
    sends (history ++ [.join member]) = sends history := by
  simp [sends]

@[simp] theorem sends_leave (history : List (Event α μ)) (member : α) :
    sends (history ++ [.leave member]) = sends history := by
  simp [sends]

@[simp] theorem sends_send (history : List (Event α μ)) (message : μ) :
    sends (history ++ [.send message]) = sends history ++ [message] := by
  simp [sends]

section heard

variable [DecidableEq α] {client : α} {history : List (Event α μ)}

theorem heardFrom_append (here : List α) (first second : List (Event α μ)) :
    heardFrom client here (first ++ second) =
      heardFrom client here first ++
        heardFrom client (first.foldl Event.members here) second := by
  induction first generalizing here with
  | nil => rfl
  | cons event first induction =>
      cases event with
      | join member => exact induction _
      | leave member => exact induction _
      | send message =>
          simp only [List.cons_append, heardFrom, induction, List.append_assoc,
            List.foldl_cons, Event.members]

@[simp] theorem heard_nil : heard client ([] : List (Event α μ)) = [] := rfl

@[simp] theorem heard_join (member : α) :
    heard client (history ++ [.join member]) = heard client history := by
  simp [heard, heardFrom_append, heardFrom]

@[simp] theorem heard_leave (member : α) :
    heard client (history ++ [.leave member]) = heard client history := by
  simp [heard, heardFrom_append, heardFrom]

theorem heard_send (message : μ) :
    heard client (history ++ [.send message]) =
      heard client history ++ if client ∈ members history then [message] else [] := by
  simp only [heard, heardFrom_append, heardFrom, members, List.append_nil]
  rfl

theorem heard_sublist : (heard client history).Sublist (sends history) := by
  have from_ (here : List α) :
      (heardFrom client here history).Sublist (sends history) := by
    induction history generalizing here with
    | nil => exact .refl _
    | cons event history induction =>
        cases event with
        | join member => exact induction _
        | leave member => exact induction _
        | send message =>
            simp only [heardFrom, sends, List.filterMap_cons]
            split
            · exact (induction here).cons_cons message
            · exact (induction here).cons message
  exact from_ []

end heard

/-- Nobody leaves. -/
def Growing (history : List (Event α μ)) : Prop := ∀ member, .leave member ∉ history

theorem Growing.join {history : List (Event α μ)} (growing : Growing history) (member : α) :
    Growing (history ++ [.join member]) := by
  intro other leaves
  simp only [List.mem_append, List.mem_singleton, reduceCtorEq, or_false] at leaves
  exact growing other leaves

theorem Growing.send {history : List (Event α μ)} (growing : Growing history) (message : μ) :
    Growing (history ++ [.send message]) := by
  intro other leaves
  simp only [List.mem_append, List.mem_singleton, reduceCtorEq, or_false] at leaves
  exact growing other leaves

section growing

variable [DecidableEq α] {client : α} {history : List (Event α μ)}

/-- Whoever stays hears all that was sent since it joined. -/
theorem heard_suffix (growing : Growing history) :
    heard client history <:+ sends history ∧
      (client ∉ members history → heard client history = []) := by
  induction history using List.reverseRecOn with
  | nil => exact ⟨List.suffix_rfl, fun _ => rfl⟩
  | append_singleton history event induction =>
      have earlier : Growing history := fun member inside =>
        growing member (List.mem_append_left _ inside)
      obtain ⟨suffix, outside⟩ := induction earlier
      cases event with
      | leave member =>
          exact absurd (List.mem_append_right _ List.mem_cons_self) (growing member)
      | join member =>
          rw [heard_join, sends_join, members_snoc]
          refine ⟨suffix, fun absent => outside fun inside => absent ?_⟩
          exact List.mem_append_left _ inside
      | send message =>
          rw [heard_send, sends_send, members_snoc]
          by_cases inside : client ∈ members history
          · rw [if_pos inside]
            obtain ⟨before, split⟩ := suffix
            exact ⟨⟨before, by rw [← split, List.append_assoc]⟩,
              fun absent => absurd inside absent⟩
          · rw [if_neg inside, outside inside, List.append_nil]
            exact ⟨List.nil_suffix, fun _ => rfl⟩

end growing

theorem filter_copies [DecidableEq α] {here : List α} (once : here.Nodup) (client : α)
    (message : μ) :
    ((here.map fun member => (member, message)).filter (·.1 = client)).map Prod.snd =
      if client ∈ here then [message] else [] := by
  induction here with
  | nil => rfl
  | cons first here induction =>
      obtain ⟨new, once⟩ := List.nodup_cons.mp once
      by_cases same : first = client
      · subst same
        rw [List.map_cons, List.filter_cons_of_pos (by simp), List.map_cons,
          induction once]
        simp [new]
      · rw [List.map_cons, List.filter_cons_of_neg (by simpa using same),
          induction once]
        simp [Ne.symm same]

theorem filter_mem_part [DecidableEq μ] {part whole : List μ}
    (once : whole.Nodup) (isPart : part.Sublist whole) :
    whole.filter (· ∈ part) = part := by
  induction isPart with
  | slnil => rfl
  | @cons part whole first isPart induction =>
      obtain ⟨new, once⟩ := List.nodup_cons.mp once
      have absent : first ∉ part := fun member => new (isPart.subset member)
      simp [absent, induction once]
  | @cons_cons part whole first isPart induction =>
      obtain ⟨new, once⟩ := List.nodup_cons.mp once
      have others : whole.filter (· ∈ first :: part) = whole.filter (· ∈ part) := by
        refine List.filter_congr fun message member => ?_
        have different : message ≠ first := by
          rintro rfl
          exact new member
        simp [different]
      rw [List.filter_cons_of_pos (by simp), others, induction once]

/-- Two parts of one list without repetition have their common elements in one
order. -/
theorem common_order [DecidableEq μ] {first second whole : List μ}
    (once : whole.Nodup) (left : first.Sublist whole) (right : second.Sublist whole) :
    first.filter (· ∈ second) = second.filter (· ∈ first) := by
  have both : (whole.filter (· ∈ first)).filter (· ∈ second) =
      (whole.filter (· ∈ second)).filter (· ∈ first) := by
    simp only [List.filter_filter, Bool.and_comm]
  rwa [filter_mem_part once left, filter_mem_part once right] at both

end Broadcast
