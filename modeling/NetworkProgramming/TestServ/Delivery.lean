import NetworkProgramming.TestServ.Registry

/-!
# Delivery of the results of `test_serv`

The mutex puts registrations, removals and broadcasts into one order, the
history.  Because the registry always holds the members of the history, each
once, a broadcast is written once to every member and to nobody else, and what
a client receives is what the history makes it hear.
-/

namespace NetworkProgramming.TestServ

open MachineInt Strtok Broadcast Transition

/-- The results written to a connection, as the server's own state has them. -/
def System.received (s : System) (client : Nat) : List Result :=
  s.view.received client

/-- Every connection has received what it should have heard, and the results
carry their numbers. -/
structure Delivered (v : View) : Prop where
  consistent : Consistent v
  received : ∀ client, v.received client = heard client v.history
  numbered : (sends v.history).map Result.number = List.range (sends v.history).length

section delivered

variable {v next : View}

theorem Consistent.broadcast (held : Consistent v) {β : Type*} (copy : Nat → β) :
    v.registered.filterMap (fun socket => (v.connection socket).map copy) =
      (members v.history).map copy := by
  have copies : v.registered.filterMap (fun socket => (v.connection socket).map copy) =
      (v.registered.map v.connection).filterMap (Option.map copy) := by
    rw [List.filterMap_map]
    rfl
  rw [copies, held.registry, List.filterMap_map]
  exact congrFun (@List.filterMap_eq_map _ _ copy) _

theorem delivered_broadcast (held : Delivered v) (text : List Byte) :
    Delivered { v with
      results := v.results ++ v.registered.filterMap fun socket =>
        (v.connection socket).map fun client =>
          (client, ⟨(sends v.history).length, text⟩)
      history := v.history ++ [.send ⟨(sends v.history).length, text⟩] } where
  consistent := consistent_broadcast held.consistent _ _
  received := by
    intro client
    have own := filter_copies held.consistent.once client
      (⟨(sends v.history).length, text⟩ : Result)
    have before := held.received client
    simp only [View.received] at before ⊢
    rw [held.consistent.broadcast, List.filter_append, List.map_append, before, own,
      heard_send]
  numbered := by
    simp [held.numbered, List.range_succ]

theorem delivered_step (held : Delivered v) (taken : View.Step v next) :
    Delivered next := by
  have consistent := consistent_step held.consistent taken
  cases taken with
  | work => exact held
  | accept waits fresh => exact ⟨consistent, held.received, held.numbered⟩
  | append accepted =>
      refine ⟨consistent, fun client => ?_, by simpa using held.numbered⟩
      rw [heard_join]
      exact held.received client
  | create appended => exact ⟨consistent, held.received, held.numbered⟩
  | broadcast text => exact delivered_broadcast held text
  | remove found =>
      refine ⟨consistent, fun client => ?_, by simpa using held.numbered⟩
      rw [heard_leave]
      exact held.received client
  | close found => exact ⟨consistent, held.received, held.numbered⟩

theorem Delivered.once (held : Delivered v) : (sends v.history).Nodup := by
  apply List.Nodup.of_map Result.number
  rw [held.numbered]
  exact List.nodup_range

end delivered

theorem delivered_initial : Delivered System.initial.view where
  consistent := consistent_initial
  received := fun _ => rfl
  numbered := rfl

/-- In every reachable state each connection has received the results that were
broadcast between its registration and its removal, each once, and any two
connections have received their common results in one order. -/
theorem results_delivered {atoi : List Byte → Word} {actions : List Action}
    {s : System} (reached : run (step atoi) System.initial actions = some s) :
    (∀ client, s.received client = heard client s.history) ∧
      (∀ client, (s.received client).Nodup) ∧
      ∀ first second,
        (s.received first).filter (· ∈ s.received second) =
          (s.received second).filter (· ∈ s.received first) := by
  have held : Delivered s.view := run_invariant_of_step (fun s => Delivered s.view)
    (fun held taken => delivered_step held (step_view taken)) delivered_initial reached
  have received : ∀ client, s.received client = heard client s.history := held.received
  have part : ∀ client, (s.received client).Sublist (sends s.history) := by
    intro client
    rw [received]
    exact heard_sublist
  exact ⟨received, fun client => (part client).nodup held.once,
    fun first second => common_order held.once (part first) (part second)⟩

/-- Two clients register; the second leaves after the first result. -/
def twoClients : List Action :=
  let cleared := CArray.replicate BUF_SIZE 0#8
  let id := CArray.replicate (NAME_SIZE + 1) 0#8
  let request := [107#8, 105#8, 109#8, 49#8, ascii '1', ascii ' ', ascii '7', 0#8]
  [.accept 4, .append, .create id cleared cleared, .accept 5, .append,
    .create id cleared cleared, .request 0 request Call.zero, .strtok 0, .strtok 0,
    .broadcast 0, .leave 1, .request 0 request Call.zero, .strtok 0, .remove 1,
    .strtok 0, .close 1, .broadcast 0]

theorem results_delivered_twoClients :
    ∃ s, run (step atoi) System.initial twoClients = some s ∧
      s.received 1 = heard 1 s.history ∧
      (s.received 0).map Result.number = [0, 1] ∧
      (s.received 1).map Result.number = [0] := by
  have shape : (run (step atoi) System.initial twoClients).any (fun s =>
      (s.received 0).map Result.number = [0, 1] ∧
        (s.received 1).map Result.number = [0]) = true := by
    decide +kernel
  obtain ⟨s, reached, shaped⟩ := (Option.any_eq_true _ _).mp shape
  exact ⟨s, reached, (results_delivered reached).1 1, of_decide_eq_true shaped⟩

end NetworkProgramming.TestServ
