import NetworkProgramming.Hw6.Pipes

/-!
# The shutdown of `hw6_server`

A quit makes the child leave `store_loop`, but the parent goes on with its scan
of the ready descriptors.  A load read later in the same round waits for a
process that has returned, and a save read there is acknowledged and never
stored.  Without such a request nothing is lost and nothing waits in vain.
-/

namespace NetworkProgramming.Hw6

open MachineInt Transition

/-- A client has been sent the result of a save whose record is not in the
child's `dataArray`.  At `saveRecord` the result is sent and the record not
even written. -/
def System.Unstored (s : System) : Prop :=
  s.point = .saveRecord ∨
    ∃ (index : Nat) (record : Data), s.globals.dataArray[index]? = some record ∧
      s.child.dataArray[index]? ≠ some record

/-- While a load waits or an acknowledged record is not yet stored, the child
has not returned. -/
def System.ShutdownSafe (s : System) : Prop :=
  s.point = .loadWait ∨ s.Unstored → s.child.point ≠ .returned

theorem ChildAt.point_ne_returned {parent : ParentPoint} {point : ChildPoint}
    {pipe : List Byte} {pending : List Message}
    (view : ChildAt parent point pipe pending) : point ≠ .returned := by
  cases view with
  | boundary => simp
  | body message pending hasBody =>
      cases message with
      | save => simp [Message.mode, childEntry]
      | load => simp [Message.mode, childEntry]
      | quit => exact absurd rfl hasBody
  | opened _ waits =>
      rintro rfl
      cases parent <;> simp [ParentPoint.openPoint] at waits

theorem Protocol.shutdownSafe {serv_sock : Nat} {s : System}
    (held : Protocol serv_sock s) : s.ShutdownSafe := by
  intro outstanding returned
  cases held with
  | storing _ _ view => exact view.point_ne_returned returned
  | loading _ _ _ view => exact view.point_ne_returned returned
  | quitting _ _ _ view => exact view.point_ne_returned returned
  | replying _ _ _ _ _ underway =>
      rcases underway with ⟨point, _⟩ | ⟨point, _⟩ <;> simp [point] at returned
  | returned stored left noReply quiet =>
      rcases outstanding with waiting | recording | ⟨index, record, kept, missing⟩
      · simp [waiting, ParentPoint.Quiet] at quiet
      · simp [recording, ParentPoint.Quiet] at quiet
      · rw [stored] at kept
        exact missing kept

/-- In a run that reads no save or load after a quit was served, no load waits
for a child that has returned and no acknowledged record is lost. -/
theorem shutdown_loses_and_blocks_nothing {serv_sock : Nat}
    {actions : List Action} {s : System}
    (guarded : Guarded (step serv_sock) (ServedBeforeQuit serv_sock)
      (System.initial serv_sock) actions)
    (reached : run (step serv_sock) (System.initial serv_sock) actions = some s) :
    s.ShutdownSafe :=
  (protocol_run guarded reached).shutdownSafe

instance (serv_sock : Nat) (s : System) :
    (action : Action) → Decidable (ServedBeforeQuit serv_sock s action)
  | .readv result =>
      decidable_of_iff
        (s.servedMode result = .save ∨ s.servedMode result = .load → serv_sock ∈ s.sockets)
        ⟨fun served _ same => by cases same; exact served, fun permitted => permitted result rfl⟩
  | .select _ | .skip | .accept _ | .parent | .child => isTrue nofun

/-- One round in which 8 sends a save, 9 a load and 10 a quit. -/
def quitLast : List Action :=
  connectTwice ++ connect 10 ++ scanTo {8, 9, 10} ++
    [.readv (.data (saveWord ++ List.replicate ID_SIZE 0#8 ++ [1#8, 7#8, 0#8, 0#8, 0#8])),
      .parent, .parent, .parent, .parent,
      .readv (.data (loadWord ++ List.replicate ID_SIZE 0#8)), .parent, .parent,
      .child, .child, .child, .child, .child, .parent, .parent, .parent,
      .readv (.data (quitWord ++ List.replicate ID_SIZE 0#8)), .parent, .child, .parent]

theorem shutdown_loses_and_blocks_nothing_quitLast :
    ∃ s, run (step 3) (System.initial 3) quitLast = some s ∧
      s.child.point = .returned ∧ s.child.dataArray.length = 1 ∧ s.ShutdownSafe := by
  have shape : (run (step 3) (System.initial 3) quitLast).any (fun s =>
      s.child.point = .returned ∧ s.child.dataArray.length = 1) = true := by
    decide +kernel
  have guarded : Guarded (step 3) (ServedBeforeQuit 3) (System.initial 3) quitLast := by
    decide +kernel
  obtain ⟨s, reached, facts⟩ := (Option.any_eq_true _ _).mp shape
  obtain ⟨returned, stored⟩ := of_decide_eq_true facts
  exact ⟨s, reached, returned, stored, shutdown_loses_and_blocks_nothing guarded reached⟩

/-- One round in which 8 sends a quit and 9 a load, both with the id that the
array is initialised to.  The child returns before the parent waits, so no `SIGCHLD`
interrupts the wait. -/
def quitThenLoad : List Action :=
  connectTwice ++ scanTo {8, 9} ++
    [.readv (.data (quitWord ++ List.replicate ID_SIZE 0#8)), .parent, .child, .parent,
      .readv (.data (loadWord ++ List.replicate ID_SIZE 0#8)), .parent, .parent]

/-- The load waits and the child has returned. -/
theorem quitThenLoad_waits :
    ¬ ∀ s, run (step 3) (System.initial 3) quitThenLoad = some s →
      s.ShutdownSafe := by
  intro safe
  have reached : (run (step 3) (System.initial 3) quitThenLoad).any (fun s =>
      s.point = .loadWait ∧ s.child.point = .returned) = true := by
    decide +kernel
  obtain ⟨s, ran, facts⟩ := (Option.any_eq_true _ _).mp reached
  obtain ⟨waiting, returned⟩ := of_decide_eq_true facts
  exact safe s ran (.inl waiting) returned

end NetworkProgramming.Hw6
