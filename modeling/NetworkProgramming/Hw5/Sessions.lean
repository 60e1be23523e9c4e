import Mathlib.Data.List.Sigma
import NetworkProgramming.Foundation.Pool
import NetworkProgramming.Hw5.Logger
import NetworkProgramming.Hw5.Stream
import NetworkProgramming.Screens

/-!
# The users of `hw5_client`

Every user has a worker process of `hw5_server` and a connection with its own cuts.  As
long as none of them falls inside an operand or the answer, the user sees the value of what
was typed, and in the end the log has one line for each calculation, whatever the order in
which the processes ran.
-/

namespace NetworkProgramming.Hw5

open MachineInt Transition Client Channel

/-- A user, the connection, and the process that serves it.  The locals of both programs are
not initialised. -/
structure Session where
  input : Input
  buf : CArray Byte Client.MAX
  opResult : Word
  pid : Int
  locals : Locals
  /-- Where the request is cut. -/
  cuts : Nat → Nat
  /-- How many bytes of the answer are there when the client reads. -/
  answered : Nat

namespace Session

/-- The client accounts for the count, no cut falls inside an operand or the answer, and the
log line fits `buf`. -/
structure Well (session : Session) : Prop where
  accountable : session.input.Accountable
  uncut : ¬ session.input.Refused →
    ∀ index < session.input.opCount.toNat, 4 ≤ session.cuts (index + 1)
  whole : ¬ session.input.Refused → 4 ≤ session.answered
  fits : ¬ session.input.Refused →
    session.input.expression.Fits MAX (pidText session.pid).length ∧
      (logLine session.pid session.input.expression).length < MAX

def line (session : Session) : Option (List Byte) :=
  if session.input.Refused then none
  else some (logLine session.pid session.input.expression)

/-- The worker when it is forked: what the client writes is on the way to it. -/
def worker (session : Session) : Worker (CutStream Byte) :=
  ⟨session.pid, session.locals,
    .of session.cuts ((hw5_client session.input session.buf).getD [], 0), .serving⟩

/-- The screen of a user whose server writes this answer. -/
def shown (session : Session) (answer : List Byte) : List Byte :=
  countPrompt ++ if session.input.Refused then [] else
    prompts session.input.opCount ++
      operationResult (receiveWord session.opResult (answer.take session.answered))

end Session

/-- What a worker writes to its connection. -/
def Outcome.sent : Outcome → List Byte
  | .saved _ => []
  | .replied _ _ opResult _ => Word.toBytes opResult

/-! ## One user -/

theorem worker_refused {count : Byte} (refused : count.toInt ≤ 0) (pid : Int)
    (locals : Locals) (cuts : Nat → Nat) :
    worker (readCut cuts) pid locals ([count], 0) = some (.saved count.toInt, [], 1) := by
  simp only [worker, readCount_cut, Option.bind_eq_bind, Option.bind_some, List.headD_cons,
    refused, if_true, Option.pure_def]

theorem worker_delivered {expression : Expression} (small : expression.count ≤ 127)
    {cuts : Nat → Nat} (uncut : ∀ index < expression.count, 4 ≤ cuts (index + 1)) {pid : Int}
    (fits : expression.Fits MAX (pidText pid).length)
    (line : (logLine pid expression).length < MAX) (locals : Locals) :
    ∃ operand rest, worker (readCut cuts) pid locals (expression.encode, 0) =
      some (.replied operand expression.steps expression.value
        (some (logLine pid expression)), rest) := by
  have positive : 0 < expression.count := by simp [Expression.count]
  have counts : declared expression.encode = expression.count := by
    rw [declared, Expression.encode, List.headD_cons, toInt_ofNat_char small]
  have same := decodeExpression_encode expression []
  rw [List.append_nil] at same
  have complete : 5 * declared expression.encode ≤ expression.encode.length := by
    rw [counts, expression.length_encode]
    omega
  obtain ⟨operand, _, served, _⟩ := @worker_uncut pid cuts expression.encode locals
    (by omega) complete (by simpa only [counts, Int.toNat_natCast] using uncut)
  simp only [counts, Int.toNat_natCast, same] at served
  obtain ⟨rest, ran⟩ := served fits
  rw [if_pos line] at ran
  exact ⟨operand, rest, ran⟩

/-- The user sees the value, and the worker gets to the user's line. -/
theorem Session.Well.served {session : Session} (well : session.Well) :
    (∃ outcome rest, Hw5.worker CutStream.read session.pid session.locals
        session.worker.connection = some (outcome, rest) ∧
      session.shown outcome.sent = session.input.screen) ∧
      session.worker.serve CutStream.read =
        some (session.line.elim .exited Stage.ready) := by
  have carried (sent : List Byte) :=
    worker_map (CutStream.read_of session.cuts) session.pid session.locals (sent, 0)
  by_cases refused : session.input.Refused
  · have sent : hw5_client session.input session.buf =
        some [BitVec.ofInt 8 session.input.opCount] :=
      sentBytes_refused well.accountable refused session.buf
    have ran := worker_refused refused session.pid session.locals session.cuts
    have served := carried [BitVec.ofInt 8 session.input.opCount]
    rw [ran, Option.map_some] at served
    refine ⟨⟨_, _, by rw [Session.worker, sent]; exact served, ?_⟩, ?_⟩
    · simp [Session.shown, Input.screen, refused]
    · simp only [Worker.serve, Session.worker, sent, Option.getD_some, served, Session.line,
        refused, if_true, Option.elim_none, Option.bind_eq_bind, Option.bind_some,
        Option.pure_def, Prod.map, id_eq]
  · obtain ⟨encoded, small⟩ := sentBytes_accepted well.accountable refused session.buf
    have sent : hw5_client session.input session.buf =
        some session.input.expression.encode := encoded
    obtain ⟨fits, short⟩ := well.fits refused
    have count : session.input.expression.count = session.input.opCount.toNat := by
      have positive := (well.accountable.resolve_left refused).1
      have counts := count_expression positive
      omega
    obtain ⟨operand, rest, ran⟩ :=
      worker_delivered small (count ▸ well.uncut refused) fits short session.locals
    have served := carried session.input.expression.encode
    rw [ran, Option.map_some] at served
    refine ⟨⟨_, _, by rw [Session.worker, sent]; exact served, ?_⟩, ?_⟩
    · have all (word : Word) : (Word.toBytes word).take session.answered = Word.toBytes word :=
        List.take_of_length_le (Nat.le_trans (Word.length_toBytes word).le (well.whole refused))
      simp [Session.shown, Input.screen, refused, Outcome.sent, all, receiveWord_toBytes]
    · simp only [Worker.serve, Session.worker, sent, Option.getD_some, served, Session.line,
        refused, if_false, Option.elim_some, Option.bind_eq_bind, Option.bind_some,
        Option.map_some, Prod.map, id_eq]

/-! ## The steps of the server's own processes -/

/-- The steps of the workers and of the logger, without those of its stream. -/
def Internal {τ : Type} : Action τ → Prop
  | .serve _ | .write _ | .read _ | .fwrite | .fflush => True
  | .fork _ _ _ | .spill _ => False

def Stage.work : Stage → Nat
  | .serving => 3 * MAX + 2
  | .ready line => 3 * line.length + 1
  | .wrote _ | .exited => 0

def LoggerPoint.work : LoggerPoint → Nat
  | .read => 0
  | .fwrite _ => 2
  | .fflush => 1

/-- More than the internal steps that are left. -/
def System.work {τ : Type} (s : System τ) : Nat :=
  (s.workers.map fun child => child.stage.work).sum + 3 * s.pipe.length + s.point.work

/-- Every worker has ended, and the logger waits in front of an empty pipe. -/
structure System.Finished {τ : Type} (s : System τ) : Prop where
  ended : ∀ child ∈ s.workers, child.stage.work = 0
  drained : s.pipe = []
  waits : s.point = .read

section steps

variable {τ : Type} {receive : Nat → τ → Option (List Byte × τ)} {s next : System τ}

theorem serve_stage {child : Worker τ} {stage : Stage}
    (served : child.serve receive = some stage) :
    stage = .exited ∨ ∃ line, stage = .ready line ∧ line.length < MAX := by
  simp only [Worker.serve, Option.bind_eq_bind, Option.bind_eq_some_iff] at served
  obtain ⟨⟨outcome, rest⟩, ran, leads⟩ := served
  cases outcome with
  | saved opCount =>
      cases leads
      exact .inl rfl
  | replied operand steps opResult line =>
      obtain ⟨own, rfl, rfl⟩ := Option.map_eq_some_iff.mp leads
      obtain ⟨_, _, short⟩ := worker_line ran
      exact .inr ⟨own, rfl, short⟩

theorem internal_work {action : Action τ} (isInternal : Internal action)
    (taken : step receive s action = some next) : next.work < s.work := by
  cases step_moves taken with
  | fork pid locals connection => cases isInternal
  | spill count => cases isInternal
  | @serve worker child stage found serving served =>
      have sum := @Pool.sum_map_set _ _ _ _ { child with stage := stage } found
        fun child => child.stage.work
      have small : stage.work < 3 * MAX + 2 := by
        rcases serve_stage served with rfl | ⟨line, rfl, short⟩
        · simp only [Stage.work]
          omega
        · simp only [Stage.work]
          omega
      have before : (Stage.serving).work = 3 * MAX + 2 := rfl
      simp only [serving, before] at sum
      simp only [System.work]
      omega
  | @write worker child line found ready =>
      have sum := @Pool.sum_map_set _ _ _ _ { child with stage := .wrote line } found
        fun child => child.stage.work
      have before : (Stage.ready line).work = 3 * line.length + 1 := rfl
      have after : (Stage.wrote line).work = 0 := rfl
      simp only [ready, before, after] at sum
      simp only [System.work, List.length_append]
      omega
  | read len point size =>
      simp only [System.work, point, LoggerPoint.work, List.length_drop]
      omega
  | fwrite len point moved => simp [System.work, point, LoggerPoint.work]
  | fflush point => simp [System.work, point, LoggerPoint.work]

/-- A worker as it was forked. -/
def Worker.start (child : Worker τ) : Worker τ := { child with stage := .serving }

/-- No read of the logger asks for more than `msgbuf` holds. -/
def Bounded (s : System τ) : Prop := ∀ len, s.point = .fwrite len → len ≤ MAX

theorem bounded_step {action : Action τ} (held : Bounded s)
    (taken : step receive s action = some next) : Bounded next := by
  cases step_moves taken with
  | read len point size =>
      intro other isOther
      cases isOther
      exact size.2.1
  | fwrite len point moved => exact nofun
  | fflush point => exact nofun
  | fork pid locals connection => exact held
  | serve worker found serving served => exact held
  | write worker found ready => exact held
  | spill count => exact held

/-- A worker that wrote nothing had nothing to write. -/
def Exits (receive : Nat → τ → Option (List Byte × τ)) (s : System τ) : Prop :=
  ∀ child ∈ s.workers, child.stage = .exited → child.serve receive = some .exited

theorem exits_step {action : Action τ} (held : Exits receive s)
    (taken : step receive s action = some next) : Exits receive next := by
  cases step_moves taken with
  | fork pid locals connection =>
      intro child member exited
      rcases List.mem_append.mp member with old | new
      · exact held child old exited
      · cases List.mem_singleton.mp new
        cases exited
  | serve worker found serving served =>
      intro child member exited
      rcases List.mem_or_eq_of_mem_set member with old | rfl
      · exact held child old exited
      · cases exited
        exact served
  | write worker found ready =>
      intro child member exited
      rcases List.mem_or_eq_of_mem_set member with old | rfl
      · exact held child old exited
      · cases exited
  | read len point size => exact held
  | fwrite len point moved => exact held
  | spill count => exact held
  | fflush point => exact held

theorem start_step {action : Action τ} (isInternal : Internal action)
    (taken : step receive s action = some next) :
    next.workers.map Worker.start = s.workers.map Worker.start := by
  cases step_moves taken with
  | fork pid locals connection => cases isInternal
  | spill count => cases isInternal
  | serve worker found serving served => exact Pool.map_set_of_same found rfl
  | write worker found ready => exact Pool.map_set_of_same found rfl
  | read len point size => rfl
  | fwrite len point moved => rfl
  | fflush point => rfl

end steps

/-! ## Every run -/

/-- A state in which these users have been accepted. -/
structure Serving (sessions : List Session) (s : System (CutStream Byte)) : Prop where
  accounted : Accounted CutStream.read s
  bounded : Bounded s
  exits : Exits CutStream.read s
  made : s.workers.map Worker.start = sessions.map Session.worker

section runs

variable {sessions : List Session} {s next : System (CutStream Byte)}

theorem serving_step {action : Action (CutStream Byte)} (held : Serving sessions s)
    (isInternal : Internal action) (taken : step CutStream.read s action = some next) :
    Serving sessions next :=
  ⟨accounted_step held.accounted taken, bounded_step held.bounded taken,
    exits_step held.exits taken, (start_step isInternal taken).trans held.made⟩

theorem Serving.session (held : Serving sessions s) {worker : Nat}
    {child : Worker (CutStream Byte)} (found : s.workers[worker]? = some child) :
    ∃ session, sessions[worker]? = some session ∧ child.start = session.worker := by
  have started : (s.workers.map Worker.start)[worker]? = some child.start := by
    rw [List.getElem?_map, found, Option.map_some]
  rw [held.made, List.getElem?_map] at started
  exact Option.map_eq_some_iff.mp started |>.imp fun session both =>
    ⟨both.1, both.2.symm⟩

theorem Serving.progress (well : ∀ session ∈ sessions, session.Well) (held : Serving sessions s)
    (unfinished : ¬ s.Finished) :
    ∃ action next, Internal action ∧ step CutStream.read s action = some next ∧
      Serving sessions next := by
  have possible {action : Action (CutStream Byte)} {next : System (CutStream Byte)}
      (isInternal : Internal action) (taken : step CutStream.read s action = some next) :
      ∃ action next, Internal action ∧ step CutStream.read s action = some next ∧
        Serving sessions next :=
    ⟨action, next, isInternal, taken, serving_step held isInternal taken⟩
  cases point : s.point with
  | fwrite len =>
      have bound := held.bounded len point
      obtain ⟨bytes, taken⟩ : ∃ bytes, s.msgbuf.read? 0 len = some bytes :=
        ⟨_, CArray.read?_eq_some.mpr ⟨by omega, rfl⟩⟩
      exact @possible .fwrite _ trivial (by simp only [step, point, taken]; rfl)
  | fflush => exact @possible .fflush _ trivial (by simp only [step, point, if_true]; rfl)
  | read =>
      cases pipe : s.pipe with
      | cons byte bytes =>
          have reads : s.point = .read ∧ 0 < 1 ∧ 1 ≤ MAX ∧ 1 ≤ s.pipe.length :=
            ⟨point, by decide, by decide, by simp [pipe]⟩
          exact @possible (.read 1) _ trivial (by rw [step, if_pos reads])
      | nil =>
          have working : ∃ child ∈ s.workers, child.stage.work ≠ 0 := by
            apply Classical.byContradiction
            intro idle
            refine unfinished ⟨fun child member => ?_, pipe, point⟩
            exact Classical.byContradiction fun busy => idle ⟨child, member, busy⟩
          obtain ⟨child, member, busy⟩ := working
          obtain ⟨worker, bound, rfl⟩ := List.mem_iff_getElem.mp member
          have found := List.getElem?_eq_getElem bound
          obtain ⟨session, isSession, started⟩ := held.session found
          generalize s.workers[worker] = child at found busy started
          obtain ⟨pid, locals, connection, stage⟩ := child
          cases stage with
          | serving =>
              have served :=
                ((well session (List.mem_of_getElem? isSession)).served).2
              rw [← started] at served
              have own : (⟨pid, locals, connection, .serving⟩ : Worker (CutStream Byte)).serve
                  CutStream.read = _ := served
              exact @possible (.serve worker) _ trivial
                (by simp only [step, found, own]; rfl)
          | ready line => exact @possible (.write worker) _ trivial (by simp only [step, found]; rfl)
          | wrote line => exact absurd rfl busy
          | exited => exact absurd rfl busy

theorem serving_of_reached {actions : List (Action (CutStream Byte))}
    (made : s.workers.map Worker.start = sessions.map Session.worker)
    (reached : run (step CutStream.read) (System.initial (CutStream Byte)) actions = some s) :
    Serving sessions s where
  accounted := run_invariant_of_step (Accounted CutStream.read)
    (fun held taken => accounted_step held taken) accounted_initial reached
  bounded := run_invariant_of_step Bounded (fun held taken => bounded_step held taken)
    (fun _ point => by cases point) reached
  exits := run_invariant_of_step (Exits CutStream.read) (fun held taken => exits_step held taken)
    (by simp [Exits, System.initial]) reached
  made := made

/-- The users' lines with the numbers of their workers. -/
def numberedLines (sessions : List Session) : List (Nat × List Byte) :=
  (List.range sessions.length).filterMap fun worker =>
    (sessions[worker]?.bind Session.line).map fun line => (worker, line)

theorem mem_numberedLines {worker : Nat} {line : List Byte} :
    (worker, line) ∈ numberedLines sessions ↔
      sessions[worker]?.bind Session.line = some line := by
  simp only [numberedLines, List.mem_filterMap, List.mem_range, Option.map_eq_some_iff,
    Prod.mk.injEq]
  constructor
  · rintro ⟨_, _, _, found, rfl, rfl⟩
    exact found
  · intro found
    obtain ⟨session, isSession, _⟩ := Option.bind_eq_some_iff.mp found
    exact ⟨worker, (List.getElem?_eq_some_iff.mp isSession).1, line, found, rfl, rfl⟩

theorem nodup_numberedLines : (numberedLines sessions).Nodup := by
  refine List.nodup_range.filterMap ?_
  intro first second shared isFirst isSecond
  obtain ⟨_, _, rfl⟩ := Option.map_eq_some_iff.mp isFirst
  obtain ⟨_, _, same⟩ := Option.map_eq_some_iff.mp isSecond
  exact (Prod.mk.inj same).1.symm

theorem map_snd_numberedLines :
    (numberedLines sessions).map Prod.snd = sessions.filterMap Session.line := by
  have listed : (List.range sessions.length).map (sessions[·]?) = sessions.map some := by
    apply List.ext_getElem
    · simp
    · intro index _ bound
      simp only [List.length_map] at bound
      simp [bound]
  calc
    (numberedLines sessions).map Prod.snd =
        ((List.range sessions.length).map (sessions[·]?)).filterMap
          fun session => session.bind Session.line := by
      rw [numberedLines, List.map_filterMap, List.filterMap_map]
      refine List.filterMap_congr fun worker _ => ?_
      rw [Option.map_map]
      exact Option.map_id'
    _ = sessions.filterMap Session.line := by
      rw [listed, List.filterMap_map]
      rfl

theorem Serving.written (well : ∀ session ∈ sessions, session.Well) (held : Serving sessions s)
    (finished : s.Finished) : s.written.Perm (numberedLines sessions) := by
  refine (List.perm_ext_iff_of_nodup (.of_map _ held.accounted.once)
    nodup_numberedLines).mpr ?_
  rintro ⟨worker, line⟩
  rw [held.accounted.wrote, mem_numberedLines]
  have served {session : Session} {child : Worker (CutStream Byte)}
      (isSession : sessions[worker]? = some session)
      (started : child.start = session.worker) :
      child.serve CutStream.read = some (session.line.elim .exited Stage.ready) := by
    have own := ((well session (List.mem_of_getElem? isSession)).served).2
    rw [← started] at own
    exact own
  constructor
  · intro wrote
    obtain ⟨child, found, stage⟩ := Option.map_eq_some_iff.mp wrote
    obtain ⟨session, isSession, started⟩ := held.session found
    have computed := held.accounted.computed child (List.mem_of_getElem? found) line
      (by rw [stage]; rfl)
    rw [served isSession started] at computed
    rw [isSession, Option.bind_some]
    cases isLine : session.line with
    | none =>
        rw [isLine] at computed
        cases computed
    | some own =>
        rw [isLine] at computed
        cases computed
        rfl
  · intro isLine
    obtain ⟨session, isSession, own⟩ := Option.bind_eq_some_iff.mp isLine
    have length : worker < s.workers.length := by
      have same := congrArg List.length held.made
      simp only [List.length_map] at same
      rw [same]
      exact (List.getElem?_eq_some_iff.mp isSession).1
    have found := List.getElem?_eq_getElem length
    obtain ⟨other, isOther, started⟩ := held.session found
    cases isSession.symm.trans isOther
    have ended := finished.ended _ (List.mem_of_getElem? found)
    have serves := served isSession started
    rw [own, Option.elim_some] at serves
    rw [found, Option.map_some]
    cases stage : s.workers[worker].stage with
    | serving =>
        rw [stage] at ended
        cases ended
    | ready text =>
        rw [stage] at ended
        cases ended
    | exited =>
        have exits := held.exits _ (List.mem_of_getElem? found) stage
        rw [serves] at exits
        cases exits
    | wrote text =>
        have computed := held.accounted.computed _ (List.mem_of_getElem? found) text
          (by rw [stage]; rfl)
        rw [serves] at computed
        cases computed
        rfl

/-- The log at the end: the line of each user once, in the order in which the workers
wrote them. -/
theorem Serving.log (well : ∀ session ∈ sessions, session.Well) (held : Serving sessions s)
    (finished : s.Finished) :
    ∃ lines : List (List Byte),
      lines.Perm (sessions.filterMap Session.line) ∧ s.log = lines.flatten := by
  refine ⟨s.written.map Prod.snd, ?_, ?_⟩
  · rw [← map_snd_numberedLines]
    exact (held.written well finished).map Prod.snd
  · have bytes := held.accounted.bytes
    simpa [finished.drained, held.accounted.idle finished.waits, System.pending,
      finished.waits, System.lines] using bytes

end runs

/-- Users of `hw5_client` share the server.  Each sees the value of what was typed, wherever
the connection is cut between the fields.  The server's processes come to an end by their own
steps, of which there are finitely many, in whatever order they run, and then the log has the
line of each user once. -/
theorem sessions_logged {sessions : List Session}
    (well : ∀ session ∈ sessions, session.Well) {actions : List (Action (CutStream Byte))}
    {s : System (CutStream Byte)}
    (made : s.workers.map Worker.start = sessions.map Session.worker)
    (reached : run (step CutStream.read) (System.initial (CutStream Byte)) actions = some s) :
    (∀ session ∈ sessions, ∃ outcome rest,
      worker CutStream.read session.pid session.locals session.worker.connection =
          some (outcome, rest) ∧
        session.shown outcome.sent = session.input.screen) ∧
      (∃ internal final, (∀ action ∈ internal, Internal action) ∧
        run (step CutStream.read) s internal = some final ∧ final.Finished) ∧
      ∀ internal final, (∀ action ∈ internal, Internal action) →
        run (step CutStream.read) s internal = some final →
          internal.length ≤ s.work ∧
          (final.Finished → ∃ lines : List (List Byte),
            lines.Perm (sessions.filterMap Session.line) ∧ final.log = lines.flatten) := by
  have held := serving_of_reached made reached
  refine ⟨fun session member => ((well session member).served).1, ?_, ?_⟩
  · obtain ⟨internal, final, allInternal, ran, _, finished⟩ :=
      @exists_run_of_measure _ _ (step CutStream.read) Internal System.work
        (Serving sessions) System.Finished
        (fun isInternal taken => internal_work isInternal taken)
        (fun held unfinished => held.progress well unfinished) s held
    exact ⟨internal, final, allInternal, ran, finished⟩
  · intro internal final allInternal ran
    have bound := length_le_of_measure
      (fun isInternal taken => internal_work isInternal taken) allInternal ran
    refine ⟨by omega, ?_⟩
    have guarded : Guarded (step CutStream.read) (fun _ action => Internal action) s internal :=
      Guarded.of_forall (fun _ action member => allInternal action member) s
    have heldFinal : Serving sessions final :=
      run_invariant (Serving sessions)
        (fun held isInternal taken => serving_step held isInternal taken) held guarded ran
    exact heldFinal.log well

/-- Users type `1+2`, `5`, and the count 0; every operand arrives on its own. -/
def threeSessions : List Session :=
  [⟨typed ⟨1, [(ascii '+', 2)]⟩, CArray.replicate Client.MAX 0#8, 0, 7, Locals.zero,
      fun _ => 4, 4⟩,
    ⟨typed ⟨5, []⟩, CArray.replicate Client.MAX 0#8, 0, 8, Locals.zero, fun _ => 4, 4⟩,
    ⟨zeros 0, CArray.replicate Client.MAX 0#8, 0, 9, Locals.zero, fun _ => 1, 0⟩]

def threeForks : List (Action (CutStream Byte)) :=
  threeSessions.map fun session =>
    .fork session.pid session.locals session.worker.connection

theorem sessions_logged_threeForks :
    ∃ internal final, ∃ lines : List (List Byte),
      run (step CutStream.read) (System.initial (CutStream Byte))
          (threeForks ++ internal) = some final ∧
        lines.Perm (threeSessions.filterMap Session.line) ∧ final.log = lines.flatten := by
  have well : ∀ session ∈ threeSessions, session.Well := by
    intro session member
    have cases : session = threeSessions[0] ∨ session = threeSessions[1] ∨
        session = threeSessions[2] := by
      simpa [threeSessions] using member
    rcases cases with rfl | rfl | rfl
    · exact ⟨.inr (by decide), fun _ _ _ => Nat.le_refl 4, fun _ => Nat.le_refl 4,
        fun _ => by decide +kernel⟩
    · exact ⟨.inr (by decide), fun _ _ _ => Nat.le_refl 4, fun _ => Nat.le_refl 4,
        fun _ => by decide +kernel⟩
    · have refused : threeSessions[2].input.Refused := by decide
      exact ⟨.inl refused, absurd refused, absurd refused, absurd refused⟩
  have reached : run (step CutStream.read) (System.initial (CutStream Byte)) threeForks =
      some { System.initial (CutStream Byte) with
        workers := threeSessions.map Session.worker } := rfl
  obtain ⟨_, ⟨internal, final, allInternal, ran, finished⟩, ends⟩ :=
    @sessions_logged threeSessions well _ _ rfl reached
  obtain ⟨_, logged⟩ := ends internal final allInternal ran
  obtain ⟨lines, permuted, log⟩ := logged finished
  exact ⟨internal, final, lines, run_append_of_eq_some reached ran, permuted, log⟩

end NetworkProgramming.Hw5
