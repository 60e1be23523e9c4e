import NetworkProgramming.Foundation.MachineInt
import NetworkProgramming.Foundation.Transition

/-!
# The mutex of `mutex.c`

`thread_inc` holds the mutex over its whole loop and `thread_des` over each
round of its own.  An update of `num` is a load and a store, which the mutex
keeps together.  So the count-down that `thread_des` prints jumps up once, at
any of its rounds or not at all, and the result is always zero.
-/

namespace NetworkProgramming.Hw8.Practice.Mutex

open MachineInt Transition

/-- The bound of both loops; no proof counts up to it. -/
@[irreducible] def ROUNDS : Nat := 50000

theorem ROUNDS_lt : (ROUNDS : Int) < 2 ^ 63 := by norm_num [ROUNDS]

/-- Where `thread_inc` is; `num++` is a load and a store. -/
inductive IncPoint where
  | lock
  | test
  | load
  | store (register : BitVec 64)
  | unlock
  | returned
deriving DecidableEq

/-- Where `thread_des` is; `num--` is a load and a store. -/
inductive DesPoint where
  | test
  | lock
  | printf
  | load
  | store (register : BitVec 64)
  | unlock
  | returned
deriving DecidableEq

/-- `main` behind its first loop. -/
inductive MainPoint where
  | joinDes
  | joinInc
  | printf
  | returned
deriving DecidableEq

/-- Who makes a step, or has the mutex. -/
inductive Thread where
  | main
  | inc
  | des
deriving DecidableEq

/-- The three threads and what they share. -/
structure State where
  num : BitVec 64
  /-- Who has locked the mutex. -/
  mutex : Option Thread
  incI : Nat
  inc : IncPoint
  desI : Nat
  des : DesPoint
  main : MainPoint
  stdout : List Byte

/-- Both threads were created. -/
def State.initial : State where
  num := 0
  mutex := none
  incI := 0
  inc := .lock
  desI := 0
  des := .test
  main := .joinDes
  stdout := []

/-- `"%lld\n"`. -/
def lineText (num : BitVec 64) : List Byte := decimal num.toInt ++ [ascii '\n']

/-- `"result: %lld \n"`. -/
def resultText (num : BitVec 64) : List Byte :=
  literal "result: " ++ decimal num.toInt ++ [ascii ' ', ascii '\n']

def step (s : State) : Thread → Option State
  | .inc =>
      match s.inc with
      | .lock =>
          if s.mutex = none then some { s with mutex := some .inc, inc := .test }
          else none
      | .test => some { s with inc := if s.incI < ROUNDS then .load else .unlock }
      | .load => some { s with inc := .store s.num }
      | .store register => some { s with
          num := register + 1
          incI := s.incI + 1
          inc := .test }
      | .unlock => some { s with mutex := none, inc := .returned }
      | .returned => none
  | .des =>
      match s.des with
      | .test => some { s with des := if s.desI < ROUNDS then .lock else .returned }
      | .lock =>
          if s.mutex = none then some { s with mutex := some .des, des := .printf }
          else none
      | .printf => some { s with stdout := s.stdout ++ lineText s.num, des := .load }
      | .load => some { s with des := .store s.num }
      | .store register => some { s with num := register - 1, des := .unlock }
      | .unlock => some { s with mutex := none, desI := s.desI + 1, des := .test }
      | .returned => none
  | .main =>
      match s.main with
      | .joinDes => if s.des = .returned then some { s with main := .joinInc } else none
      | .joinInc => if s.inc = .returned then some { s with main := .printf } else none
      | .printf => some { s with stdout := s.stdout ++ resultText s.num, main := .returned }
      | .returned => none

def State.Finished (s : State) : Prop := s.main = .returned

/-- What is printed when `thread_inc` comes behind `jump` rounds of `thread_des`. -/
def countdown (jump rounds : Nat) : List Byte :=
  (List.range rounds).flatMap fun round =>
    decimal (if round < jump then -(round : Int) else ROUNDS - round) ++ [ascii '\n']

def output (jump : Nat) : List Byte := countdown jump ROUNDS ++ resultText 0

/-- A step, by its thread and the place it is at. -/
inductive Moves (s : State) : Thread → State → Prop where
  | incLock (point : s.inc = .lock) (free : s.mutex = none) :
      Moves s .inc { s with mutex := some .inc, inc := .test }
  | incTest (point : s.inc = .test) :
      Moves s .inc { s with inc := if s.incI < ROUNDS then .load else .unlock }
  | incLoad (point : s.inc = .load) : Moves s .inc { s with inc := .store s.num }
  | incStore (register : BitVec 64) (point : s.inc = .store register) :
      Moves s .inc { s with num := register + 1, incI := s.incI + 1, inc := .test }
  | incUnlock (point : s.inc = .unlock) :
      Moves s .inc { s with mutex := none, inc := .returned }
  | desTest (point : s.des = .test) :
      Moves s .des { s with des := if s.desI < ROUNDS then .lock else .returned }
  | desLock (point : s.des = .lock) (free : s.mutex = none) :
      Moves s .des { s with mutex := some .des, des := .printf }
  | desPrintf (point : s.des = .printf) :
      Moves s .des { s with stdout := s.stdout ++ lineText s.num, des := .load }
  | desLoad (point : s.des = .load) : Moves s .des { s with des := .store s.num }
  | desStore (register : BitVec 64) (point : s.des = .store register) :
      Moves s .des { s with num := register - 1, des := .unlock }
  | desUnlock (point : s.des = .unlock) :
      Moves s .des { s with mutex := none, desI := s.desI + 1, des := .test }
  | joinDes (point : s.main = .joinDes) (ended : s.des = .returned) :
      Moves s .main { s with main := .joinInc }
  | joinInc (point : s.main = .joinInc) (ended : s.inc = .returned) :
      Moves s .main { s with main := .printf }
  | printf (point : s.main = .printf) :
      Moves s .main { s with stdout := s.stdout ++ resultText s.num, main := .returned }

theorem step_moves {s next : State} {thread : Thread}
    (taken : step s thread = some next) : Moves s thread next := by
  cases thread with
  | main =>
      cases point : s.main with
      | joinDes =>
          obtain ⟨ended, rfl⟩ : s.des = .returned ∧ _ = next := by
            simpa [step, point] using taken
          exact .joinDes point ended
      | joinInc =>
          obtain ⟨ended, rfl⟩ : s.inc = .returned ∧ _ = next := by
            simpa [step, point] using taken
          exact .joinInc point ended
      | printf =>
          simp only [step, point] at taken
          cases taken
          exact .printf point
      | returned => simp [step, point] at taken
  | inc =>
      cases point : s.inc with
      | lock =>
          obtain ⟨free, rfl⟩ : s.mutex = none ∧ _ = next := by
            simpa [step, point] using taken
          exact .incLock point free
      | test =>
          simp only [step, point] at taken
          cases taken
          exact .incTest point
      | load =>
          simp only [step, point] at taken
          cases taken
          exact .incLoad point
      | store register =>
          simp only [step, point] at taken
          cases taken
          exact .incStore register point
      | unlock =>
          simp only [step, point] at taken
          cases taken
          exact .incUnlock point
      | returned => simp [step, point] at taken
  | des =>
      cases point : s.des with
      | test =>
          simp only [step, point] at taken
          cases taken
          exact .desTest point
      | lock =>
          obtain ⟨free, rfl⟩ : s.mutex = none ∧ _ = next := by
            simpa [step, point] using taken
          exact .desLock point free
      | printf =>
          simp only [step, point] at taken
          cases taken
          exact .desPrintf point
      | load =>
          simp only [step, point] at taken
          cases taken
          exact .desLoad point
      | store register =>
          simp only [step, point] at taken
          cases taken
          exact .desStore register point
      | unlock =>
          simp only [step, point] at taken
          cases taken
          exact .desUnlock point
      | returned => simp [step, point] at taken

/-! ## What the mutex keeps -/

def IncPoint.inside : IncPoint → Bool
  | .lock | .returned => false
  | .test | .load | .store _ | .unlock => true

def DesPoint.inside : DesPoint → Bool
  | .test | .lock | .returned => false
  | .printf | .load | .store _ | .unlock => true

/-- The round that `thread_des` is in was printed, and was stored. -/
def DesPoint.printed : DesPoint → Bool
  | .load | .store _ | .unlock => true
  | .test | .lock | .printf | .returned => false

def DesPoint.stored : DesPoint → Bool
  | .unlock => true
  | .test | .lock | .printf | .load | .store _ | .returned => false

def State.prints (s : State) : Nat := s.desI + if s.des.printed then 1 else 0

def State.stores (s : State) : Nat := s.desI + if s.des.stored then 1 else 0

/-- The owner of the mutex is the thread inside, which has loaded what `num` is. -/
structure Exclusive (s : State) : Prop where
  inc : s.inc.inside = true ↔ s.mutex = some .inc
  des : s.des.inside = true ↔ s.mutex = some .des
  main : s.mutex ≠ some .main
  incRegister : ∀ register, s.inc = .store register → register = s.num
  desRegister : ∀ register, s.des = .store register → register = s.num

/-- `num` is what the rounds of both threads make it. -/
def State.Counted (s : State) : Prop := s.num = BitVec.ofInt 64 (s.incI - s.stores)

/-- How far the counters are when a thread is at its place. -/
structure Placed (s : State) : Prop where
  incStart : s.inc = .lock → s.incI = 0
  incBound : s.incI ≤ ROUNDS
  incLoop : (s.inc = .load ∨ ∃ register, s.inc = .store register) → s.incI < ROUNDS
  incEnd : s.inc = .unlock ∨ s.inc = .returned → s.incI = ROUNDS
  desBound : s.desI ≤ ROUNDS
  desLoop : s.des ≠ .test → s.des ≠ .returned → s.desI < ROUNDS
  desEnd : s.des = .returned → s.desI = ROUNDS
  joined : s.main ≠ .joinDes → s.des = .returned
  bothJoined : s.main = .printf ∨ s.main = .returned → s.inc = .returned

section invariant

variable {s next : State} {thread : Thread}

theorem placed_step (held : Placed s) (taken : step s thread = some next) :
    Placed next := by
  obtain ⟨incStart, incBound, incLoop, incEnd, desBound, desLoop, desEnd, joined,
    bothJoined⟩ := held
  cases step_moves taken <;> constructor <;> grind

theorem exclusive_step (held : Exclusive s) (taken : step s thread = some next) :
    Exclusive next := by
  obtain ⟨inc, des, main, incRegister, desRegister⟩ := held
  cases step_moves taken <;> constructor <;>
    grind [IncPoint.inside, DesPoint.inside]

theorem ofInt_add_one (value : Int) :
    BitVec.ofInt 64 value + 1 = BitVec.ofInt 64 (value + 1) := by
  rw [BitVec.ofInt_add]
  rfl

theorem ofInt_sub_one (value : Int) :
    BitVec.ofInt 64 value - 1 = BitVec.ofInt 64 (value - 1) := by
  rw [Int.sub_eq_add_neg, BitVec.ofInt_add, BitVec.sub_eq_add_neg]
  rfl

theorem counted_step (held : Exclusive s) (counted : s.Counted)
    (taken : step s thread = some next) : next.Counted := by
  unfold State.Counted at counted ⊢
  cases step_moves taken with
  | incStore register point =>
      have value : (s.incI : Int) - s.stores + 1 = (s.incI + 1 : Nat) - s.stores := by
        omega
      rw [held.incRegister register point, counted, ofInt_add_one, value]
      rfl
  | desStore register point =>
      have stores : s.stores = s.desI := by simp [State.stores, point, DesPoint.stored]
      have value : (s.incI : Int) - s.desI - 1 = s.incI - (s.desI + 1 : Nat) := by
        omega
      rw [held.desRegister register point, counted, ofInt_sub_one, stores, value]
      rfl
  | desTest point =>
      rw [counted]
      by_cases more : s.desI < ROUNDS <;> simp [State.stores, point, more, DesPoint.stored]
  | desLock point | desPrintf point | desLoad point | desUnlock point =>
      rw [counted]
      simp [State.stores, point, DesPoint.stored]
  | incLock | incTest | incLoad | incUnlock | joinDes | joinInc | printf => exact counted

end invariant

/-! ## What is printed -/

theorem countdown_succ (jump rounds : Nat) :
    countdown jump (rounds + 1) = countdown jump rounds ++
      (decimal (if rounds < jump then -(rounds : Int) else ROUNDS - rounds) ++
        [ascii '\n']) := by
  simp [countdown, List.range_succ]

theorem countdown_before {jump other rounds : Nat} (early : rounds ≤ jump)
    (otherEarly : rounds ≤ other) : countdown jump rounds = countdown other rounds := by
  induction rounds with
  | zero => rfl
  | succ rounds induction =>
      rw [countdown_succ, countdown_succ, induction (by omega) (by omega),
        if_pos (by omega), if_pos (by omega)]

/-- The rounds of `thread_des` in front of the section of `thread_inc`; all of them as
long as that has not begun. -/
structure Printed (jump : Nat) (s : State) : Prop where
  small : jump ≤ ROUNDS
  before : s.inc = .lock → jump = ROUNDS
  during : s.inc.inside = true → jump = s.prints
  behind : s.inc = .returned → jump ≤ s.prints
  text : s.stdout =
    countdown jump s.prints ++ if s.main = .returned then resultText s.num else []

/-- What holds in every state of a run. -/
structure Sound (s : State) : Prop where
  exclusive : Exclusive s
  placed : Placed s
  counted : s.Counted
  printed : ∃ jump, Printed jump s

section sound

variable {s next : State} {thread : Thread}

theorem Sound.running (sound : Sound s) (busy : s.inc ≠ .returned ∨ s.des ≠ .returned) :
    s.main ≠ .returned := by
  intro ended
  rcases busy with inc | des
  · exact inc (sound.placed.bothJoined (.inr ended))
  · exact des (sound.placed.joined (by simp [ended]))

theorem Sound.prints_le (sound : Sound s) : s.prints ≤ ROUNDS := by
  have bound := sound.placed.desBound
  have inside := sound.placed.desLoop
  have inLoop : s.des.printed = true → s.desI < ROUNDS := by
    intro printed
    refine inside ?_ ?_ <;> rintro point <;> simp [point, DesPoint.printed] at printed
  unfold State.prints
  split <;> rename_i printed
  · exact inLoop printed
  · exact bound

/-- What `thread_des` prints: `thread_inc` has not begun or has ended. -/
theorem Sound.value (sound : Sound s) {jump : Nat} (printed : Printed jump s)
    (point : s.des = .printf) :
    s.num.toInt = if s.desI < jump then -(s.desI : Int) else ROUNDS - s.desI := by
  have loop := sound.placed.desLoop (by simp [point]) (by simp [point])
  have bound := ROUNDS_lt
  have owner : s.mutex = some .des := sound.exclusive.des.mp (by simp [point, DesPoint.inside])
  have outside : s.inc = .lock ∨ s.inc = .returned := by
    have other := sound.exclusive.inc
    rw [owner] at other
    cases inc : s.inc <;> simp [inc, IncPoint.inside] at other ⊢
  have stores : s.stores = s.desI := by simp [State.stores, point, DesPoint.stored]
  have prints : s.prints = s.desI := by simp [State.prints, point, DesPoint.printed]
  have small (value : Int) (lower : -(2 ^ 63) ≤ value) (upper : value < 2 ^ 63) :
      (BitVec.ofInt 64 value).toInt = value :=
    BitVec.toInt_ofInt_eq_self (by norm_num) (by simpa using lower) (by simpa using upper)
  have counted : s.num = _ := sound.counted
  rw [counted, stores]
  rcases outside with inc | inc
  · rw [sound.placed.incStart inc, printed.before inc, if_pos loop, small] <;> omega
  · have late := printed.behind inc
    rw [sound.placed.incEnd (.inr inc), if_neg (by omega), small] <;> omega

theorem prints_step (taken : step s thread = some next)
    (other : ¬ (thread = .des ∧ s.des = .printf)) : next.prints = s.prints := by
  cases step_moves taken <;> grind [State.prints, DesPoint.printed]

theorem printed_step (sound : Sound s) (taken : step s thread = some next) :
    ∃ jump, Printed jump next := by
  obtain ⟨jump, printed⟩ := sound.printed
  have running := sound.running
  have text := printed.text
  have prints := prints_step taken
  cases step_moves taken with
  | incLock point free =>
      have early := sound.prints_le
      rw [countdown_before (printed.before point ▸ early) (Nat.le_refl _)] at text
      exact ⟨s.prints, early, by simp, fun _ => rfl, by simp, text⟩
  | incTest point =>
      have during := printed.during (by rw [point]; rfl)
      refine ⟨jump, printed.small, ?_, fun _ => during, ?_, text⟩ <;>
        by_cases more : s.incI < ROUNDS <;> simp [more]
  | incLoad point =>
      have during := printed.during (by rw [point]; rfl)
      exact ⟨jump, printed.small, by simp, fun _ => during, by simp, text⟩
  | incStore register point =>
      have during := printed.during (by rw [point]; rfl)
      have busy := running (.inl (by simp [point]))
      rw [if_neg busy] at text
      exact ⟨jump, printed.small, by simp, fun _ => during, by simp, by rwa [if_neg busy]⟩
  | incUnlock point =>
      have during := printed.during (by rw [point]; rfl)
      exact ⟨jump, printed.small, by simp, by simp [IncPoint.inside], fun _ => during.le, text⟩
  | desTest point | desLock point | desLoad point | desUnlock point =>
      have same := prints (by simp [point])
      exact ⟨jump, printed.small, printed.before, by rw [same]; exact printed.during,
        by rw [same]; exact printed.behind, by rw [same]; exact text⟩
  | desStore register point =>
      have same := prints (by simp [point])
      have busy := running (.inr (by simp [point]))
      rw [if_neg busy] at text
      exact ⟨jump, printed.small, printed.before, by rw [same]; exact printed.during,
        by rw [same]; exact printed.behind, by rw [same, if_neg busy]; exact text⟩
  | desPrintf point =>
      have busy := running (.inr (by simp [point]))
      have outside : s.inc.inside = false := by
        have owner := sound.exclusive.des.mp (by simp [point, DesPoint.inside])
        simpa [owner] using sound.exclusive.inc
      have before : s.prints = s.desI := by simp [State.prints, point, DesPoint.printed]
      have behind : State.prints { s with
          stdout := s.stdout ++ lineText s.num, des := .load } = s.prints + 1 := by
        simp [State.prints, point, DesPoint.printed]
      refine ⟨jump, printed.small, printed.before, by simp [outside], ?_, ?_⟩
      · intro ended
        have late := printed.behind ended
        omega
      · rw [if_neg busy, List.append_nil] at text ⊢
        rw [behind, countdown_succ, text, before, lineText, sound.value printed point]
  | joinDes point | joinInc point =>
      have same := prints (by simp)
      rw [if_neg (by simp [point])] at text
      exact ⟨jump, printed.small, printed.before, printed.during, printed.behind, text⟩
  | printf point =>
      have same := prints (by simp)
      rw [if_neg (by simp [point]), List.append_nil] at text
      exact ⟨jump, printed.small, printed.before, printed.during, printed.behind,
        by rw [same, if_pos rfl, text]⟩

theorem sound_run {threads : List Thread} (reached : run step State.initial threads = some s) :
    Sound s := by
  refine run_invariant_of_step Sound ?_ ?_ reached
  · intro state thread next sound taken
    exact ⟨exclusive_step sound.exclusive taken, placed_step sound.placed taken,
      counted_step sound.exclusive sound.counted taken, printed_step sound taken⟩
  · refine ⟨?_, ?_, rfl, ROUNDS, Nat.le_refl _, fun _ => rfl, ?_, ?_, rfl⟩
    · constructor <;> simp [State.initial, IncPoint.inside, DesPoint.inside]
    · constructor <;> simp [State.initial]
    · simp [State.initial, IncPoint.inside]
    · simp [State.initial]

end sound

theorem Sound.output {s : State} (sound : Sound s) (finished : s.Finished) :
    ∃ jump ≤ ROUNDS, s.stdout = output jump := by
  obtain ⟨jump, printed⟩ := sound.printed
  have ended : s.main = .returned := finished
  have des := sound.placed.joined (by simp [ended])
  have inc := sound.placed.bothJoined (.inr ended)
  have rounds := sound.placed.desEnd des
  have counted : s.num = _ := sound.counted
  have prints : s.prints = ROUNDS := by simp [State.prints, des, rounds, DesPoint.printed]
  have stores : s.stores = ROUNDS := by simp [State.stores, des, rounds, DesPoint.stored]
  rw [sound.placed.incEnd (.inr inc), stores, Int.sub_self] at counted
  refine ⟨jump, printed.small, ?_⟩
  rw [printed.text, prints, if_pos ended, counted]
  rfl

/-! ## The threads end -/

def State.incWork (s : State) : Nat :=
  match s.inc with
  | .lock => 3 * (ROUNDS - s.incI) + 3
  | .test => 3 * (ROUNDS - s.incI) + 2
  | .load => 3 * (ROUNDS - (s.incI + 1)) + 4
  | .store _ => 3 * (ROUNDS - (s.incI + 1)) + 3
  | .unlock => 1
  | .returned => 0

def State.desWork (s : State) : Nat :=
  match s.des with
  | .test => 6 * (ROUNDS - s.desI) + 1
  | .lock => 6 * (ROUNDS - (s.desI + 1)) + 6
  | .printf => 6 * (ROUNDS - (s.desI + 1)) + 5
  | .load => 6 * (ROUNDS - (s.desI + 1)) + 4
  | .store _ => 6 * (ROUNDS - (s.desI + 1)) + 3
  | .unlock => 6 * (ROUNDS - (s.desI + 1)) + 2
  | .returned => 0

def MainPoint.work : MainPoint → Nat
  | .joinDes => 3
  | .joinInc => 2
  | .printf => 1
  | .returned => 0

def State.work (s : State) : Nat := s.incWork + s.desWork + s.main.work

theorem work_lowers {s next : State} {thread : Thread}
    (taken : step s thread = some next) : next.work < s.work := by
  cases step_moves taken with
  | incTest point =>
      by_cases more : s.incI < ROUNDS <;>
        simp only [State.work, State.incWork, State.desWork, point, more, if_true, if_false] <;>
        omega
  | desTest point =>
      by_cases more : s.desI < ROUNDS <;>
        simp only [State.work, State.incWork, State.desWork, point, more, if_true, if_false] <;>
        omega
  | incLock point | incLoad point | incStore _ point | incUnlock point | desLock point
  | desPrintf point | desLoad point | desStore _ point | desUnlock point | joinDes point
  | joinInc point | printf point =>
      simp only [State.work, State.incWork, State.desWork, MainPoint.work, point]
      omega

/-- The owner of the mutex can always go on, and without an owner everybody can. -/
theorem progress {s : State} (sound : Sound s) (unfinished : ¬ s.Finished) :
    ∃ thread next, step s thread = some next := by
  cases owner : s.mutex with
  | some thread =>
      cases thread with
      | main => exact absurd owner sound.exclusive.main
      | inc =>
          have inside := sound.exclusive.inc.mpr owner
          refine ⟨.inc, ?_⟩
          cases point : s.inc <;> simp [point, IncPoint.inside, step] at inside ⊢
      | des =>
          have inside := sound.exclusive.des.mpr owner
          refine ⟨.des, ?_⟩
          cases point : s.des <;> simp [point, DesPoint.inside, step] at inside ⊢
  | none =>
      have incOutside : s.inc.inside = false := by simpa [owner] using sound.exclusive.inc
      have desOutside : s.des.inside = false := by simpa [owner] using sound.exclusive.des
      cases inc : s.inc with
      | lock => exact ⟨.inc, by simp [step, inc, owner]⟩
      | returned =>
          cases des : s.des with
          | test => exact ⟨.des, by simp [step, des]⟩
          | lock => exact ⟨.des, by simp [step, des, owner]⟩
          | returned =>
              refine ⟨.main, ?_⟩
              cases main : s.main with
              | joinDes => simp [step, main, des]
              | joinInc => simp [step, main, inc]
              | printf => simp [step, main]
              | returned => exact absurd main unfinished
          | printf | load | store | unlock => simp [des, DesPoint.inside] at desOutside
      | test | load | store | unlock => simp [inc, IncPoint.inside] at incOutside

/-- No order of the steps makes the threads wait for each other for ever. -/
theorem ends {threads : List Thread} {s : State}
    (reached : run step State.initial threads = some s) :
    threads.length ≤ 9 * ROUNDS + 7 ∧
      (s.Finished ∨ ∃ thread next, step s thread = some next) := by
  obtain ⟨bound, goesOn⟩ :=
    ends_of_measure work_lowers progress (sound_run reached) reached
  refine ⟨?_, goesOn⟩
  have first : State.initial.work = 3 * ROUNDS + 3 + (6 * ROUNDS + 1) + 3 := rfl
  omega

/-- `thread_inc` is inside, so `thread_des` waits in front of its first round. -/
theorem ends_waiting :
    ∃ s, run step State.initial [.inc, .des] = some s ∧ step s .des = none ∧
      (s.Finished ∨ ∃ thread next, step s thread = some next) := by
  have some_ : 0 < ROUNDS := by simp [ROUNDS]
  obtain ⟨s, reached, waits⟩ : ∃ s, run step State.initial [.inc, .des] = some s ∧
      step s .des = none := by
    simp [run_cons, step, State.initial, some_]
  exact ⟨s, reached, waits, (ends reached).2⟩

/-! ## Every jump is possible -/

/-- Between two rounds of `thread_des`, outside `thread_inc`. -/
def State.between (incI : Nat) (inc : IncPoint) (num : Int) (desI : Nat)
    (stdout : List Byte) : State where
  num := BitVec.ofInt 64 num
  mutex := none
  incI := incI
  inc := inc
  desI := desI
  des := .test
  main := .joinDes
  stdout := stdout

theorem run_round {incI desI : Nat} {inc : IncPoint} {num : Int} {stdout : List Byte}
    (more : desI < ROUNDS) (lower : -ROUNDS ≤ num) (upper : num ≤ ROUNDS) :
    run step (State.between incI inc num desI stdout) (List.replicate 6 .des) =
      some (State.between incI inc (num - 1) (desI + 1)
        (stdout ++ (decimal num ++ [ascii '\n']))) := by
  have bound := ROUNDS_lt
  have value : (BitVec.ofInt 64 num).toInt = num :=
    BitVec.toInt_ofInt_eq_self (by norm_num) (by norm_num; omega) (by norm_num; omega)
  have printed : lineText (BitVec.ofInt 64 num) = decimal num ++ [ascii '\n'] := by
    rw [lineText, value]
  simp only [List.replicate_succ, List.replicate_zero, run_cons, run_nil, State.between, step,
    more, if_true, Option.bind_some, printed, ofInt_sub_one]

theorem run_loop {incI desI : Nat} {num : Int} {stdout : List Byte} (bound : incI ≤ ROUNDS) :
    ∃ threads, run step
        { State.between incI .test num desI stdout with mutex := some .inc } threads =
      some { State.between ROUNDS .test (num + (ROUNDS - incI)) desI stdout with
        mutex := some .inc } := by
  induction left : ROUNDS - incI generalizing incI num with
  | zero =>
      have last : incI = ROUNDS := by omega
      exact ⟨[], by simp [last]⟩
  | succ left induction =>
      have more : incI < ROUNDS := by omega
      obtain ⟨threads, rest⟩ := @induction (incI + 1) (num + 1) more (by omega)
      have value : num + 1 + (ROUNDS - (incI + 1 : Nat)) = num + (ROUNDS - incI : Int) := by
        omega
      rw [value] at rest
      refine ⟨[.inc, .inc, .inc] ++ threads, run_append_of_eq_some ?_ rest⟩
      simp only [run_cons, run_nil, State.between, step, more, if_true, Option.bind_some,
        ofInt_add_one]

theorem run_section {desI : Nat} {num : Int} {stdout : List Byte} :
    ∃ threads, run step (State.between 0 .lock num desI stdout) threads =
      some (State.between ROUNDS .returned (num + ROUNDS) desI stdout) := by
  obtain ⟨threads, loop⟩ := @run_loop 0 desI num stdout (by omega)
  have entered : run step (State.between 0 .lock num desI stdout) [.inc] =
      some { State.between 0 .test num desI stdout with mutex := some .inc } := rfl
  have left : run step { State.between ROUNDS .test (num + (ROUNDS - (0 : Nat))) desI stdout with
      mutex := some .inc } [.inc, .inc] =
      some (State.between ROUNDS .returned (num + ROUNDS) desI stdout) := by
    simp [run_cons, run_nil, State.between, step]
  exact ⟨_, run_append_of_eq_some (run_append_of_eq_some entered loop) left⟩

theorem reaches_before {jump : Nat} (bound : jump ≤ ROUNDS) :
    ∃ threads, run step State.initial threads =
      some (State.between 0 .lock (-jump) jump (countdown jump jump)) := by
  have rounds : ∀ desI ≤ jump, ∃ threads, run step State.initial threads =
      some (State.between 0 .lock (-desI) desI (countdown jump desI)) := by
    intro desI
    induction desI with
    | zero => exact fun _ => ⟨[], rfl⟩
    | succ desI induction =>
        intro inside
        obtain ⟨threads, reached⟩ := induction (by omega)
        have next := @run_round 0 desI .lock (-desI) (countdown jump desI) (by omega) (by omega)
          (by omega)
        refine ⟨_, run_append_of_eq_some reached (next.trans ?_)⟩
        rw [countdown_succ, if_pos (by omega)]
        congr 2
        omega
  exact rounds jump (Nat.le_refl _)

theorem reaches_behind {jump : Nat} (bound : jump ≤ ROUNDS) :
    ∃ threads, run step State.initial threads =
      some (State.between ROUNDS .returned 0 ROUNDS (countdown jump ROUNDS)) := by
  have rounds : ∀ desI ≥ jump, desI ≤ ROUNDS → ∃ threads, run step State.initial threads =
      some (State.between ROUNDS .returned (ROUNDS - desI) desI (countdown jump desI)) := by
    intro desI behind
    induction desI, behind using Nat.le_induction with
    | base =>
        intro _
        obtain ⟨before, first⟩ := reaches_before bound
        obtain ⟨loop, second⟩ := @run_section jump (-jump) (countdown jump jump)
        refine ⟨_, run_append_of_eq_some first (second.trans ?_)⟩
        congr 2
        omega
    | succ desI behind induction =>
        intro inside
        obtain ⟨threads, reached⟩ := induction (by omega)
        have next := @run_round ROUNDS desI .returned (ROUNDS - desI) (countdown jump desI)
          (by omega) (by omega) (by omega)
        refine ⟨_, run_append_of_eq_some reached (next.trans ?_)⟩
        rw [countdown_succ, if_neg (by omega)]
        congr 2
        omega
  have all := rounds ROUNDS bound (Nat.le_refl _)
  rwa [Int.sub_self] at all

/-- A finished run prints the count-down with one jump of `ROUNDS`, in front of any of its
lines or behind all of them, and the result zero; and every such text is printed by
some run. -/
theorem printed_iff {stdout : List Byte} :
    (∃ threads s, run step State.initial threads = some s ∧ s.Finished ∧
      s.stdout = stdout) ↔ ∃ jump ≤ ROUNDS, stdout = output jump := by
  constructor
  · rintro ⟨threads, s, reached, finished, rfl⟩
    exact (sound_run reached).output finished
  · rintro ⟨jump, bound, rfl⟩
    obtain ⟨threads, reached⟩ := reaches_behind bound
    have rest : run step (State.between ROUNDS .returned 0 ROUNDS (countdown jump ROUNDS))
        [.des, .main, .main, .main] =
        some { State.between ROUNDS .returned 0 ROUNDS (output jump) with
          des := .returned
          main := .returned } := by
      simp [run_cons, run_nil, State.between, step, output]
    exact ⟨_, _, run_append_of_eq_some reached rest, rfl, rfl⟩

end NetworkProgramming.Hw8.Practice.Mutex
