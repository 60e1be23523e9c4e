import NetworkProgramming.Foundation.Handoff
import NetworkProgramming.Foundation.MachineInt

/-!
# The two semaphores of `semaphore.c`

One thread reads five numbers into `num`, the other adds what stands there to its
sum.  The threads keep up the steps of a hand-over, so every number is added
once whatever the order of the steps, and the program always prints the same
text.  After a `scanf` that fails the old number is added again.
-/

namespace NetworkProgramming.Hw8.Practice.Semaphore

open MachineInt Transition Handoff

/-- The bound of both loops. -/
def ROUNDS : Nat := 5

/-- Where the thread `read` is. -/
inductive ReadPoint where
  /-- The test of the loop, and `fputs` behind it. -/
  | test
  | wait
  | scanf
  | post
  | returned
deriving DecidableEq

/-- Where the thread `accu` is. -/
inductive AccuPoint where
  | test
  | wait
  | add
  | post
  | printf
  | returned
deriving DecidableEq

/-- The two threads and what they share. -/
structure State where
  sem_one : Nat
  sem_two : Nat
  num : Word
  /-- The counter and the place of the thread `read`. -/
  readI : Nat
  read : ReadPoint
  accuI : Nat
  sum : Word
  accu : AccuPoint
  stdout : List Byte

/-- Both threads were created; `num` is static. -/
def State.initial : State where
  sem_one := 0
  sem_two := 1
  num := 0
  readI := 0
  read := .test
  accuI := 0
  sum := 0
  accu := .test
  stdout := []

/-- Who makes a step. -/
inductive Thread where
  | read
  | accu
deriving DecidableEq

/-- `"Input num: "`. -/
def prompt : List Byte := literal "Input num: "

/-- `"Result: %d \n"`. -/
def resultText (sum : Word) : List Byte :=
  literal "Result: " ++ decimal sum.toInt ++ [ascii ' ', ascii '\n']

/-- The next step of a thread.  `scanned` says what the `scanf` with this number
assigns; at a failure `num` stays as it is. -/
def step (scanned : Nat → Option Word) (s : State) : Thread → Option State
  | .read =>
      match s.read with
      | .test =>
          if s.readI < ROUNDS then
            some { s with stdout := s.stdout ++ prompt, read := .wait }
          else some { s with read := .returned }
      | .wait => do
          let count ← semWait s.sem_two
          return { s with sem_two := count, read := .scanf }
      | .scanf => some { s with num := (scanned s.readI).getD s.num, read := .post }
      | .post => some { s with
          sem_one := semPost s.sem_one
          readI := s.readI + 1
          read := .test }
      | .returned => none
  | .accu =>
      match s.accu with
      | .test =>
          if s.accuI < ROUNDS then some { s with accu := .wait }
          else some { s with accu := .printf }
      | .wait => do
          let count ← semWait s.sem_one
          return { s with sem_one := count, accu := .add }
      | .add => some { s with sum := s.sum + s.num, accu := .post }
      | .post => some { s with
          sem_two := semPost s.sem_two
          accuI := s.accuI + 1
          accu := .test }
      | .printf => some { s with
          stdout := s.stdout ++ resultText s.sum
          accu := .returned }
      | .returned => none

def State.Finished (s : State) : Prop := s.read = .returned ∧ s.accu = .returned

/-- `num` behind so many calls of `scanf`. -/
def numAfter (scanned : Nat → Option Word) : Nat → Word
  | 0 => 0
  | count + 1 => (scanned count).getD (numAfter scanned count)

def numbers (scanned : Nat → Option Word) (count : Nat) : List Word :=
  (List.range count).map fun round => numAfter scanned (round + 1)

def output (scanned : Nat → Option Word) : List Byte :=
  (List.replicate ROUNDS prompt).flatten ++ resultText (numbers scanned ROUNDS).sum

theorem numbers_succ (scanned : Nat → Option Word) (count : Nat) :
    numbers scanned (count + 1) =
      numbers scanned count ++ [numAfter scanned (count + 1)] := by
  simp [numbers, List.range_succ]

/-- With a number for each `scanf`, the sum is the one of these numbers. -/
theorem output_of_scanned {scanned : Nat → Option Word} {values : Nat → Word}
    (given : ∀ round < ROUNDS, scanned round = some (values round)) :
    output scanned = (List.replicate ROUNDS prompt).flatten ++
      resultText ((List.range ROUNDS).map values).sum := by
  have same : numbers scanned ROUNDS = (List.range ROUNDS).map values := by
    refine List.map_congr_left fun round inside => ?_
    rw [numAfter, given round (List.mem_range.mp inside), Option.getD_some]
  rw [output, same]

/-- A step, by its thread and the place it is at. -/
inductive Moves (scanned : Nat → Option Word) (s : State) : Thread → State → Prop where
  | fputs (point : s.read = .test) (more : s.readI < ROUNDS) :
      Moves scanned s .read { s with stdout := s.stdout ++ prompt, read := .wait }
  | readReturns (point : s.read = .test) (through : ¬ s.readI < ROUNDS) :
      Moves scanned s .read { s with read := .returned }
  | waitTwo (count : Nat) (point : s.read = .wait) (waited : s.sem_two = count + 1) :
      Moves scanned s .read { s with sem_two := count, read := .scanf }
  | scanf (point : s.read = .scanf) :
      Moves scanned s .read
        { s with num := (scanned s.readI).getD s.num, read := .post }
  | postOne (point : s.read = .post) :
      Moves scanned s .read { s with
        sem_one := semPost s.sem_one
        readI := s.readI + 1
        read := .test }
  | again (point : s.accu = .test) (more : s.accuI < ROUNDS) :
      Moves scanned s .accu { s with accu := .wait }
  | through (point : s.accu = .test) (through : ¬ s.accuI < ROUNDS) :
      Moves scanned s .accu { s with accu := .printf }
  | waitOne (count : Nat) (point : s.accu = .wait) (waited : s.sem_one = count + 1) :
      Moves scanned s .accu { s with sem_one := count, accu := .add }
  | add (point : s.accu = .add) :
      Moves scanned s .accu { s with sum := s.sum + s.num, accu := .post }
  | postTwo (point : s.accu = .post) :
      Moves scanned s .accu { s with
        sem_two := semPost s.sem_two
        accuI := s.accuI + 1
        accu := .test }
  | printf (point : s.accu = .printf) :
      Moves scanned s .accu { s with
        stdout := s.stdout ++ resultText s.sum
        accu := .returned }

theorem step_moves {scanned : Nat → Option Word} {s next : State} {thread : Thread}
    (taken : step scanned s thread = some next) : Moves scanned s thread next := by
  cases thread with
  | read =>
      cases point : s.read with
      | test =>
          simp only [step, point] at taken
          split at taken <;> rename_i bound
          · cases taken
            exact .fputs point bound
          · cases taken
            exact .readReturns point bound
      | wait =>
          simp only [step, point, Option.bind_eq_bind, Option.bind_eq_some_iff] at taken
          obtain ⟨count, waited, result⟩ := taken
          cases result
          exact .waitTwo count point (semWait_eq_some.mp waited)
      | scanf =>
          simp only [step, point] at taken
          cases taken
          exact .scanf point
      | post =>
          simp only [step, point] at taken
          cases taken
          exact .postOne point
      | returned => simp [step, point] at taken
  | accu =>
      cases point : s.accu with
      | test =>
          simp only [step, point] at taken
          split at taken <;> rename_i bound
          · cases taken
            exact .again point bound
          · cases taken
            exact .through point bound
      | wait =>
          simp only [step, point, Option.bind_eq_bind, Option.bind_eq_some_iff] at taken
          obtain ⟨count, waited, result⟩ := taken
          cases result
          exact .waitOne count point (semWait_eq_some.mp waited)
      | add =>
          simp only [step, point] at taken
          cases taken
          exact .add point
      | post =>
          simp only [step, point] at taken
          cases taken
          exact .postTwo point
      | printf =>
          simp only [step, point] at taken
          cases taken
          exact .printf point
      | returned => simp [step, point] at taken

/-! ## The hand-over -/

def ReadPoint.turn : ReadPoint → Turn
  | .scanf => .entered
  | .post => .accessed
  | .test | .wait | .returned => .outside

def AccuPoint.turn : AccuPoint → Turn
  | .add => .entered
  | .post => .accessed
  | .test | .wait | .printf | .returned => .outside

/-- How many numbers a thread is through with. -/
def State.readCount (s : State) : Nat := s.readI + if s.read = .post then 1 else 0

def State.accuCount (s : State) : Nat := s.accuI + if s.accu = .post then 1 else 0

/-- How often the prompt was printed. -/
def State.prompts (s : State) : Nat :=
  s.readI + if s.read = .test ∨ s.read = .returned then 0 else 1

/-- The counters and the places of the loops. -/
structure Placed (s : State) : Prop where
  readBound : s.readI ≤ ROUNDS
  readInside : s.read ≠ .test → s.read ≠ .returned → s.readI < ROUNDS
  readEnd : s.read = .returned → s.readI = ROUNDS
  accuBound : s.accuI ≤ ROUNDS
  accuInside : s.accu = .wait ∨ s.accu = .add ∨ s.accu = .post → s.accuI < ROUNDS
  accuEnd : s.accu = .printf ∨ s.accu = .returned → s.accuI = ROUNDS

/-- A state of the program and a state of the hand-over through `num`. -/
structure Related (scanned : Nat → Option Word) (s : State) (image : Handoff.State Word) :
    Prop where
  free : image.free = s.sem_two
  full : image.full = s.sem_one
  slot : image.slot = s.num
  producer : image.producer = s.read.turn
  consumer : image.consumer = s.accu.turn
  stored : image.stored = numbers scanned s.readCount
  num : s.num = numAfter scanned s.readCount
  taken : image.taken.length = s.accuCount
  sum : s.sum = image.taken.sum

theorem related_initial (scanned : Nat → Option Word) :
    Related scanned State.initial (Handoff.State.initial 0) where
  free := rfl
  full := rfl
  slot := rfl
  producer := rfl
  consumer := rfl
  stored := rfl
  num := rfl
  taken := rfl
  sum := rfl

theorem related_step {scanned : Nat → Option Word} {s next : State} {thread : Thread}
    {image : Handoff.State Word} (related : Related scanned s image)
    (taken : step scanned s thread = some next) :
    ∃ actions imageNext, run Handoff.step image actions = some imageNext ∧
      Related scanned next imageNext := by
  obtain ⟨free, full, slot, producer, consumer, stored, num, count, sum⟩ := related
  have counted : s.read ≠ .post → s.readCount = s.readI := by
    intro other
    simp [State.readCount, other]
  cases step_moves taken with
  | fputs point =>
      rw [counted (by simp [point])] at stored num
      exact ⟨[], image, rfl, free, full, slot, by rw [producer, point]; rfl, consumer,
        by simpa [State.readCount] using stored, by simpa [State.readCount] using num,
        count, sum⟩
  | readReturns point =>
      rw [counted (by simp [point])] at stored num
      exact ⟨[], image, rfl, free, full, slot, by rw [producer, point]; rfl, consumer,
        by simpa [State.readCount] using stored, by simpa [State.readCount] using num,
        count, sum⟩
  | waitTwo permits point waited =>
      rw [point] at producer
      rw [counted (by simp [point])] at stored num
      refine ⟨[.waitFree], { image with free := permits, producer := .entered }, ?_, rfl,
        full, slot, rfl, consumer, ?_, ?_, count, sum⟩
      · simp [Handoff.step, producer, ReadPoint.turn, free, waited, semWait]
      · simpa [State.readCount] using stored
      · simpa [State.readCount] using num
  | scanf point =>
      rw [point] at producer
      rw [counted (by simp [point])] at stored num
      have value : (scanned s.readI).getD s.num = numAfter scanned (s.readI + 1) := by
        rw [num]
        rfl
      refine ⟨[.store (numAfter scanned (s.readI + 1))],
        { image with
          slot := numAfter scanned (s.readI + 1)
          stored := image.stored ++ [numAfter scanned (s.readI + 1)]
          producer := .accessed }, ?_, free, full, value.symm, rfl, consumer, ?_, ?_,
        count, sum⟩
      · simp [Handoff.step, producer, ReadPoint.turn]
      · simp [State.readCount, stored, numbers_succ]
      · simpa [State.readCount] using value
  | postOne point =>
      rw [point] at producer
      refine ⟨[.postFull],
        { image with full := semPost image.full, producer := .outside }, ?_, free,
        by rw [full], slot, rfl, consumer, ?_, ?_, count, sum⟩
      · simp [Handoff.step, producer, ReadPoint.turn]
      · simpa [State.readCount, point] using stored
      · simpa [State.readCount, point] using num
  | again point =>
      exact ⟨[], image, rfl, free, full, slot, producer, by rw [consumer, point]; rfl,
        stored, num, by simpa [State.accuCount, point] using count, sum⟩
  | through point =>
      exact ⟨[], image, rfl, free, full, slot, producer, by rw [consumer, point]; rfl,
        stored, num, by simpa [State.accuCount, point] using count, sum⟩
  | waitOne permits point waited =>
      rw [point] at consumer
      refine ⟨[.waitFull], { image with full := permits, consumer := .entered }, ?_, free,
        rfl, slot, producer, rfl, stored, num, ?_, sum⟩
      · simp [Handoff.step, consumer, AccuPoint.turn, full, waited, semWait]
      · simpa [State.accuCount, point] using count
  | add point =>
      rw [point] at consumer
      refine ⟨[.take],
        { image with taken := image.taken ++ [image.slot], consumer := .accessed }, ?_,
        free, full, slot, producer, rfl, stored, num, ?_, ?_⟩
      · simp [Handoff.step, consumer, AccuPoint.turn]
      · simpa [State.accuCount, point] using count
      · simp [sum, slot]
  | postTwo point =>
      rw [point] at consumer
      refine ⟨[.postFree],
        { image with free := semPost image.free, consumer := .outside }, ?_,
        by rw [free], full, slot, producer, rfl, stored, num, ?_, sum⟩
      · simp [Handoff.step, consumer, AccuPoint.turn]
      · simpa [State.accuCount, point] using count
  | printf point =>
      exact ⟨[], image, rfl, free, full, slot, producer, by rw [consumer, point]; rfl,
        stored, num, by simpa [State.accuCount, point] using count, sum⟩

theorem placed_step {scanned : Nat → Option Word} {s next : State} {thread : Thread}
    (held : Placed s) (taken : step scanned s thread = some next) : Placed next := by
  obtain ⟨readBound, readInside, readEnd, accuBound, accuInside, accuEnd⟩ := held
  cases step_moves taken <;> constructor <;> grind

/-! ## Every run -/

/-- What stands in the output: the prompts, and the result behind the last of them. -/
def State.printed (s : State) : List Byte :=
  (List.replicate s.prompts prompt).flatten ++
    if s.accu = .returned then resultText s.sum else []

/-- The state is one of a hand-over, with the numbers as its values. -/
structure Sound (scanned : Nat → Option Word) (s : State) (image : Handoff.State Word) :
    Prop where
  exclusive : Exclusive image
  related : Related scanned s image
  placed : Placed s
  printed : s.stdout = s.printed

section sound

variable {scanned : Nat → Option Word} {s : State} {image : Handoff.State Word}

theorem Sound.counts (sound : Sound scanned s image) :
    s.readCount = s.accuCount + image.pending.length := by
  have length := sound.exclusive.length_stored
  rw [sound.related.stored, sound.related.taken] at length
  simpa [numbers] using length

/-- Behind the loop of `accu` every number was added, and read before that. -/
theorem Sound.through (sound : Sound scanned s image)
    (ended : s.accu = .printf ∨ s.accu = .returned) :
    s.sum = (numbers scanned ROUNDS).sum ∧ ROUNDS ≤ s.readCount := by
  have counts := sound.counts
  have accuCount : s.accuCount = ROUNDS := by
    have end_ := sound.placed.accuEnd ended
    rcases ended with point | point <;> simp [State.accuCount, point, end_]
  have readCount : s.readCount ≤ ROUNDS := by
    have bound := sound.placed.readBound
    have inside := sound.placed.readInside
    unfold State.readCount
    split <;> rename_i point
    · exact inside (by simp [point]) (by simp [point])
    · exact bound
  have drained : image.pending = [] := List.eq_nil_of_length_eq_zero (by omega)
  have kept := sound.exclusive.kept
  rw [drained, List.append_nil, sound.related.stored] at kept
  rw [sound.related.sum, ← kept, show s.readCount = ROUNDS by omega]
  exact ⟨rfl, Nat.le_refl _⟩

theorem sound_step {next : State} {thread : Thread} (sound : Sound scanned s image)
    (taken : step scanned s thread = some next) :
    ∃ actions imageNext, run Handoff.step image actions = some imageNext ∧
      Sound scanned next imageNext := by
  obtain ⟨actions, imageNext, handed, related⟩ := related_step sound.related taken
  have exclusive : Exclusive imageNext := run_invariant_of_step Exclusive
    (fun held moved => exclusive_step held moved) sound.exclusive handed
  refine ⟨actions, imageNext, handed, exclusive, related, placed_step sound.placed taken, ?_⟩
  have printed := sound.printed
  cases step_moves taken with
  | fputs point more =>
      -- A prompt never comes behind the result, which stands behind all of them.
      have running : s.accu ≠ .returned := by
        intro returned
        have all := (sound.through (.inr returned)).2
        simp only [State.readCount, point, reduceCtorEq, if_false] at all
        omega
      simpa [State.printed, State.prompts, point, running, List.replicate_succ'] using printed
  | readReturns point => simpa [State.printed, State.prompts, point] using printed
  | waitTwo permits point => simpa [State.printed, State.prompts, point] using printed
  | scanf point => simpa [State.printed, State.prompts, point] using printed
  | postOne point => simpa [State.printed, State.prompts, point] using printed
  | again point => simpa [State.printed, State.prompts, point] using printed
  | through point => simpa [State.printed, State.prompts, point] using printed
  | waitOne permits point => simpa [State.printed, State.prompts, point] using printed
  | add point => simpa [State.printed, State.prompts, point] using printed
  | postTwo point => simpa [State.printed, State.prompts, point] using printed
  | printf point => simpa [State.printed, State.prompts, point] using printed

/-- Every run of the program is a run of the hand-over. -/
theorem sound_run {threads : List Thread}
    (reached : run (step scanned) State.initial threads = some s) :
    ∃ image, Sound scanned s image := by
  have initially : Sound scanned State.initial (Handoff.State.initial 0) :=
    ⟨exclusive_initial 0, related_initial scanned,
      by constructor <;> simp [State.initial], rfl⟩
  obtain ⟨_, image, _, sound⟩ := run_simulates (Sound scanned)
    (fun sound taken => sound_step sound taken) initially reached
  exact ⟨image, sound⟩

theorem Sound.exclusive_num (sound : Sound scanned s image) :
    ¬ (s.read = .scanf ∧ s.accu = .add) := by
  rintro ⟨reads, adds⟩
  have one := sound.exclusive.one
  rw [sound.related.producer, sound.related.consumer, reads, adds] at one
  simp [ReadPoint.turn, AccuPoint.turn] at one

end sound

/-! ## The threads end -/

def State.readWork (s : State) : Nat :=
  match s.read with
  | .test => 4 * (ROUNDS - s.readI) + 1
  | .wait => 4 * (ROUNDS - (s.readI + 1)) + 4
  | .scanf => 4 * (ROUNDS - (s.readI + 1)) + 3
  | .post => 4 * (ROUNDS - (s.readI + 1)) + 2
  | .returned => 0

def State.accuWork (s : State) : Nat :=
  match s.accu with
  | .test => 4 * (ROUNDS - s.accuI) + 2
  | .wait => 4 * (ROUNDS - (s.accuI + 1)) + 5
  | .add => 4 * (ROUNDS - (s.accuI + 1)) + 4
  | .post => 4 * (ROUNDS - (s.accuI + 1)) + 3
  | .printf => 1
  | .returned => 0

theorem work_lowers {scanned : Nat → Option Word} {s next : State} {thread : Thread}
    (taken : step scanned s thread = some next) :
    next.readWork + next.accuWork < s.readWork + s.accuWork := by
  cases step_moves taken <;> simp only [State.readWork, State.accuWork, *] <;> omega

/-- A thread that waits is passed the permit by the other one. -/
theorem progress {scanned : Nat → Option Word} {s : State} {image : Handoff.State Word}
    (sound : Sound scanned s image) (unfinished : ¬ s.Finished) :
    ∃ thread next, step scanned s thread = some next := by
  by_cases readMoves : ∃ next, step scanned s .read = some next
  · obtain ⟨next, moves⟩ := readMoves
    exact ⟨.read, next, moves⟩
  by_cases accuMoves : ∃ next, step scanned s .accu = some next
  · obtain ⟨next, moves⟩ := accuMoves
    exact ⟨.accu, next, moves⟩
  exfalso
  have readStuck : s.read = .returned ∨ s.read = .wait ∧ s.sem_two = 0 := by
    cases point : s.read with
    | wait =>
        cases count : s.sem_two with
        | zero => exact .inr ⟨rfl, rfl⟩
        | succ count => simp [step, point, count, semWait] at readMoves
    | returned => exact .inl rfl
    | test =>
        by_cases more : s.readI < ROUNDS
        · simp [step, point, more] at readMoves
        · simp [step, point, more] at readMoves
    | scanf => simp [step, point] at readMoves
    | post => simp [step, point] at readMoves
  have accuStuck : s.accu = .returned ∨ s.accu = .wait ∧ s.sem_one = 0 := by
    cases point : s.accu with
    | wait =>
        cases count : s.sem_one with
        | zero => exact .inr ⟨rfl, rfl⟩
        | succ count => simp [step, point, count, semWait] at accuMoves
    | returned => exact .inl rfl
    | test =>
        by_cases more : s.accuI < ROUNDS
        · simp [step, point, more] at accuMoves
        · simp [step, point, more] at accuMoves
    | add => simp [step, point] at accuMoves
    | post => simp [step, point] at accuMoves
    | printf => simp [step, point] at accuMoves
  have readOutside : s.read.turn = .outside := by
    rcases readStuck with point | ⟨point, _⟩ <;> rw [point] <;> rfl
  have accuOutside : s.accu.turn = .outside := by
    rcases accuStuck with point | ⟨point, _⟩ <;> rw [point] <;> rfl
  have permit := sound.exclusive.outside (by rw [sound.related.producer, readOutside])
    (by rw [sound.related.consumer, accuOutside])
  have counts := sound.counts
  have placed := sound.placed
  rw [sound.related.free, sound.related.full] at permit
  rcases readStuck with readEnd | ⟨readWaits, two⟩ <;>
    rcases accuStuck with accuEnd | ⟨accuWaits, one⟩
  · exact unfinished ⟨readEnd, accuEnd⟩
  · have through := placed.readEnd readEnd
    have inside := placed.accuInside (.inl accuWaits)
    rcases permit with ⟨_, _, drained⟩ | ⟨_, full, _⟩
    · simp only [State.readCount, State.accuCount, readEnd, accuWaits, drained, through] at counts
      simp at counts
      omega
    · omega
  · have through := placed.accuEnd (.inr accuEnd)
    have inside := placed.readInside (by simp [readWaits]) (by simp [readWaits])
    simp only [State.readCount, State.accuCount, readWaits, accuEnd, through] at counts
    simp at counts
    omega
  · omega

/-- Whatever is entered and the order of the steps, the program ends, never touches `num`
from both threads at once, and prints the prompts and the sum, modulo 2^32, of what stood in
`num` behind each `scanf`: of the numbers that are entered, when there are five. -/
theorem sum_of_inputs {scanned : Nat → Option Word} {threads : List Thread} {s : State}
    (reached : run (step scanned) State.initial threads = some s) :
    threads.length ≤ 43 ∧
      (s.Finished ∨ ∃ thread next, step scanned s thread = some next) ∧
      ¬ (s.read = .scanf ∧ s.accu = .add) ∧
      s.stdout <+: output scanned ∧
      (s.Finished → s.stdout = output scanned) ∧
      ∀ values : Nat → Word, (∀ round < ROUNDS, scanned round = some (values round)) →
        output scanned = (List.replicate ROUNDS prompt).flatten ++
          resultText ((List.range ROUNDS).map values).sum := by
  obtain ⟨image, sound⟩ := sound_run reached
  have goesFurther {state : State} (held : ∃ image, Sound scanned state image)
      (unfinished : ¬ state.Finished) :
      ∃ thread next, step scanned state thread = some next := by
    obtain ⟨image, sound⟩ := held
    exact progress sound unfinished
  obtain ⟨bound, goesOn⟩ :=
    ends_of_measure (fun taken => work_lowers taken) goesFurther ⟨image, sound⟩ reached
  have ended (point : s.accu = .returned) : s.stdout = output scanned := by
    obtain ⟨sum, all⟩ := sound.through (.inr point)
    have bound := sound.placed.readBound
    have inside := sound.placed.readInside
    have prompts : s.prompts = ROUNDS := by
      unfold State.readCount at all
      unfold State.prompts
      grind
    rw [sound.printed, State.printed, prompts, if_pos point, sum, output]
  refine ⟨bound, goesOn, sound.exclusive_num, ?_, fun finished => ended finished.2,
    fun values => output_of_scanned⟩
  by_cases point : s.accu = .returned
  · rw [ended point]
  · rw [sound.printed, State.printed, if_neg point, List.append_nil]
    refine List.IsPrefix.trans ?_ (List.prefix_append _ _)
    have few : s.prompts ≤ ROUNDS := by
      have bound := sound.placed.readBound
      have inside := sound.placed.readInside
      unfold State.prompts
      grind
    obtain ⟨rest, split⟩ := Nat.exists_eq_add_of_le few
    rw [split, List.replicate_add, List.flatten_append]
    exact List.prefix_append _ _

/-- The second `scanf` fails, so that the first number is added twice. -/
def secondFails (round : Nat) : Option Word :=
  if round = 1 then none else some (BitVec.ofNat 32 (round + 7))

/-- The threads take turns as far as the semaphores let them. -/
def inTurns : List Thread :=
  .read :: (List.replicate 5 (List.replicate 4 Thread.read ++ List.replicate 4 .accu)).flatten ++
    [.accu, .accu]

theorem sum_of_inputs_inTurns :
    ∃ s, run (step secondFails) State.initial inTurns = some s ∧ s.Finished ∧
      s.stdout = (List.replicate 5 prompt).flatten ++ resultText 44 := by
  have shape : (run (step secondFails) State.initial inTurns).any
      (fun s => s.read = .returned ∧ s.accu = .returned) = true := by
    decide +kernel
  obtain ⟨s, reached, shaped⟩ := (Option.any_eq_true _ _).mp shape
  have finished : s.read = .returned ∧ s.accu = .returned := of_decide_eq_true shaped
  exact ⟨s, reached, finished, (sum_of_inputs reached).2.2.2.2.1 finished⟩

end NetworkProgramming.Hw8.Practice.Semaphore
