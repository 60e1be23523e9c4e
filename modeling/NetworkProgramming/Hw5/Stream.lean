import NetworkProgramming.Hw5.Worker

/-!
# A worker on a stream that is cut anywhere

A client sends bytes and closes its side.  The worker never looks at what its
reads return, so a read that gets less than it asked for leaves the rest of an
operand as it was and moves every later field forward, and a read at the end
of the stream leaves its field as it was.
-/

namespace NetworkProgramming.Hw5

open MachineInt Channel

/-! ## What the reads leave -/

section cut

variable {cuts : Nat → Nat}

theorem readOperands_cut {count turn : Nat} (fits : count ≤ MAX)
    (operand : CArray Word MAX) (stream : List Byte) :
    ∃ decoded, readOperands (readCut cuts) count operand (stream, turn) =
        some (decoded, stream.drop (cutOffset cuts 4 turn count), turn + count) ∧
      ∀ index < count, ∃ old, operand.get? index = some old ∧
        decoded.get? index = some (receiveWord old
          ((stream.drop (cutOffset cuts 4 turn index)).take
            (cutSize cuts 4 (turn + index)))) := by
  have length := operand.length_cells
  have loop : ∃ final, readOperands (readCut cuts) count operand (stream, turn) =
        some final ∧
      final.2 = (stream.drop (cutOffset cuts 4 turn count), turn + count) ∧
      (∀ index < count, ∃ old, operand.get? index = some old ∧
        final.1.get? index = some (receiveWord old
          ((stream.drop (cutOffset cuts 4 turn index)).take
            (cutSize cuts 4 (turn + index))))) ∧
      ∀ index, count ≤ index → final.1.get? index = operand.get? index := by
    refine forLoop_total (fun index (state : CArray Word MAX × List Byte × Nat) =>
      state.2 = (stream.drop (cutOffset cuts 4 turn index), turn + index) ∧
      (∀ earlier < index, ∃ old, operand.get? earlier = some old ∧
        state.1.get? earlier = some (receiveWord old
          ((stream.drop (cutOffset cuts 4 turn earlier)).take
            (cutSize cuts 4 (turn + earlier))))) ∧
      ∀ later, index ≤ later → state.1.get? later = operand.get? later)
      ⟨rfl, by simp, fun _ _ => rfl⟩ ?_
    rintro index bound ⟨before, connection⟩ ⟨rfl, done, untouched⟩
    have slot : index < operand.cells.length := by omega
    have inside : index < MAX := by omega
    have old : operand.get? index = some operand.cells[index] :=
      List.getElem?_eq_getElem slot
    set word := receiveWord operand.cells[index]
      ((stream.drop (cutOffset cuts 4 turn index)).take
        (cutSize cuts 4 (turn + index))) with received
    obtain ⟨after, stored⟩ : ∃ after, before.set? index word = some after := by
      simp [CArray.set?, inside]
    have cells := (CArray.set?_eq_some.mp stored).2
    have others {other : Nat} (different : index ≠ other) :
        after.get? other = before.get? other := by
      rw [CArray.get?, cells, List.getElem?_set_ne different]
      rfl
    refine ⟨(after, (stream.drop (cutOffset cuts 4 turn index)).drop
      (cutSize cuts 4 (turn + index)), turn + index + 1), ?_, ?_, ?_, ?_⟩
    · simp only [readCut, Option.bind_eq_bind, Option.bind_some,
        untouched index (Nat.le_refl _), old, ← received, stored]
      rfl
    · rw [List.drop_drop]
      rfl
    · intro earlier below
      rcases Nat.lt_succ_iff_lt_or_eq.mp below with less | rfl
      · obtain ⟨stale, was, got⟩ := done earlier less
        exact ⟨stale, was, by rw [others (by omega), got]⟩
      · refine ⟨_, old, ?_⟩
        rw [CArray.get?, cells, List.getElem?_set_self (by
          rw [before.length_cells]
          exact inside)]
    · intro later above
      rw [others (by omega), untouched later (by omega)]
  obtain ⟨⟨decoded, rest⟩, ran, rfl, done, _⟩ := loop
  exact ⟨decoded, ran, done⟩

theorem readCount_cut {head : Byte} {tail : List Byte} {turn : Nat} :
    readCut cuts 1 (head :: tail, turn) = some ([head], tail, turn + 1) := by
  simp [readCut, cutSize_one]

/-- The operators are single bytes, which no cut divides. -/
theorem supplies_readOperator_cut {bytes : List Byte} {position turn : Nat}
    {operand : CArray Word MAX} {steps : List (Byte × Word)} (stale : Byte)
    (operators : ∀ index, ∀ bound : index < steps.length,
      bytes[position + index]? = some steps[index].1)
    (operands : ∀ index, ∀ bound : index < steps.length,
      operand.get? (index + 1) = some steps[index].2) :
    Supplies (readOperator (readCut cuts)) operand
      (fun index => ((stale :: steps.map Prod.fst).getD index stale,
        bytes.drop (position + index), turn + index)) steps := by
  intro index bound
  refine ⟨?_, operands index bound⟩
  obtain ⟨inside, operator⟩ := List.getElem?_eq_some_iff.mp (operators index bound)
  have received : readCut cuts 1 (bytes.drop (position + index), turn + index) =
      some ([steps[index].1], bytes.drop (position + (index + 1)),
        turn + (index + 1)) := by
    rw [List.drop_eq_getElem_cons inside, operator, readCount_cut]
    rfl
  simp only [readOperator, received, Option.bind_eq_bind, Option.bind_some]
  simp [List.getD_eq_getElem?_getD, bound]

/-- A read that stops before the last byte of an operand leaves that byte as it
was. -/
theorem receiveWord_short {left right : Word} {bytes : List Byte}
    (short : bytes.length < 4)
    (same : receiveWord left bytes = receiveWord right bytes) :
    (Word.toBytes left)[3]? = (Word.toBytes right)[3]? := by
  have top (word : Word) : (Word.toBytes (receiveWord word bytes))[3]? =
      (Word.toBytes word)[3]? := by
    have whole : (bytes.take 4 ++ (Word.toBytes word).drop bytes.length).length = 4 := by
      rw [List.length_append, List.length_take, List.length_drop, Word.length_toBytes]
      omega
    rw [receiveWord, Word.toBytes_ofBytes whole, List.take_of_length_le (by omega),
      List.getElem?_append_right (by omega), List.getElem?_drop,
      Nat.add_sub_cancel' (by omega)]
  rw [← top left, same, top right]

theorem receiveWord_whole {old : Word} {bytes : List Byte} (whole : bytes.length = 4) :
    receiveWord old bytes = Word.ofBytes bytes := by
  have drained : (Word.toBytes old).drop bytes.length = [] := by
    rw [whole]
    rfl
  rw [receiveWord, drained, List.append_nil, List.take_of_length_le (by omega)]

end cut

/-! ## What is said of a worker -/

/-- The worker computed `expression`, replied with its value and logged it. -/
def Outcome.Answers (pid : Int) (expression : Expression) (outcome : Outcome) : Prop :=
  ∃ operand, outcome = .replied operand expression.steps expression.value
      (some (logLine pid expression)) ∧
    operand.cells.take expression.count = expression.operands

/-- The worker returned before it printed anything. -/
def Outcome.Silent : Outcome → Prop
  | .saved _ => True
  | .replied _ _ _ _ => False

/-- `n`, the first byte of the stream, as a `char`. -/
def declared (stream : List Byte) : Int := (stream.headD 0#8).toInt

/-- A stream that holds the request it announces is answered, and one that ends
before leaves no line. -/
def Serves (pid : Int) (cuts : Nat → Nat) (stream : List Byte) (locals : Locals) :
    Prop :=
  0 < declared stream →
    ∃ outcome rest, worker (readCut cuts) pid locals (stream, 0) =
        some (outcome, rest) ∧
      if 5 * declared stream ≤ stream.length then
        outcome.Answers pid (decodeExpression stream (declared stream).toNat)
      else outcome.Silent

/-- All of the request arrives, every operand at once, and its line fits
`buf`. -/
structure Arrives (pid : Int) (cuts : Nat → Nat) (stream : List Byte) : Prop where
  complete : 5 * declared stream ≤ stream.length
  uncut : ∀ index < (declared stream).toNat, 4 ≤ cuts (index + 1)
  fits : (decodeExpression stream (declared stream).toNat).Fits MAX
    (pidText pid).length
  line : (logLine pid (decodeExpression stream (declared stream).toNat)).length < MAX

/-! ## When that holds -/

section serves

variable {pid : Int} {cuts : Nat → Nat} {stream : List Byte}

theorem exists_head (positive : 0 < declared stream) :
    ∃ head tail, stream = head :: tail ∧ declared stream = head.toInt := by
  cases stream with
  | nil => simp [declared] at positive
  | cons head tail => exact ⟨head, tail, rfl, rfl⟩

theorem replied_of_positive {locals : Locals} {outcome : Outcome}
    {rest : List Byte × Nat} (positive : 0 < declared stream)
    (ran : worker (readCut cuts) pid locals (stream, 0) = some (outcome, rest)) :
    ∃ operand steps opResult line after,
      outcome = .replied operand steps opResult line ∧
        readOperands (readCut cuts) (declared stream).toNat locals.operand
          (stream.tail, 1) = some (operand, after) := by
  obtain ⟨head, tail, rfl, value⟩ := exists_head positive
  simp only [worker, Option.bind_eq_bind, Option.bind_eq_some_iff] at ran
  obtain ⟨received, counted, ran⟩ := ran
  rw [readCount_cut, Option.some.injEq] at counted
  have accepts : ¬ (received.1.headD locals.opCount).toInt ≤ 0 := by
    rw [← counted, List.headD_cons]
    omega
  rw [if_neg accepts] at ran
  simp only [Option.bind_eq_some_iff] at ran
  obtain ⟨operands, decoded, first, _, buf, _, final, _, result⟩ := ran
  cases result
  rw [← counted, List.headD_cons] at decoded
  rw [value]
  exact ⟨_, _, _, _, _, rfl, decoded⟩

theorem readOperands_uncut {head : Byte} {tail : List Byte} {count : Nat}
    (fits : count ≤ MAX) (complete : count * 4 ≤ tail.length)
    (uncut : ∀ index < count, 4 ≤ cuts (index + 1)) (old : CArray Word MAX) :
    ∃ operand, readOperands (readCut cuts) count old (tail, 1) =
        some (operand, tail.drop (count * 4), 1 + count) ∧
      ∀ index < count, operand.get? index =
        some (wordAt (head :: tail) (1 + index * 4)) := by
  have whole {index : Nat} (bound : index < count) :
      cutSize cuts 4 (1 + index) = 4 := by
    rw [cutSize_eq_iff (by decide), Nat.add_comm]
    exact uncut index bound
  have offset {index : Nat} (bound : index ≤ count) :
      cutOffset cuts 4 1 index = index * 4 :=
    cutOffset_full fun earlier less => whole (by omega)
  obtain ⟨operand, ran, received⟩ := @readOperands_cut cuts count 1 fits old tail
  rw [offset (Nat.le_refl _)] at ran
  refine ⟨operand, ran, fun index bound => ?_⟩
  obtain ⟨stale, _, got⟩ := received index bound
  have length : ((tail.drop (index * 4)).take 4).length = 4 := by
    rw [List.length_take, List.length_drop]
    omega
  rw [got, offset (by omega), whole bound, receiveWord_whole length, wordAt,
    Nat.add_comm 1, List.drop_succ_cons]

/-- When all of the request arrives and no cut falls inside an operand, only
the room in `buf` decides. -/
theorem worker_uncut {locals : Locals} (positive : 0 < declared stream)
    (complete : 5 * declared stream ≤ stream.length)
    (uncut : ∀ index < (declared stream).toNat, 4 ≤ cuts (index + 1)) :
    let expression := decodeExpression stream (declared stream).toNat
    ∃ operand, operand.cells.take expression.count = expression.operands ∧
      (expression.Fits MAX (pidText pid).length →
        ∃ rest, worker (readCut cuts) pid locals (stream, 0) =
          some (.replied operand expression.steps expression.value
            (if (logLine pid expression).length < MAX then
              some (logLine pid expression) else none), rest)) ∧
      (¬ expression.Fits MAX (pidText pid).length →
        worker (readCut cuts) pid locals (stream, 0) = none) := by
  obtain ⟨head, tail, rfl, value⟩ := exists_head positive
  have small := @BitVec.toInt_lt 8 head
  have max : MAX = 1024 := rfl
  rw [value] at positive complete uncut ⊢
  obtain ⟨count, counted⟩ : ∃ count, head.toInt.toNat = count := ⟨_, rfl⟩
  rw [counted] at uncut ⊢
  rw [List.length_cons] at complete
  have countPositive : 0 < count := by omega
  intro expression
  have sameCount : expression.count = count :=
    count_decodeExpression countPositive (head :: tail)
  have stepCount : expression.steps.length = count - 1 := by
    rw [← sameCount]
    simp [Expression.count]
  obtain ⟨operand, ran, word⟩ := @readOperands_uncut cuts head tail count (by omega)
    (by omega) uncut locals.operand
  have operands : operand.cells.take expression.count = expression.operands := by
    rw [sameCount, operands_decodeExpression countPositive]
    refine List.ext_getElem? fun index => ?_
    by_cases bound : index < count
    · rw [List.getElem?_take_of_lt bound]
      exact (word index bound).trans (by simp [bound])
    · simp [bound, operand.length_cells]
  have supplied := @supplies_readOperator_cut cuts (head :: tail) (1 + count * 4)
    (1 + count) operand expression.steps locals.operator (by
      intro index bound
      have position : 1 + count * 4 + index < (head :: tail).length := by
        rw [List.length_cons]
        omega
      rw [List.getElem?_eq_getElem position]
      simp [expression, decodeExpression, List.getElem?_eq_getElem position]) (by
      intro index bound
      rw [word _ (by omega)]
      simp [expression, decodeExpression])
  obtain ⟨success, failure⟩ := @worker_supplied _ (readCut cuts) pid locals _ _ _ _ _
    operand expression (@readCount_cut cuts head tail 0) (by omega)
    (by rw [sameCount]; exact ran) (by rw [word 0 countPositive]; rfl) (by
      simp [Nat.add_comm 1, List.drop_succ_cons]) supplied
  exact ⟨operand, operands, fun fits => ⟨_, success fits⟩, failure⟩

theorem Serves.complete (positive : 0 < declared stream) {locals : Locals}
    (serves : Serves pid cuts stream locals) :
    5 * declared stream ≤ stream.length := by
  by_contra short
  obtain ⟨outcome, rest, ran, silent⟩ := serves positive
  obtain ⟨_, _, _, _, _, rfl, _⟩ := replied_of_positive positive ran
  rw [if_neg short] at silent
  exact silent

/-- The worker's operands are not initialised, so what a read leaves out may be
anything. -/
theorem uncut_of_serves (positive : 0 < declared stream)
    (serves : ∀ locals, Serves pid cuts stream locals) {index : Nat}
    (bound : index < (declared stream).toNat) : 4 ≤ cuts (index + 1) := by
  have complete := (serves Locals.zero).complete positive
  obtain ⟨head, tail, rfl, value⟩ := exists_head positive
  have small := @BitVec.toInt_lt 8 head
  have max : MAX = 1024 := rfl
  have received (stale : Word) : ∃ operand : CArray Word MAX,
      operand.cells.take (declared (head :: tail)).toNat =
          (decodeExpression (head :: tail) (declared (head :: tail)).toNat).operands ∧
        operand.get? index = some (receiveWord stale
          ((tail.drop (cutOffset cuts 4 1 index)).take
            (cutSize cuts 4 (1 + index)))) := by
    obtain ⟨outcome, rest, ran, answers⟩ :=
      serves ⟨0#8, 0#8, CArray.replicate MAX stale, CArray.replicate MAX 0#8⟩ positive
    obtain ⟨operand, _, _, _, _, rfl, decoded⟩ := replied_of_positive positive ran
    rw [if_pos complete] at answers
    obtain ⟨same, shape, taken⟩ := answers
    cases shape
    rw [count_decodeExpression (by omega)] at taken
    obtain ⟨other, alsoDecoded, fields⟩ := @readOperands_cut cuts
      (declared (head :: tail)).toNat 1 (by omega) (CArray.replicate MAX stale) tail
    obtain rfl : other = operand := by
      rw [List.tail_cons, alsoDecoded] at decoded
      cases decoded
      rfl
    obtain ⟨old, was, got⟩ := fields index bound
    obtain rfl : stale = old := by
      simpa [CArray.get?, CArray.replicate, show index < MAX by omega] using was
    exact ⟨other, taken, got⟩
  by_contra cut
  have short : cutSize cuts 4 (1 + index) < 4 := by
    have atMost := cutSize_le cuts 4 (1 + index)
    have inside := (@cutSize_eq_iff cuts 4 (1 + index) (by decide)).not.mpr (by
      rw [Nat.add_comm]
      exact cut)
    omega
  obtain ⟨zeros, zerosTaken, zerosGot⟩ := received 0
  obtain ⟨ones, onesTaken, onesGot⟩ := received (BitVec.allOnes 32)
  have same : zeros.get? index = ones.get? index := by
    have taken := congrArg (fun words => words[index]?)
      (zerosTaken.trans onesTaken.symm)
    simpa [CArray.get?, List.getElem?_take_of_lt bound] using taken
  rw [zerosGot, onesGot, Option.some.injEq] at same
  have differ := receiveWord_short (by
    rw [List.length_take]
    omega) same
  exact absurd differ (by decide)

end serves

/-- Whatever the client sends and however the stream is cut, the worker does
what is said of it exactly when it has nothing to compute or all of the request
arrives, without a cut inside an operand, and fits. -/
theorem stream_served_iff (pid : Int) (cuts : Nat → Nat) (stream : List Byte) :
    (∀ locals, Serves pid cuts stream locals) ↔
      declared stream ≤ 0 ∨ Arrives pid cuts stream := by
  by_cases positive : 0 < declared stream
  · have some : ¬ declared stream ≤ 0 := by omega
    simp only [some, false_or]
    constructor
    · intro serves
      have complete := (serves Locals.zero).complete positive
      have uncut {index : Nat} := @uncut_of_serves pid cuts stream positive serves index
      obtain ⟨operand, _, success, failure⟩ :=
        @worker_uncut pid cuts stream Locals.zero positive complete
          (fun index bound => uncut bound)
      obtain ⟨outcome, rest, ran, answers⟩ := serves Locals.zero positive
      have fits : (decodeExpression stream (declared stream).toNat).Fits MAX
          (pidText pid).length := by
        by_contra overflow
        rw [failure overflow] at ran
        cases ran
      obtain ⟨after, computed⟩ := success fits
      rw [if_pos complete] at answers
      obtain ⟨other, rfl, _⟩ := answers
      rw [computed] at ran
      have line : (logLine pid
          (decodeExpression stream (declared stream).toNat)).length < MAX := by
        by_contra long
        rw [if_neg long] at ran
        cases ran
      exact ⟨complete, fun index bound => uncut bound, fits, line⟩
    · intro given locals _
      obtain ⟨complete, uncut, fits, line⟩ := given
      obtain ⟨operand, operands, success, _⟩ :=
        @worker_uncut pid cuts stream locals positive complete uncut
      obtain ⟨rest, ran⟩ := success fits
      rw [if_pos line] at ran
      refine ⟨_, rest, ran, ?_⟩
      rw [if_pos complete]
      exact ⟨operand, rfl, operands⟩
  · have none : declared stream ≤ 0 := by omega
    simp only [none, true_or, iff_true]
    intro locals given
    exact absurd given positive

/-- The operand 257 read in pieces is computed as 1, and a request that ends
behind its count is computed and logged as well. -/
theorem stream_unserved :
    ¬ Serves 7 (fun _ => 1) [1#8, 1#8, 1#8, 0#8, 0#8] Locals.zero ∧
      ¬ Serves 7 (fun _ => 4) [1#8] Locals.zero := by
  constructor
  · intro serves
    obtain ⟨outcome, rest, ran, answers⟩ := serves (by decide)
    obtain ⟨operand, _, _, _, _, rfl, decoded⟩ := replied_of_positive (by decide) ran
    rw [if_pos (by decide)] at answers
    obtain ⟨same, shape, taken⟩ := answers
    cases shape
    have first : operand.cells[0]? = some 257#32 := by
      have head := congrArg (fun words => words[0]?) taken
      rw [List.getElem?_take_of_lt (by decide)] at head
      exact head
    have pieces : (readOperands (readCut fun _ => 1) 1 Locals.zero.operand
        ([1#8, 1#8, 0#8, 0#8], 1)).map (fun received => received.1.cells[0]?) =
          some (some 1#32) := by decide +kernel
    have count : (declared [1#8, 1#8, 1#8, 0#8, 0#8]).toNat = 1 := by decide
    rw [count, List.tail_cons] at decoded
    rw [decoded, Option.map_some, first] at pieces
    exact absurd pieces (by decide)
  · intro serves
    exact absurd (serves.complete (by decide)) (by decide)

end NetworkProgramming.Hw5
