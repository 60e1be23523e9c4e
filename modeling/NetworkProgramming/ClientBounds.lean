import NetworkProgramming.Client

/-!
# What the interactive clients accept

The check looks at the count after it was narrowed to a `char`; the loops and
the offsets use the `int`.  A count that differs from its low byte passes the
check when the byte is positive, and the request is then not the one that was
typed.
-/

namespace NetworkProgramming.Client

open MachineInt

/-- The expression that the user types. -/
def Input.expression (input : Input) : Expression where
  first := input.operand 0
  steps := (List.range (input.opCount - 1).toNat).map fun i =>
    (input.operator i, input.operand (i + 1))

/-- The client stops at its check, or what it stores lies in the buffer, behind
the number of operands that it stores, and is the expression. -/
def Bounds {size : Nat} (input : Input) (buf : CArray Byte size)
    (encoded : Option (Encoded size)) : Prop :=
  (∃ stopped, encoded = some (.rejected stopped) ∧
    stopped.cells.tail = buf.cells.tail) ∨
  ∃ result, encoded = some (.accepted result) ∧
    (result.cells.getD 0 0#8).toInt = input.opCount.toNat ∧
      ∃ rest, result.cells = input.expression.encode ++ rest

/-- The byte that announces nothing, or the expression behind the number of
operands that were stored. -/
def SendsTyped (input : Input) (sent : Option (List Byte)) : Prop :=
  (∃ count : Byte, count.toInt ≤ 0 ∧ sent = some [count]) ∨
    ∃ bytes, sent = some bytes ∧
      (bytes.getD 0 0#8).toInt = input.opCount.toNat ∧ bytes = input.expression.encode

/-- The count is one that its low byte can say, or one that is refused. -/
def Input.Accountable (input : Input) : Prop :=
  (BitVec.ofInt 8 input.opCount).toInt ≤ 0 ∨ 1 ≤ input.opCount ∧ input.opCount ≤ 127

section encodeInput

variable {size : Nat} {input : Input} {buf : CArray Byte size}

theorem count_expression (positive : 1 ≤ input.opCount) :
    (input.expression.count : Int) = input.opCount := by
  simp only [Expression.count, Input.expression, List.length_map, List.length_range]
  omega

theorem encodeInput_congr {other : Input} (sameCount : input.opCount = other.opCount)
    (operands : ∀ i < input.opCount.toNat, input.operand i = other.operand i)
    (operators : ∀ i < (input.opCount - 1).toNat, input.operator i = other.operator i) :
    encodeInput input buf = encodeInput other buf := by
  simp only [encodeInput, ← sameCount]
  congr 1
  funext counted
  split
  · rfl
  · congr 1
    · refine forLoop_congr fun i bound buf => ?_
      rw [operands i bound]
    · funext withOperands
      congr 1
      refine forLoop_congr fun i bound buf => ?_
      rw [operators i bound]

theorem encodeInput_expression (positive : 1 ≤ input.opCount)
    (buf : CArray Byte size) :
    encodeInput input buf = encodeInput (typed input.expression) buf := by
  have count := count_expression positive
  refine encodeInput_congr count.symm ?_ ?_
  · intro i bound
    cases i with
    | zero => simp [typed, Expression.operands, Input.expression]
    | succ i =>
        have inside : i < input.opCount.toNat - 1 := by omega
        simp [typed, Expression.operands, Input.expression,
          List.getD_eq_getElem?_getD, inside]
  · intro i bound
    have inside : i < input.opCount.toNat - 1 := by omega
    simp [typed, Expression.operators, Input.expression, List.getD_eq_getElem?_getD,
      inside]

/-- The check decides on the narrowed count, and the loops leave it alone. -/
theorem encodeInput_cases {encoded : Encoded size}
    (ran : encodeInput input buf = some encoded) :
    (∃ stopped, encoded = .rejected stopped ∧
      (BitVec.ofInt 8 input.opCount).toInt ≤ 0 ∧
        stopped.cells[0]? = some (BitVec.ofInt 8 input.opCount)) ∨
    ∃ result, encoded = .accepted result ∧
      result.cells[0]? = some (BitVec.ofInt 8 input.opCount) := by
  simp only [encodeInput, Option.bind_eq_bind, Option.bind_eq_some_iff] at ran
  obtain ⟨counted, stored, ran⟩ := ran
  obtain ⟨inside, cells⟩ := CArray.set?_eq_some.mp stored
  have counts : counted.cells[0]? = some (BitVec.ofInt 8 input.opCount) := by
    rw [cells, List.getElem?_set_self (by rw [buf.length_cells]; exact inside)]
  split at ran
  · rename_i refused
    cases ran
    exact .inl ⟨counted, rfl, refused, counts⟩
  · simp only [Option.bind_eq_some_iff] at ran
    obtain ⟨withOperands, operands, final, operators, same⟩ := ran
    cases same
    have afterOperands : withOperands.cells[0]? = some (BitVec.ofInt 8 input.opCount) := by
      refine forLoop_invariant (fun _ (buf : CArray Byte size) =>
        buf.cells[0]? = some (BitVec.ofInt 8 input.opCount)) counts ?_ operands
      intro i _ before after head written
      obtain ⟨fits, result⟩ := CArray.write?_eq_some.mp written
      have length := before.length_cells
      rw [result, List.append_assoc, List.getElem?_append_left (by
        rw [List.length_take]; omega), List.getElem?_take_of_lt (by omega), head]
    refine .inr ⟨final, rfl, ?_⟩
    refine forLoop_invariant (fun _ (buf : CArray Byte size) =>
      buf.cells[0]? = some (BitVec.ofInt 8 input.opCount)) afterOperands ?_ operators
    intro i _ before after head set
    rw [(CArray.set?_eq_some.mp set).2, List.getElem?_set_ne (by omega), head]

theorem encodeInput_rejected (nonempty : 0 < size)
    (rejected : (BitVec.ofInt 8 input.opCount).toInt ≤ 0) :
    ∃ stopped, encodeInput input buf = some (.rejected stopped) ∧
      stopped.cells = BitVec.ofInt 8 input.opCount :: buf.cells.tail := by
  obtain ⟨head, tail, shape⟩ : ∃ head tail, buf.cells = head :: tail :=
    List.exists_cons_of_length_pos (by rw [buf.length_cells]; exact nonempty)
  obtain ⟨stopped, stored⟩ : ∃ stopped,
      buf.set? 0 (BitVec.ofInt 8 input.opCount) = some stopped := by
    simp [CArray.set?, nonempty]
  refine ⟨stopped, ?_, ?_⟩
  · simp only [encodeInput, stored, Option.bind_eq_bind, Option.bind_some, rejected,
      if_true]
    rfl
  · rw [(CArray.set?_eq_some.mp stored).2, shape]
    rfl

/-- The low byte is the number of operands stored only when that is a `char`. -/
theorem accountable_of_counts
    (counts : (BitVec.ofInt 8 input.opCount).toInt = input.opCount.toNat) :
    input.Accountable := by
  have small := @BitVec.toInt_lt 8 (BitVec.ofInt 8 input.opCount)
  unfold Input.Accountable
  omega

end encodeInput

section clients

variable {input : Input} {buf : CArray Byte MAX}

theorem bounds_iff :
    Bounds input buf (encodeInput input buf) ↔ input.Accountable := by
  constructor
  · intro bounds
    rcases bounds with ⟨stopped, ran, _⟩ | ⟨result, ran, counts, _⟩
    · rcases encodeInput_cases ran with ⟨_, _, refused, _⟩ | ⟨_, other, _⟩
      · exact .inl refused
      · cases other
    · rcases encodeInput_cases ran with ⟨_, other, _⟩ | ⟨_, same, head⟩
      · cases other
      · cases same
        rw [List.getD_eq_getElem?_getD, head, Option.getD_some] at counts
        exact accountable_of_counts counts
  · intro accountable
    rcases accountable with refused | ⟨positive, small⟩
    · obtain ⟨stopped, ran, cells⟩ :=
        @encodeInput_rejected MAX input buf (by decide) refused
      exact .inl ⟨stopped, ran, by rw [cells, List.tail_cons]⟩
    · have count := count_expression positive
      obtain ⟨result, ran, rest, cells⟩ :=
        @encodeInput_typed MAX input.expression (by omega) (by decide) buf
      rw [← encodeInput_expression positive] at ran
      refine .inr ⟨result, ran, ?_, rest, cells⟩
      have byte := @toInt_ofNat_char input.expression.count (by omega)
      rw [cells, Expression.encode, List.cons_append, List.getD_cons_zero, byte]
      omega

theorem sentBytes_head {head : Byte} {tail : List Byte}
    (sent : sentBytes input buf = some (head :: tail)) :
    head = BitVec.ofInt 8 input.opCount := by
  have front {cells : List Byte} {count : Nat}
      (first : cells[0]? = some (BitVec.ofInt 8 input.opCount))
      (read : (cells.drop 0).take count = head :: tail) :
      head = BitVec.ofInt 8 input.opCount := by
    cases cells with
    | nil => simp at first
    | cons byte cells =>
        cases count with
        | zero => simp at read
        | succ count =>
            simp only [List.getElem?_cons_zero, Option.some.injEq] at first
            simp only [List.drop_zero, List.take_succ_cons, List.cons.injEq] at read
            rw [← read.1, first]
  simp only [sentBytes, Option.bind_eq_bind, Option.bind_eq_some_iff] at sent
  obtain ⟨encoded, ran, read⟩ := sent
  rcases encodeInput_cases ran with ⟨stopped, rfl, _, first⟩ | ⟨result, rfl, first⟩
  · exact front first (CArray.read?_eq_some.mp read).2
  · exact front first (CArray.read?_eq_some.mp read).2

theorem sendsTyped_iff : SendsTyped input (sentBytes input buf) ↔ input.Accountable := by
  constructor
  · intro sends
    rcases sends with ⟨count, refused, sent⟩ | ⟨bytes, sent, counts, rfl⟩
    · rw [sentBytes_head sent] at refused
      exact .inl refused
    · have head := sentBytes_head sent
      rw [Expression.encode, List.getD_cons_zero, head] at counts
      exact accountable_of_counts counts
  · intro accountable
    rcases accountable with refused | ⟨positive, small⟩
    · obtain ⟨stopped, ran, cells⟩ :=
        @encodeInput_rejected MAX input buf (by decide) refused
      refine .inl ⟨_, refused, ?_⟩
      simp only [sentBytes, ran, Option.bind_eq_bind, Option.bind_some]
      exact CArray.read?_eq_some.mpr ⟨by decide, by rw [cells]; rfl⟩
    · have count := count_expression positive
      have sent := @sentBytes_typed input.expression (by omega) buf
      have same : sentBytes input buf = sentBytes (typed input.expression) buf := by
        simp only [sentBytes, encodeInput_expression positive]
        have sameCount : (typed input.expression).opCount = input.opCount := count
        rw [sameCount]
      refine .inr ⟨_, same.trans sent, ?_, rfl⟩
      have byte := @toInt_ofNat_char input.expression.count (by omega)
      rw [Expression.encode, List.getD_cons_zero, byte]
      omega

end clients

/-- For every count a user can enter, the three clients stop or send what was
typed exactly when the count is refused or at most 127. -/
theorem clients_bound_iff (input : Input) (buf : CArray Byte MAX) :
    (Bounds input buf (caculator_input input buf) ∧
      SendsTyped input (hw5_client input buf) ∧
      SendsTyped input (hw3_client input buf)) ↔ input.Accountable := by
  simp only [caculator_input, hw5_client, hw3_client, and_self, bounds_iff,
    sendsTyped_iff]

/-- Every operand is 0 and every operator `+`. -/
def zeros (opCount : Int) : Input := ⟨opCount, fun _ => 0, fun _ => ascii '+'⟩

/-- 257 passes the check as 1 and its operands leave the buffer; -255 passes it
as 1 and has no operand. -/
theorem clients_unbound :
    (caculator_input (zeros 257) (CArray.replicate MAX 0#8)).isNone = true ∧
      ¬ Bounds (zeros 257) (CArray.replicate MAX 0#8)
        (caculator_input (zeros 257) (CArray.replicate MAX 0#8)) ∧
      ¬ Bounds (zeros (-255)) (CArray.replicate MAX 0#8)
        (caculator_input (zeros (-255)) (CArray.replicate MAX 0#8)) := by
  refine ⟨by decide +kernel, ?_, ?_⟩
  · rw [caculator_input, bounds_iff, Input.Accountable]
    decide
  · rw [caculator_input, bounds_iff, Input.Accountable]
    decide

end NetworkProgramming.Client
