import NetworkProgramming.Calculator

/-!
# The interactive clients

`hw2_client`, `hw3_client`, `hw5_client` and `hw6_client` read an operand count,
operands and operators from the terminal into `buf[1024]` with the same code and
differ in what they send.
-/

namespace NetworkProgramming.Client

open MachineInt

def MAX : Nat := 1024

/-- What a user types: the count, the operands and the operators in order. -/
structure Input where
  opCount : Int
  operand : Nat → Word
  operator : Nat → Byte

/-- The buffer after the check `buf[0] <= 0`, which looks at the count after
it was narrowed to a `char`. -/
inductive Encoded (size : Nat) where
  | rejected (buf : CArray Byte size)
  | accepted (buf : CArray Byte size)

/-- The encoding loops of the clients. -/
def encodeInput {size : Nat} (input : Input) (buf : CArray Byte size) :
    Option (Encoded size) := do
  let count : Byte := BitVec.ofInt 8 input.opCount
  let buf ← buf.set? 0 count
  if count.toInt ≤ 0 then
    return .rejected buf
  let buf ← forLoop
    (fun i buf => buf.write? (i * 4 + 1) (Word.toBytes (input.operand i)))
    input.opCount.toNat buf
  let buf ← forLoop
    (fun i buf => buf.set? (input.opCount.toNat * 4 + 1 + i) (input.operator i))
    (input.opCount - 1).toNat buf
  return .accepted buf

/-- One byte for a rejected count, else `opCount*4 + (opCount-1)*4` bytes of the
buffer. -/
def hw2_client (input : Input) (buf : CArray Byte MAX) : Option (List Byte) := do
  match ← encodeInput input buf with
  | .rejected buf => buf.read? 0 1
  | .accepted buf =>
      buf.read? 0 (sizeT (input.opCount * 4 + (input.opCount - 1) * 4))

/-- `hw3_client` and `hw5_client`: one byte for a rejected count, else
`1 + opCount*4 + (opCount - 1)` bytes of the buffer. -/
def sentBytes (input : Input) (buf : CArray Byte MAX) : Option (List Byte) := do
  match ← encodeInput input buf with
  | .rejected buf => buf.read? 0 1
  | .accepted buf =>
      buf.read? 0 (sizeT (1 + input.opCount * 4 + (input.opCount - 1)))

def hw3_client : Input → CArray Byte MAX → Option (List Byte) := sentBytes

def hw5_client : Input → CArray Byte MAX → Option (List Byte) := sentBytes

/-- `caculator_input` of `hw6_client`. -/
def caculator_input : Input → CArray Byte MAX → Option (Encoded MAX) :=
  encodeInput

/-- What `hw6_client` writes in save mode: the three vectors, the whole buffer
last.  A rejected count has closed the socket, so nothing reaches the server. -/
def hw6_client_save (mode id : List Byte) (input : Input)
    (buf : CArray Byte MAX) : Option (List Byte) := do
  match ← caculator_input input buf with
  | .rejected _ => return []
  | .accepted buf => return mode ++ id ++ buf.cells

/-- The input of a user who types an expression. -/
def typed (expression : Expression) : Input where
  opCount := expression.count
  operand := fun i => expression.operands.getD i 0
  operator := fun i => expression.operators.getD i 0#8

/-! ## The buffer after the loops -/

private theorem operandLoop_cells {size : Nat} {input : Input} {count : Nat}
    {start : CArray Byte size} {head : Byte} {tail : List Byte}
    (shape : start.cells = head :: tail) (fits : count * 4 + 1 ≤ size) :
    ∃ result, forLoop
        (fun i buf => buf.write? (i * 4 + 1) (Word.toBytes (input.operand i)))
        count start = some result ∧
      result.cells = head ::
        ((List.range count).flatMap (fun i => Word.toBytes (input.operand i)) ++
          tail.drop (count * 4)) := by
  have tailLength : tail.length = size - 1 := by
    have := start.length_cells
    rw [shape] at this
    simp at this
    omega
  refine forLoop_total (fun count (result : CArray Byte size) =>
    result.cells = head ::
      ((List.range count).flatMap (fun i => Word.toBytes (input.operand i)) ++
        tail.drop (count * 4))) (by simpa using shape) ?_
  intro index bound before cells
  obtain ⟨after, written⟩ : ∃ after, before.write? (index * 4 + 1)
      (Word.toBytes (input.operand index)) = some after :=
    CArray.write?_isSome (by rw [Word.length_toBytes]; omega)
  refine ⟨after, written, ?_⟩
  obtain ⟨_, final⟩ := CArray.write?_eq_some.mp written
  have front : ((List.range index).flatMap
      (fun i => Word.toBytes (input.operand i))).length = index * 4 := by
    simp [List.length_flatMap]
  rw [final, cells, List.take_succ_cons, List.take_append_of_le_length (by omega),
    List.take_of_length_le (by omega)]
  rw [Word.length_toBytes, show index * 4 + 1 + 4 = (index * 4 + 4) + 1 by omega,
    List.drop_succ_cons, List.drop_append, List.drop_of_length_le (by omega),
    front, List.drop_drop, List.range_succ]
  simp [Nat.add_mul]

private theorem operatorLoop_cells {size : Nat} {input : Input}
    {base count : Nat} {start : CArray Byte size} (fits : base + count ≤ size) :
    ∃ result, forLoop
        (fun i buf => buf.set? (base + i) (input.operator i)) count start =
          some result ∧
      result.cells = start.cells.take base ++
        ((List.range count).map input.operator ++
          start.cells.drop (base + count)) := by
  have length := start.length_cells
  refine forLoop_total (fun count (result : CArray Byte size) =>
    result.cells = start.cells.take base ++
      ((List.range count).map input.operator ++
        start.cells.drop (base + count))) (by simp) ?_
  intro index bound before cells
  have inside : base + index < size := by omega
  have slot (byte : Byte) : (start.cells.drop (base + index)).set 0 byte =
      byte :: start.cells.drop (base + index + 1) := by
    rw [List.drop_eq_getElem_cons (by omega), List.set_cons_zero]
  refine ⟨⟨before.cells.set (base + index) (input.operator index), by
    simp [before.length_cells]⟩, by simp [CArray.set?, inside], ?_⟩
  have front : (start.cells.take base).length = base := by simp; omega
  simp only [cells]
  rw [List.set_append_right _ _ (by omega), List.set_append_right _ _ (by simp; omega),
    front]
  simp [slot, List.range_succ, Nat.add_assoc]

/-- A client whose user types an expression of at most 127 operands accepts it
and starts its buffer with the encoded request. -/
theorem encodeInput_typed {size : Nat} {expression : Expression}
    (small : expression.count ≤ 127) (room : 635 ≤ size)
    (buf : CArray Byte size) :
    ∃ result, encodeInput (typed expression) buf = some (.accepted result) ∧
      ∃ rest, result.cells = expression.encode ++ rest := by
  have positive : 0 < expression.count := by simp [Expression.count]
  have narrowed : BitVec.ofInt 8 (expression.count : Int) =
      BitVec.ofNat 8 expression.count := by simp
  have accepts : ¬ (BitVec.ofNat 8 expression.count).toInt ≤ 0 := by
    rw [toInt_ofNat_char small]
    omega
  obtain ⟨head, tail, shape⟩ : ∃ head tail, buf.cells = head :: tail :=
    List.exists_cons_of_length_pos (by rw [buf.length_cells]; omega)
  obtain ⟨counted, set, countedCells⟩ :
      ∃ counted, buf.set? 0 (BitVec.ofNat 8 expression.count) = some counted ∧
        counted.cells = BitVec.ofNat 8 expression.count :: tail := by
    refine ⟨⟨BitVec.ofNat 8 expression.count :: tail, ?_⟩, ?_, rfl⟩
    · have := buf.length_cells
      rw [shape] at this
      simpa using this
    · exact CArray.set?_eq_some.mpr ⟨by omega, by simp [shape]⟩
  obtain ⟨withOperands, operandLoop, operandCells⟩ :=
    @operandLoop_cells _ (typed expression) expression.count _ _ _
      countedCells (by omega)
  obtain ⟨result, operatorLoop, cells⟩ :=
    @operatorLoop_cells _ (typed expression) (expression.count * 4 + 1)
      (expression.count - 1) withOperands (by omega)
  refine ⟨result, ?_, withOperands.cells.drop
    (expression.count * 4 + 1 + (expression.count - 1)), ?_⟩
  · have count : (typed expression).opCount = expression.count := rfl
    have decrement : ((expression.count : Int) - 1).toNat =
        expression.count - 1 := by omega
    simp only [encodeInput, count, narrowed, set, Option.bind_eq_bind,
      Option.bind_some, if_neg accepts, Int.toNat_natCast, operandLoop,
      decrement, operatorLoop, Option.pure_def]
  · have operands : (List.range expression.count).flatMap
        (fun i => Word.toBytes ((typed expression).operand i)) =
          expression.operands.flatMap Word.toBytes := by
      have listed : (List.range expression.count).map
          (fun i => expression.operands.getD i 0) = expression.operands := by
        apply List.ext_getElem
        · simp [expression.length_operands]
        · intro index _ bound
          simp [List.getD_eq_getElem?_getD, List.getElem?_eq_getElem bound]
      calc
        _ = ((List.range expression.count).map
              (fun i => expression.operands.getD i 0)).flatMap Word.toBytes := by
          rw [List.flatMap_map]
          rfl
        _ = _ := by rw [listed]
    have operators : (List.range (expression.count - 1)).map
        (typed expression).operator = expression.operators := by
      apply List.ext_getElem
      · simp [expression.length_operators]
      · intro index _ bound
        simp [typed, List.getD_eq_getElem?_getD, List.getElem?_eq_getElem bound]
    have front : (expression.operands.flatMap Word.toBytes).length =
        expression.count * 4 := by
      rw [length_flatMap_toBytes, expression.length_operands]
    rw [cells, operators, operandCells, operands, List.take_succ_cons,
      List.take_append_of_le_length (by omega), List.take_of_length_le (by omega)]
    simp [Expression.encode]

/-- `hw2_client` sends the first `8 * n - 4` bytes of its buffer, whose front is
the encoded request of `5 * n` bytes. -/
theorem hw2_client_typed {expression : Expression}
    (small : expression.count ≤ 127) (buf : CArray Byte MAX) :
    ∃ rest, hw2_client (typed expression) buf =
      some ((expression.encode ++ rest).take (8 * expression.count - 4)) ∧
        (expression.encode ++ rest).length = MAX := by
  obtain ⟨result, encoded, rest, cells⟩ := encodeInput_typed small (by decide) buf
  have max : MAX = 1024 := rfl
  have positive : 0 < expression.count := by simp [Expression.count]
  have length : (expression.count : Int) * 4 + ((expression.count : Int) - 1) * 4 =
      ((8 * expression.count - 4 : Nat) : Int) := by
    omega
  have sent := @sizeT_natCast (8 * expression.count - 4) (by omega)
  have count : (typed expression).opCount = expression.count := rfl
  refine ⟨rest, ?_, by rw [← cells, result.length_cells]⟩
  simp only [hw2_client, encoded, Option.bind_eq_bind, Option.bind_some, count,
    length, sent]
  exact CArray.read?_eq_some.mpr ⟨by omega, by simp [cells]⟩

theorem sentBytes_typed {expression : Expression}
    (small : expression.count ≤ 127) (buf : CArray Byte MAX) :
    sentBytes (typed expression) buf = some expression.encode := by
  obtain ⟨result, encoded, rest, cells⟩ := encodeInput_typed small (by decide) buf
  have positive : 0 < expression.count := by simp [Expression.count]
  have max : MAX = 1024 := rfl
  have size := expression.length_encode
  have length : 1 + (expression.count : Int) * 4 + ((expression.count : Int) - 1) =
      (expression.encode.length : Int) := by
    omega
  have sent := @sizeT_natCast expression.encode.length (by omega)
  have count : (typed expression).opCount = expression.count := rfl
  simp only [sentBytes, encoded, Option.bind_eq_bind, Option.bind_some, count,
    length, sent]
  apply CArray.read?_eq_some.mpr
  constructor
  · rw [expression.length_encode]
    omega
  · simp [cells]

theorem hw6_client_save_typed {expression : Expression}
    (small : expression.count ≤ 127) (mode id : List Byte)
    (buf : CArray Byte MAX) :
    ∃ body : CArray Byte MAX,
      hw6_client_save mode id (typed expression) buf =
          some (mode ++ id ++ body.cells) ∧
        ∃ rest, body.cells = expression.encode ++ rest := by
  obtain ⟨result, encoded, split⟩ := encodeInput_typed small (by decide) buf
  exact ⟨result, by simp [hw6_client_save, caculator_input, encoded], split⟩

end NetworkProgramming.Client
