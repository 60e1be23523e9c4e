import NetworkProgramming.Calculator
import NetworkProgramming.Foundation.Strtok

/-!
# `calculate` of `test_serv`

The expression is a line of text.  `calculate` takes it apart with `strtok`,
evaluates the operands from left to right and prints the formula.  Between two
calls of `strtok` it is at a `Point`; what it does there with the token it gets
is `receive`, so that other threads can be given a turn in between.
-/

namespace NetworkProgramming.TestServ

open MachineInt Strtok

def MAX_CLNT : Nat := 100
def BUF_SIZE : Nat := 1024
def NAME_SIZE : Nat := 4

/-- The locals of `calculate`, which start with what the stack held. -/
structure Call where
  operand_count : Int
  operands : CArray Word 255
  operators : CArray Byte 255
  formatted_expr : CArray Byte BUF_SIZE
deriving DecidableEq

def Call.zero : Call where
  operand_count := 0
  operands := CArray.replicate 255 0
  operators := CArray.replicate 255 0#8
  formatted_expr := CArray.replicate BUF_SIZE 0#8

/-- What `calculate` leaves to `handle_clnt`. -/
structure Returned where
  result : Word
  formatted_expr : CArray Byte BUF_SIZE
deriving DecidableEq

/-- Signed division; the quotient of the least number by minus one does not fit
an `int`. -/
def divide (left right : Word) : Option Word :=
  if left = -2147483648#32 ∧ right = -1#32 then none else some (left.sdiv right)

def applyOperator (operator : Byte) (result operand : Word) : Option Word :=
  if operator = ascii '+' then some (result + operand)
  else if operator = ascii '-' then some (result - operand)
  else if operator = ascii '*' then some (result * operand)
  else if operator = ascii '/' then
    if operand ≠ 0 then divide result operand else some result
  else some result

/-- `int result = operands[0]` and the loop over the operators. -/
def evaluate (call : Call) : Option Word := do
  let first ← call.operands.get? 0
  forLoop (fun i result => do
    let operator ← call.operators.get? i
    let operand ← call.operands.get? (i + 1)
    applyOperator operator result operand) (call.operand_count - 1).toNat first

/-- Print the first operand, then each operator with its operand by way of
`char buf[32]`. -/
def format (call : Call) : Option (CArray Byte BUF_SIZE) := do
  let first ← call.operands.get? 0
  let formatted_expr ← call.formatted_expr.print? (decimal first.toInt)
  forLoop (fun i (formatted_expr : CArray Byte BUF_SIZE) => do
    let operator ← call.operators.get? i
    let operand ← call.operands.get? (i + 1)
    let buf ← (CArray.replicate 32 0#8).print? (stepText (operator, operand))
    let text ← buf.cString?
    formatted_expr.append? text) (call.operand_count - 1).toNat formatted_expr

/-- What follows the loops over the tokens. -/
def finish (call : Call) : Option Returned := do
  let result ← evaluate call
  let formatted_expr ← format call
  return ⟨result, formatted_expr⟩

/-- `return 0` without a token; `formatted_expr` was not written. -/
def Call.noToken (call : Call) : Returned := ⟨0, call.formatted_expr⟩

def Call.overflow (call : Call) : Returned := ⟨-99999#32, call.formatted_expr⟩

/-- `operands[i] = atoi(token)`. -/
def Call.storeOperand (atoi : List Byte → Word) (i : Nat) (token : List Byte)
    (call : Call) : Option Call := do
  let operands ← call.operands.set? i (atoi token)
  return { call with operands := operands }

/-- `operators[i] = token[0]`. -/
def Call.storeOperator (i : Nat) (token : List Byte) (call : Call) :
    Option Call := do
  let operator ← token.head?
  let operators ← call.operators.set? i operator
  return { call with operators := operators }

/-- The loop over the operators, with this many turns left, and what follows
it. -/
def readOperators : Nat → Nat → Call → CArray Byte BUF_SIZE → Nat → Option Returned
  | 0, _, call, _, _ => finish call
  | left + 1, i, call, expr, position => do
      let (token, expr, position) ← strtok (ascii ' ') expr position
      match token with
      | none => return call.noToken
      | some token =>
          let call ← call.storeOperator i token
          readOperators left (i + 1) call expr position

/-- The loop over the operands, with this many turns left, and what follows
it. -/
def readOperands (atoi : List Byte → Word) :
    Nat → Nat → Call → CArray Byte BUF_SIZE → Nat → Option Returned
  | 0, _, call, expr, position =>
      readOperators (call.operand_count - 1).toNat 0 call expr position
  | left + 1, i, call, expr, position => do
      let (token, expr, position) ← strtok (ascii ' ') expr position
      match token with
      | none => return call.noToken
      | some token =>
          let call ← call.storeOperand atoi i token
          readOperands atoi left (i + 1) call expr position

/-- `calculate(expr, formatted_expr)`, when no other thread calls `strtok`. -/
def calculate (atoi : List Byte → Word) (call : Call) (expr : CArray Byte BUF_SIZE) :
    Option Returned := do
  let (token, expr, position) ← strtok (ascii ' ') expr 0
  match token with
  | none => return call.noToken
  | some token =>
      let operand_count := (atoi token).toInt
      if operand_count = 0 ∨ 127 < operand_count then return call.overflow
      readOperands atoi operand_count.toNat 0
        { call with operand_count := operand_count } expr position

/-! ## Between two calls of `strtok` -/

/-- Which `strtok` comes next: the one for the count, for `operands[i]` or for
`operators[i]`; `left` turns of the loop follow that one. -/
inductive Point where
  | count
  | operand (left i : Nat)
  | operator (left i : Nat)
deriving DecidableEq

/-- What `calculate` does with a token: it comes to its next `strtok` or
returns. -/
inductive Progress where
  | calling (point : Point) (call : Call)
  | returned (returned : Returned)

def toOperators : Nat → Nat → Call → Option Progress
  | 0, _, call => (finish call).map .returned
  | left + 1, i, call => some (.calling (.operator left i) call)

def toOperands : Nat → Nat → Call → Option Progress
  | 0, _, call => toOperators (call.operand_count - 1).toNat 0 call
  | left + 1, i, call => some (.calling (.operand left i) call)

/-- From the return of one `strtok` to the next. -/
def receive (atoi : List Byte → Word) (call : Call) :
    Point → Option (List Byte) → Option Progress
  | _, none => some (.returned call.noToken)
  | .count, some token =>
      let operand_count := (atoi token).toInt
      if operand_count = 0 ∨ 127 < operand_count then some (.returned call.overflow)
      else toOperands operand_count.toNat 0 { call with operand_count := operand_count }
  | .operand left i, some token =>
      (call.storeOperand atoi i token).bind (toOperands left (i + 1))
  | .operator left i, some token =>
      (call.storeOperator i token).bind (toOperators left (i + 1))

/-- The rest of `calculate` from a point on, without other threads. -/
def resume (atoi : List Byte → Word) (point : Point) (call : Call)
    (expr : CArray Byte BUF_SIZE) (position : Nat) : Option Returned :=
  match point with
  | .count => calculate atoi call expr
  | .operand left i => readOperands atoi (left + 1) i call expr position
  | .operator left i => readOperators (left + 1) i call expr position

/-- The rest of `calculate` behind a token. -/
def Progress.rest (atoi : List Byte → Word) (expr : CArray Byte BUF_SIZE)
    (position : Nat) : Progress → Option Returned
  | .calling point call => resume atoi point call expr position
  | .returned result => some result

/-- Where the next `strtok` starts: at the expression for the count, else where
the last one stopped. -/
def Point.start (position : Nat) : Point → Nat
  | .count => 0
  | .operand _ _ | .operator _ _ => position

section resume

variable {atoi : List Byte → Word} {expr : CArray Byte BUF_SIZE} {position : Nat}

theorem rest_toOperators (left i : Nat) (call : Call) :
    (toOperators left i call).bind (Progress.rest atoi expr position) =
      readOperators left i call expr position := by
  cases left with
  | zero =>
      rw [toOperators, readOperators]
      cases finish call <;> rfl
  | succ left => rfl

theorem rest_toOperands (left i : Nat) (call : Call) :
    (toOperands left i call).bind (Progress.rest atoi expr position) =
      readOperands atoi left i call expr position := by
  cases left with
  | zero => exact rest_toOperators _ _ _
  | succ left => rfl

/-- Taking the tokens one at a time is what `calculate` does. -/
theorem resume_eq (point : Point) (call : Call) :
    resume atoi point call expr position =
      (strtok (ascii ' ') expr (point.start position)).bind fun scanned =>
        (receive atoi call point scanned.1).bind
          (Progress.rest atoi scanned.2.1 scanned.2.2) := by
  cases point with
  | count =>
      simp only [resume, calculate, Point.start, Option.bind_eq_bind]
      congr 1
      funext ⟨token, cut, stopped⟩
      cases token with
      | none => rfl
      | some token =>
          simp only [receive]
          split
          · rfl
          · exact (rest_toOperands _ _ _).symm
  | operand left i =>
      simp only [resume, readOperands, Point.start, Option.bind_eq_bind]
      congr 1
      funext ⟨token, cut, stopped⟩
      cases token with
      | none => rfl
      | some token =>
          simp only [receive, Option.bind_assoc, rest_toOperands]
  | operator left i =>
      simp only [resume, readOperators, Point.start, Option.bind_eq_bind]
      congr 1
      funext ⟨token, cut, stopped⟩
      cases token with
      | none => rfl
      | some token =>
          simp only [receive, Option.bind_assoc, rest_toOperators]

end resume

end NetworkProgramming.TestServ
