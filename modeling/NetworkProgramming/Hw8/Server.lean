import NetworkProgramming.Calculator

/-!
# The handler thread of `hw8_server`

The loop of `handle_clnt`: each result of `readv` is taken as a request,
computed and formatted into one message for all clients.  The locals of the
thread are not initialised and are refilled only as far as `readv` reached.
-/

namespace NetworkProgramming.Hw8

open MachineInt

def BUF_SIZE : Nat := 1024
def NAME_SIZE : Nat := 5
def MAX_CLNT : Nat := 256

/-- The locals of `handle_clnt`, which keep what the last request left. -/
structure Locals where
  name : CArray Byte NAME_SIZE
  req : CArray Byte BUF_SIZE
  operand : CArray Word BUF_SIZE
  buf : CArray Byte BUF_SIZE

def Locals.zero : Locals where
  name := CArray.replicate NAME_SIZE 0#8
  req := CArray.replicate BUF_SIZE 0#8
  operand := CArray.replicate BUF_SIZE 0
  buf := CArray.replicate BUF_SIZE 0#8

/-- `readv(clnt_sock, vec, 2)`: the bytes go to `name`, then `req`. -/
def Locals.scatter (locals : Locals) (received : List Byte) : Locals :=
  { locals with
    name := locals.name.fill (received.take NAME_SIZE)
    req := locals.req.fill (received.drop NAME_SIZE) }

/-- `"[%s] %s=%d\n"`. -/
def messageText (name text : List Byte) (opResult : Word) : List Byte :=
  ascii '[' :: name ++ [ascii ']', ascii ' '] ++ text ++ resultText opResult

/-- One iteration of the loop: the new locals and the message that is sent to
all clients. -/
def respond (locals : Locals) (received : List Byte) :
    Option (Locals × List Byte) := do
  let locals := locals.scatter received
  let computed ← computeRequest locals.req locals.operand locals.buf
  let name ← locals.name.cString?
  let text ← computed.buf.cString?
  let msg := snprintf (BUF_SIZE * 2) (messageText name text computed.opResult)
  return ({ locals with operand := computed.operand, buf := computed.buf }, msg)

def handle_clnt (locals : Locals) :
    List (List Byte) → Option (Locals × List (List Byte))
  | [] => some (locals, [])
  | received :: results => do
      let responded ← respond locals received
      let rest ← handle_clnt responded.1 results
      return (rest.1, responded.2 :: rest.2)

def broadcastText (name : List Byte) (expression : Expression) : List Byte :=
  ascii '[' :: name ++ [ascii ']', ascii ' '] ++ expression.line

theorem respond_spec {locals : Locals} {received name : List Byte}
    (isName : (locals.scatter received).name.cString? = some name)
    (fits : (requestedExpression (locals.scatter received).req
      locals.operand).Fits BUF_SIZE 0) :
    ∃ after, respond locals received = some (after,
      broadcastText name (requestedExpression (locals.scatter received).req
        locals.operand)) := by
  obtain ⟨result, ran, computes⟩ :=
    (@computeRequest_spec _ _ _ (locals.scatter received).req locals.operand
      locals.buf (by decide) (by decide)).1 fits
  generalize requestedExpression (locals.scatter received).req locals.operand =
    expression at fits computes
  have nameLength := CArray.length_lt_of_cString? isName
  have textLength := CArray.length_lt_of_cString? computes.text
  have valueLength := length_decimal_word_le expression.value
  have nameSize : NAME_SIZE = 5 := rfl
  have bufSize : BUF_SIZE = 1024 := rfl
  have message : messageText name expression.text expression.value =
      broadcastText name expression := by
    simp [messageText, broadcastText, Expression.line]
  have plain : 0#8 ∉ broadcastText name expression := by
    have opening : (0#8 : Byte) ≠ ascii '[' := by decide
    have closing : (0#8 : Byte) ≠ ascii ']' := by decide
    have blank : (0#8 : Byte) ≠ ascii ' ' := by decide
    simp [broadcastText, CArray.zero_notMem_of_cString? isName,
      expression.zero_notMem_line, opening, closing, blank]
  have whole : snprintf (BUF_SIZE * 2)
      (messageText name expression.text expression.value) =
        broadcastText name expression := by
    rw [message]
    apply snprintf_eq plain
    rw [← message]
    simp only [messageText, resultText, List.length_append, List.length_cons,
      List.length_nil]
    omega
  have received' : computeRequest (locals.scatter received).req
      (locals.scatter received).operand (locals.scatter received).buf =
        some result := ran
  refine ⟨{ locals.scatter received with
      operand := result.operand
      buf := result.buf }, ?_⟩
  simp only [respond, received', isName, computes.text, computes.opResult, whole,
    Option.bind_eq_bind, Option.bind_some, Option.pure_def]

theorem length_handle_clnt {locals after : Locals}
    {results messages : List (List Byte)}
    (ran : handle_clnt locals results = some (after, messages)) :
    messages.length = results.length := by
  induction results generalizing locals messages with
  | nil =>
      cases ran
      rfl
  | cons received results induction =>
      simp only [handle_clnt, Option.bind_eq_bind, Option.bind_eq_some_iff] at ran
      obtain ⟨responded, _, rest, tail, final⟩ := ran
      cases final
      simpa using induction tail

end NetworkProgramming.Hw8
