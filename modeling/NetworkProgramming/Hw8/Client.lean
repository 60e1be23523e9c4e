import NetworkProgramming.Client
import NetworkProgramming.Foundation.Strtok
import NetworkProgramming.Hw8.Server

/-!
# The sending thread of `hw8_client`

`send_msg` splits each line of the terminal at spaces, packs the tokens into
`req[1024]` and writes the name and the whole buffer.  The buffer keeps what
earlier lines put there.
-/

namespace NetworkProgramming.Hw8

open MachineInt Strtok

/-- The locals of `send_msg`, which keep what the last line left. -/
structure SendLocals where
  req : CArray Byte BUF_SIZE
  input : CArray Byte BUF_SIZE
  position : Nat

/-- `fgets(input, BUF_SIZE, stdin)`, storing the given bytes, and
`input[strcspn(input, "\n")] = 0`. -/
def readLine (stored : List Byte) (input : CArray Byte BUF_SIZE) :
    Option (CArray Byte BUF_SIZE) := do
  let input ← input.print? stored
  let text ← input.cString?
  input.set? (text.takeWhile (· ≠ ascii '\n')).length 0#8

/-- `for (; left > 0; i++)` with `strtok(NULL, " ")` in front of the body; the
loop is left early when there is no token. -/
def storeTokens (store : Nat → List Byte → CArray Byte BUF_SIZE →
      Option (CArray Byte BUF_SIZE)) :
    Nat → Nat → SendLocals → Option SendLocals
  | 0, _, locals => some locals
  | left + 1, i, locals => do
      let (token, input, position) ←
        strtok (ascii ' ') locals.input locals.position
      match token with
      | none => return { locals with input := input, position := position }
      | some token =>
          let req ← store i token locals.req
          storeTokens store left (i + 1) ⟨req, input, position⟩

/-- `val = atoi(token); memcpy(&req[1 + i * 4], &val, 4)`. -/
def storeOperand (atoi : List Byte → Word) (i : Nat) (token : List Byte)
    (req : CArray Byte BUF_SIZE) : Option (CArray Byte BUF_SIZE) :=
  req.write? (1 + i * 4) (Word.toBytes (atoi token))

/-- `req[1 + opCount * 4 + i] = token[0]`. -/
def storeOperator (opCount i : Nat) (token : List Byte)
    (req : CArray Byte BUF_SIZE) : Option (CArray Byte BUF_SIZE) := do
  let operator ← token.head?
  req.set? (1 + opCount * 4 + i) operator

/-- How an iteration of `send_msg` ends: a line without a token is passed over,
a count that is not positive closes the client. -/
inductive Sent where
  | nothing
  | closed
  | request (bytes : List Byte)
deriving DecidableEq

def sendLine (atoi : List Byte → Word) (name : CArray Byte NAME_SIZE)
    (stored : List Byte) (locals : SendLocals) : Option (SendLocals × Sent) := do
  let input ← readLine stored locals.input
  let (token, input, position) ← strtok (ascii ' ') input 0
  match token with
  | none => return (⟨locals.req, input, position⟩, .nothing)
  | some token =>
      let opCount : Byte := (atoi token).setWidth 8
      if opCount.toInt ≤ 0 then
        return (⟨locals.req, input, position⟩, .closed)
      let req ← locals.req.set? 0 opCount
      let locals ← storeTokens (storeOperand atoi) opCount.toInt.toNat 0
        ⟨req, input, position⟩
      let locals ← storeTokens (storeOperator opCount.toInt.toNat)
        (opCount.toInt - 1).toNat 0 locals
      return (locals, .request (name.cells ++ locals.req.cells))

/-- The loop over the lines: the locals unless the client was closed, and the
requests written. -/
def send_msg (atoi : List Byte → Word) (name : CArray Byte NAME_SIZE) :
    List (List Byte) → SendLocals → Option (Option SendLocals × List (List Byte))
  | [], locals => some (some locals, [])
  | stored :: lines, locals => do
      let (locals, sent) ← sendLine atoi name stored locals
      match sent with
      | .closed => return (none, [])
      | .nothing => send_msg atoi name lines locals
      | .request bytes =>
          let (final, requests) ← send_msg atoi name lines locals
          return (final, bytes :: requests)

/-! ## Reading a line -/

theorem readLine_spec {stored : List Byte} (short : stored.length < BUF_SIZE)
    (input : CArray Byte BUF_SIZE) :
    ∃ line, readLine stored input = some line ∧
      Scans (ascii ' ') line 0
        (tokens (ascii ' ') ((cString stored).takeWhile (· ≠ ascii '\n'))) := by
  obtain ⟨printed, fgets⟩ : ∃ printed, input.print? stored = some printed :=
    CArray.print?_isSome short
  have holds := CArray.cString?_print fgets
  obtain ⟨plain, rest, cells⟩ := CArray.cString?_eq_some.mp holds
  set text := (cString stored).takeWhile (· ≠ ascii '\n') with isText
  obtain ⟨tail, split⟩ : ∃ tail, cString stored = text ++ tail :=
    ⟨_, List.takeWhile_append_dropWhile.symm⟩
  obtain ⟨first, behind, shape⟩ :
      ∃ first behind, tail ++ 0#8 :: rest = first :: behind := by
    cases tail with
    | nil => exact ⟨_, _, rfl⟩
    | cons first tail => exact ⟨_, _, rfl⟩
  have whole : printed.cells = text ++ first :: behind := by
    rw [cells, split, List.append_assoc, shape]
  have inside : text.length < BUF_SIZE := by
    have length := printed.length_cells
    rw [whole, List.length_append, List.length_cons] at length
    omega
  have textPlain : 0#8 ∉ text := fun member =>
    plain (by rw [split]; exact List.mem_append_left _ member)
  obtain ⟨line, lineCells⟩ : ∃ line : CArray Byte BUF_SIZE,
      line.cells = text ++ 0#8 :: behind := by
    refine ⟨⟨text ++ 0#8 :: behind, ?_⟩, rfl⟩
    have length := printed.length_cells
    rw [whole] at length
    simpa using length
  refine ⟨line, ?_, scans_of_drop textPlain lineCells⟩
  simp only [readLine, fgets, holds, Option.bind_eq_bind, Option.bind_some, ← isText]
  refine CArray.set?_eq_some.mpr ⟨inside, ?_⟩
  rw [whole, lineCells, List.set_append_right _ _ (Nat.le_refl _), Nat.sub_self,
    List.set_cons_zero]

/-! ## The loops over the tokens -/

theorem storeTokens_spec {store : Nat → List Byte → CArray Byte BUF_SIZE →
      Option (CArray Byte BUF_SIZE)} {left i : Nat} {input : CArray Byte BUF_SIZE}
    {position : Nat} {found : List (List Byte)}
    (scans : Scans (ascii ' ') input position found) :
    ∃ line stopped, Scans (ascii ' ') line stopped (found.drop left) ∧
      ∀ req, storeTokens store left i ⟨req, input, position⟩ =
        (forLoop (fun j req => store (i + j) (found.getD j []) req)
          (min left found.length) req).map fun req => ⟨req, line, stopped⟩ := by
  induction left generalizing i input position found with
  | zero => exact ⟨input, position, scans, fun req => by simp [storeTokens]⟩
  | succ left induction =>
      cases found with
      | nil =>
          obtain ⟨stopped, returned, ended⟩ := strtok_nil scans
          exact ⟨input, stopped, ended, fun req => by
            simp [storeTokens, returned]⟩
      | cons token found =>
          obtain ⟨cut, next, returned, scansNext⟩ := strtok_cons scans
          obtain ⟨line, stopped, ended, loop⟩ :=
            @induction (i + 1) _ _ _ scansNext
          refine ⟨line, stopped, ended, fun req => ?_⟩
          simp only [storeTokens, returned, Option.bind_eq_bind,
            Option.bind_some, loop, List.length_cons, Nat.add_min_add_right,
            forLoop_front, List.getD_cons_zero, List.getD_cons_succ,
            Nat.add_zero]
          cases store i token req with
          | none => rfl
          | some stored =>
              simp only [Option.bind_some, Nat.add_assoc, Nat.add_comm 1]

private theorem getD_ne_nil {tokens : List (List Byte)}
    (nonempty : ∀ token ∈ tokens, token ≠ []) {index : Nat}
    (bound : index < tokens.length) : tokens.getD index [] ≠ [] := by
  rw [List.getD_eq_getElem?_getD, List.getElem?_eq_getElem bound, Option.getD_some]
  exact nonempty _ (List.getElem_mem bound)

theorem storeOperands_isSome {atoi : List Byte → Word} {count : Nat}
    {token : Nat → List Byte} (small : count ≤ 127) (req : CArray Byte BUF_SIZE) :
    ∃ stored, forLoop (fun i req => storeOperand atoi i (token i) req) count req =
      some stored := by
  have size : BUF_SIZE = 1024 := rfl
  obtain ⟨stored, loop, _⟩ := @forLoop_total _
    (fun i req => storeOperand atoi i (token i) req) req count (fun _ _ => True)
    trivial (by
      intro index bound before _
      obtain ⟨after, written⟩ : ∃ after, before.write? (1 + index * 4)
          (Word.toBytes (atoi (token index))) = some after :=
        CArray.write?_isSome (by rw [Word.length_toBytes]; omega)
      exact ⟨after, written, trivial⟩)
  exact ⟨stored, loop⟩

theorem storeOperators_isSome {opCount count : Nat} {token : Nat → List Byte}
    (small : opCount ≤ 127) (bounded : count ≤ opCount)
    (nonempty : ∀ index < count, token index ≠ []) (req : CArray Byte BUF_SIZE) :
    ∃ stored, forLoop (fun i req => storeOperator opCount i (token i) req) count
      req = some stored := by
  have size : BUF_SIZE = 1024 := rfl
  obtain ⟨stored, loop, _⟩ := @forLoop_total _
    (fun i req => storeOperator opCount i (token i) req) req count
    (fun _ _ => True) trivial (by
      intro index bound before _
      obtain ⟨operator, rest, shape⟩ :=
        List.exists_cons_of_ne_nil (nonempty index bound)
      have inside : 1 + opCount * 4 + index < BUF_SIZE := by omega
      simp [storeOperator, shape, CArray.set?, inside])
  exact ⟨stored, loop⟩

/-! ## One line -/

section sendLine

variable {atoi : List Byte → Word} {name : CArray Byte NAME_SIZE}
  {stored : List Byte} {locals : SendLocals}

def lineTokens (stored : List Byte) : List (List Byte) :=
  tokens (ascii ' ') ((cString stored).takeWhile (· ≠ ascii '\n'))

/-- What a line with a positive count leaves in `req`: the count, then the
tokens there are, at the offsets of the protocol. -/
def pack (atoi : List Byte → Word) (opCount : Byte) (found : List (List Byte))
    (req : CArray Byte BUF_SIZE) : Option (CArray Byte BUF_SIZE) := do
  let operators := found.drop opCount.toInt.toNat
  let req ← req.set? 0 opCount
  let req ← forLoop (fun i req => storeOperand atoi i (found.getD i []) req)
    (min opCount.toInt.toNat found.length) req
  forLoop (fun i req => storeOperator opCount.toInt.toNat i (operators.getD i []) req)
    (min (opCount.toInt - 1).toNat operators.length) req

theorem pack_isSome {opCount : Byte} {found : List (List Byte)}
    (nonempty : ∀ token ∈ found, token ≠ []) (req : CArray Byte BUF_SIZE) :
    ∃ packed, pack atoi opCount found req = some packed := by
  have size : BUF_SIZE = 1024 := rfl
  have small := @BitVec.toInt_lt 8 opCount
  have inside : 0 < BUF_SIZE := by omega
  obtain ⟨counted, set⟩ : ∃ counted, req.set? 0 opCount = some counted := by
    simp [CArray.set?, inside]
  obtain ⟨withOperands, operands⟩ := @storeOperands_isSome atoi
    (min opCount.toInt.toNat found.length) (fun i => found.getD i []) (by omega)
    counted
  obtain ⟨packed, operators⟩ := @storeOperators_isSome opCount.toInt.toNat
    (min (opCount.toInt - 1).toNat (found.drop opCount.toInt.toNat).length)
    (fun i => (found.drop opCount.toInt.toNat).getD i []) (by omega) (by omega)
    (fun index bound => getD_ne_nil
      (fun token member => nonempty token (List.mem_of_mem_drop member))
      (by omega)) withOperands
  refine ⟨packed, ?_⟩
  simp only [pack, set, operands, operators, Option.bind_eq_bind,
    Option.bind_some]

/-- A line with a positive count is packed behind what the buffer held. -/
theorem sendLine_request (short : stored.length < BUF_SIZE) {counted : List Byte}
    {found : List (List Byte)} (split : lineTokens stored = counted :: found)
    (positive : 0 < ((atoi counted).setWidth 8).toInt) :
    ∃ line stopped, sendLine atoi name stored locals =
      (pack atoi ((atoi counted).setWidth 8) found locals.req).map fun req =>
        (⟨req, line, stopped⟩, .request (name.cells ++ req.cells)) := by
  obtain ⟨read, reads, scans⟩ := readLine_spec short locals.input
  rw [← lineTokens, split] at scans
  obtain ⟨cut, position, first, scansOperands⟩ := strtok_cons scans
  simp only [sendLine, reads, first, Option.bind_eq_bind, Option.bind_some]
  generalize (atoi counted).setWidth 8 = opCount at positive
  obtain ⟨cutMore, between, scansOperators, operandLoop⟩ :=
    @storeTokens_spec (storeOperand atoi) opCount.toInt.toNat 0 _ _ _ scansOperands
  obtain ⟨line, stopped, _, operatorLoop⟩ :=
    @storeTokens_spec (storeOperator opCount.toInt.toNat) (opCount.toInt - 1).toNat
      0 _ _ _ scansOperators
  refine ⟨line, stopped, ?_⟩
  have accepted : ¬ opCount.toInt ≤ 0 := by omega
  simp only [accepted, if_false, pack, Option.bind_eq_bind, Option.pure_def,
    operandLoop, Nat.zero_add]
  cases locals.req.set? 0 opCount with
  | none => rfl
  | some req =>
      simp only [Option.bind_some]
      cases forLoop (fun i req => storeOperand atoi i (found.getD i []) req)
          (min opCount.toInt.toNat found.length) req with
      | none => rfl
      | some withOperands =>
          simp only [Option.map_some, Option.bind_some, operatorLoop, Nat.zero_add]
          cases forLoop _ _ withOperands <;> rfl

theorem sendLine_nothing (short : stored.length < BUF_SIZE)
    (blank : lineTokens stored = []) :
    ∃ next, sendLine atoi name stored locals = some (next, .nothing) := by
  obtain ⟨read, reads, scans⟩ := readLine_spec short locals.input
  rw [← lineTokens, blank] at scans
  obtain ⟨position, first, _⟩ := strtok_nil scans
  simp [sendLine, reads, first]

theorem sendLine_closed (short : stored.length < BUF_SIZE) {counted : List Byte}
    {found : List (List Byte)} (split : lineTokens stored = counted :: found)
    (rejected : ((atoi counted).setWidth 8).toInt ≤ 0) :
    ∃ next, sendLine atoi name stored locals = some (next, .closed) := by
  obtain ⟨read, reads, scans⟩ := readLine_spec short locals.input
  rw [← lineTokens, split] at scans
  obtain ⟨cut, position, first, _⟩ := strtok_cons scans
  simp only [sendLine, reads, first, Option.bind_eq_bind, Option.bind_some,
    rejected, if_true]
  exact ⟨_, rfl⟩

theorem nonempty_of_lineTokens {counted : List Byte} {found : List (List Byte)}
    (split : lineTokens stored = counted :: found) :
    ∀ token ∈ found, token ≠ [] := fun token member =>
  ne_nil_of_mem_tokens (split ▸ List.mem_cons_of_mem _ member :
    token ∈ lineTokens stored)

theorem sendLine_isSome (short : stored.length < BUF_SIZE) :
    ∃ result, sendLine atoi name stored locals = some result := by
  cases split : lineTokens stored with
  | nil =>
      obtain ⟨next, passed⟩ := @sendLine_nothing atoi name stored locals short split
      exact ⟨_, passed⟩
  | cons counted found =>
      by_cases positive : 0 < ((atoi counted).setWidth 8).toInt
      · obtain ⟨line, stopped, packs⟩ :=
          @sendLine_request atoi name stored locals short _ _ split positive
        obtain ⟨packed, isPacked⟩ := @pack_isSome atoi
          ((atoi counted).setWidth 8) found (nonempty_of_lineTokens split) locals.req
        exact ⟨_, by rw [packs, isPacked, Option.map_some]⟩
      · obtain ⟨next, closed⟩ := @sendLine_closed atoi name stored locals short _ _ split
          (by omega)
        exact ⟨_, closed⟩

end sendLine

/-! ## The loop over the lines -/

theorem send_msg_isSome {atoi : List Byte → Word} {name : CArray Byte NAME_SIZE}
    {lines : List (List Byte)} (short : ∀ line ∈ lines, line.length < BUF_SIZE)
    (locals : SendLocals) :
    ∃ final requests, send_msg atoi name lines locals = some (final, requests) := by
  induction lines generalizing locals with
  | nil => exact ⟨_, _, rfl⟩
  | cons stored lines induction =>
      obtain ⟨⟨next, sent⟩, iteration⟩ := @sendLine_isSome atoi name stored locals
        (short stored (by simp))
      obtain ⟨final, requests, loop⟩ :=
        induction (fun line member => short line (by simp [member])) next
      cases sent <;>
        simp [send_msg, iteration, loop]

theorem send_msg_append {atoi : List Byte → Word} {name : CArray Byte NAME_SIZE}
    {earlier lines requests : List (List Byte)} {locals reached : SendLocals}
    (running : send_msg atoi name earlier locals = some (some reached, requests)) :
    send_msg atoi name (earlier ++ lines) locals =
      (send_msg atoi name lines reached).map fun rest =>
        (rest.1, requests ++ rest.2) := by
  induction earlier generalizing locals requests with
  | nil =>
      cases running
      simp
  | cons stored earlier induction =>
      simp only [send_msg, Option.bind_eq_bind, List.cons_append] at running ⊢
      cases iteration : sendLine atoi name stored locals with
      | none => simp [iteration] at running
      | some result =>
          obtain ⟨next, sent⟩ := result
          simp only [iteration, Option.bind_some] at running ⊢
          cases sent with
          | closed => simp at running
          | nothing => exact induction running
          | request bytes =>
              simp only [Option.bind_eq_some_iff] at running
              obtain ⟨⟨final, tail⟩, loop, result⟩ := running
              cases result
              rw [induction loop]
              cases send_msg atoi name lines reached <;> rfl

end NetworkProgramming.Hw8
