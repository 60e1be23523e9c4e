import NetworkProgramming.Hw8.LineToBroadcast

/-!
# What a request of `hw8_client` says of its line

`send_msg` checks its count after it was narrowed to a `char` and leaves its
loops without a word when the tokens run out; the request is written all the
same.  What an earlier line left in `req` then stands where the tokens of this
one should.
-/

namespace NetworkProgramming.Hw8

open MachineInt Strtok Client

/-- The count byte is the declared count, and the server decodes the operands
and operators of the line, whatever it decoded before. -/
structure Carries (atoi : List Byte → Word) (stored request : List Byte) : Prop where
  tokens : ∃ counted found, lineTokens stored = counted :: found ∧
    Supplied (atoi counted).toInt found ∧
    (request.getD NAME_SIZE 0#8).toInt = (atoi counted).toInt ∧
    ∀ locals : Locals, requestedExpression (locals.scatter request).req locals.operand =
      foundExpression atoi (atoi counted).toInt.toNat found

/-- A line without a token, with a count that does not pass the check, or with
all that it declares. -/
def WellSupplied (atoi : List Byte → Word) (stored : List Byte) : Prop :=
  ∀ counted found, lineTokens stored = counted :: found →
    ((atoi counted).setWidth 8).toInt ≤ 0 ∨ Supplied (atoi counted).toInt found

theorem sendLine_carries_iff {atoi : List Byte → Word} {name : CArray Byte NAME_SIZE}
    {stored : List Byte} (short : stored.length < BUF_SIZE) (locals : SendLocals) :
    (∀ final request, sendLine atoi name stored locals = some (final, .request request) →
      Carries atoi stored request) ↔ WellSupplied atoi stored := by
  constructor
  · intro carries counted found split
    by_cases rejected : ((atoi counted).setWidth 8).toInt ≤ 0
    · exact .inl rejected
    · obtain ⟨line, stopped, packs⟩ := @sendLine_request atoi name stored locals short
        _ _ split (by omega)
      obtain ⟨packed, isPacked⟩ := @pack_isSome atoi ((atoi counted).setWidth 8) found
        (nonempty_of_lineTokens split) locals.req
      rw [isPacked, Option.map_some] at packs
      obtain ⟨other, behind, same, supplied, _⟩ := (carries _ _ packs).tokens
      rw [split] at same
      cases same
      exact .inr supplied
  · intro plain final request sent
    cases split : lineTokens stored with
    | nil =>
        obtain ⟨next, passed⟩ := @sendLine_nothing atoi name stored locals short split
        rw [passed] at sent
        cases sent
    | cons counted found =>
        rcases plain counted found split with rejected | supplied
        · obtain ⟨next, closed⟩ := @sendLine_closed atoi name stored locals short _ _
            split rejected
          rw [closed] at sent
          cases sent
        · obtain ⟨last, tail, packed, cells, count⟩ :=
            sendLine_supplied short split supplied name locals
          rw [packed] at sent
          cases sent
          obtain ⟨positive, small, enough⟩ := supplied
          refine ⟨counted, found, split, ⟨positive, small, enough⟩, ?_, ?_⟩
          · rw [List.getD_eq_getElem?_getD,
              List.getElem?_append_right (by rw [name.length_cells]),
              name.length_cells, Nat.sub_self, cells, Expression.encode]
            have byte := @toInt_ofNat_char (atoi counted).toInt.toNat (by omega)
            simp only [List.cons_append, List.getElem?_cons_zero, Option.getD_some, count,
              byte]
            omega
          · intro server
            rw [scatter_sent]
            exact requestedExpression_encode (by omega) cells

def Sent.requests : Sent → List (List Byte)
  | .request bytes => [bytes]
  | .nothing | .closed => []

theorem send_msg_last {atoi : List Byte → Word} {name : CArray Byte NAME_SIZE}
    {earlier requests : List (List Byte)} {start reached next : SendLocals}
    {stored : List Byte} {sent : Sent}
    (running : send_msg atoi name earlier start = some (some reached, requests))
    (iteration : sendLine atoi name stored reached = some (next, sent)) :
    ∃ final, send_msg atoi name (earlier ++ [stored]) start =
      some (final, requests ++ sent.requests) := by
  rw [send_msg_append running]
  cases sent <;> simp [send_msg, iteration, Sent.requests]

/-- After any earlier lines, what the client sends for a line carries that line
exactly when the line is well supplied. -/
theorem request_faithful_iff {atoi : List Byte → Word} {name : CArray Byte NAME_SIZE}
    {earlier requests : List (List Byte)} {start reached : SendLocals}
    (running : send_msg atoi name earlier start = some (some reached, requests))
    {stored : List Byte} (short : stored.length < BUF_SIZE) :
    (∃ final sent, send_msg atoi name (earlier ++ [stored]) start =
        some (final, requests ++ sent) ∧
      ∀ request ∈ sent, Carries atoi stored request) ↔ WellSupplied atoi stored := by
  rw [← @sendLine_carries_iff atoi name stored short reached]
  obtain ⟨⟨next, result⟩, iteration⟩ := @sendLine_isSome atoi name stored reached short
  obtain ⟨final, ran⟩ := send_msg_last running iteration
  constructor
  · intro given after request isRequest
    obtain ⟨last, sent, whole, carried⟩ := given
    rw [iteration] at isRequest
    cases isRequest
    rw [ran] at whole
    simp only [Option.some.injEq, Prod.mk.injEq, List.append_cancel_left_eq] at whole
    exact carried request (by simp [← whole.2, Sent.requests])
  · intro carries
    refine ⟨final, _, ran, ?_⟩
    intro request member
    cases result with
    | nothing => simp [Sent.requests] at member
    | closed => simp [Sent.requests] at member
    | request bytes =>
        obtain rfl : request = bytes := by simpa [Sent.requests] using member
        exact carries next request iteration

/-- `2 5`: one operand and the operator are missing. -/
def missingLine : List Byte := [ascii '2', ascii ' ', ascii '5', ascii '\n']

theorem product_faithful : ∃ final requests sent,
    send_msg atoi kimName [missingLine, productLine] SendLocals.zero =
        some (final, requests ++ sent) ∧
      ∀ request ∈ sent, Carries atoi productLine request := by
  have goesOn : (send_msg atoi kimName [missingLine] SendLocals.zero).any
      (fun result => result.1.isSome) = true := by decide +kernel
  obtain ⟨running, requests, ran⟩ := @send_msg_isSome atoi kimName [missingLine]
    (by decide) SendLocals.zero
  rw [ran, Option.any_some] at goesOn
  obtain ⟨reached, rfl⟩ := Option.isSome_iff_exists.mp goesOn
  have supplied : WellSupplied atoi productLine := by
    intro counted found split
    have tokens : lineTokens productLine = [[ascii '2'], [ascii '3', ascii '0'],
        [ascii '-', ascii '4'], [ascii '*']] := by decide
    rw [tokens] at split
    cases split
    exact .inr (by unfold Supplied; decide)
  obtain ⟨final, sent, sends, carried⟩ :=
    (request_faithful_iff ran (by decide)).mpr supplied
  exact ⟨final, requests, sent, sends, carried⟩

/-- Behind `2 30 -4 *` the line `2 5` asks for `5 * -4`. -/
theorem stale_tokens_sent : ∃ final first request,
    send_msg atoi kimName [productLine, missingLine] SendLocals.zero =
        some (final, [first, request]) ∧
      requestedExpression (Locals.zero.scatter request).req Locals.zero.operand =
        ⟨5#32, [(ascii '*', -4#32)]⟩ ∧
      ¬ Carries atoi missingLine request := by
  obtain ⟨final, requests, ran⟩ := @send_msg_isSome atoi kimName
    [productLine, missingLine] (by decide) SendLocals.zero
  have decoded : (send_msg atoi kimName [productLine, missingLine] SendLocals.zero).map
      (fun result => result.2.map fun request =>
        requestedExpression (Locals.zero.scatter request).req Locals.zero.operand) =
        some [⟨30#32, [(ascii '*', -4#32)]⟩, ⟨5#32, [(ascii '*', -4#32)]⟩] := by
    decide +kernel
  rw [ran, Option.map_some, Option.some.injEq] at decoded
  obtain ⟨first, others, rfl, _, rest⟩ := List.map_eq_cons_iff.mp decoded
  obtain ⟨request, none, rfl, second, nothing⟩ := List.map_eq_cons_iff.mp rest
  obtain rfl := List.map_eq_nil_iff.mp nothing
  refine ⟨final, first, request, ran, second, ?_⟩
  intro carries
  obtain ⟨counted, found, split, supplied, _⟩ := carries.tokens
  have tokens : lineTokens missingLine = [[ascii '2'], [ascii '5']] := by decide
  rw [tokens] at split
  cases split
  exact absurd supplied (by unfold Supplied; decide)

end NetworkProgramming.Hw8
