import NetworkProgramming.Foundation.Stdio

/-!
# The news senders and receivers of HW7

A sender reads `news.txt` with `fgets` until `feof` and sends what is in its
buffer after every read, also after the one that found nothing.  A receiver
prints every datagram as it comes.  The multicast and the broadcast programs
run the same loops.
-/

namespace NetworkProgramming.Hw7

open MachineInt Stdio

def BUF_SIZE : Nat := 30

/-! ## The programs -/

/-- `while (!feof(fp))`: the payloads of the `sendto` calls, in order.  There
are none when `strlen` finds no end in the buffer. -/
def sendNews (buf : CArray Byte BUF_SIZE) (fp : File) : Option (List (List Byte)) :=
  if fp.feof = false then do
    let got := fgets buf fp
    let payload ← got.buf.cString?
    let later ← sendNews got.buf got.fp
    return payload :: later
  else some []
termination_by fp.remaining
decreasing_by exact remaining_fgets_lt (by decide) ‹_›

/-- `buf` is not initialised. -/
def hw7_sender (buf : CArray Byte BUF_SIZE) (news : List Byte) :
    Option (List (List Byte)) :=
  sendNews buf (fopen news)

def hw7_sender_brd (buf : CArray Byte BUF_SIZE) (news : List Byte) :
    Option (List (List Byte)) :=
  sendNews buf (fopen news)

/-- `recvfrom` of `BUF_SIZE - 1` bytes, which cuts a longer datagram, and the
NUL behind them. -/
def receive (buf : CArray Byte BUF_SIZE) (payload : List Byte) :
    Option (CArray Byte BUF_SIZE) :=
  let received := payload.take (BUF_SIZE - 1)
  (buf.fill received).set? received.length 0#8

/-- What `fputs` prints while the payloads arrive. -/
def hw7_receiver (buf : CArray Byte BUF_SIZE) : List (List Byte) → Option (List Byte)
  | [] => some []
  | payload :: later => do
      let buf ← receive buf payload
      let text ← buf.cString?
      let rest ← hw7_receiver buf later
      return text ++ rest

/-! ## The rounds of the loop -/

theorem sendNews_ended (buf : CArray Byte BUF_SIZE) (rest : List Byte) :
    sendNews buf ⟨rest, true⟩ = some [] := by
  rw [sendNews]
  simp

theorem sendNews_empty (buf : CArray Byte BUF_SIZE) :
    sendNews buf ⟨[], false⟩ = buf.cString?.map fun stale => [stale] := by
  have got : fgets buf ⟨[], false⟩ = ⟨false, buf, ⟨[], true⟩⟩ := rfl
  rw [sendNews, if_pos rfl, got]
  simp only [sendNews_ended]
  cases buf.cString? <;> rfl

theorem sendNews_line {rest : List Byte} {line : Line} (plain : 0#8 ∉ line.taken)
    (found : line.taken ≠ []) (small : line.taken.length ≤ 29)
    (takes : takeLine 29 rest = line) (buf : CArray Byte BUF_SIZE) :
    ∃ filled : CArray Byte BUF_SIZE, filled.cString? = some line.taken ∧
      sendNews buf ⟨rest, false⟩ =
        (sendNews filled ⟨line.rest, line.ended⟩).map (line.taken :: ·) := by
  have limit : BUF_SIZE - 1 = 29 := rfl
  have holds : (buf.fill (line.taken ++ [0#8])).cString? = some line.taken := by
    rw [CArray.cString?_fill buf (by simp; omega) (by simp), cString_append_zero plain]
  have got : fgets buf ⟨rest, false⟩ =
      ⟨true, buf.fill (line.taken ++ [0#8]), ⟨line.rest, line.ended⟩⟩ := by
    simp [fgets, limit, takes, found]
  refine ⟨_, holds, ?_⟩
  rw [sendNews, if_pos rfl, got]
  simp only [holds, Option.bind_eq_bind, Option.bind_some]
  cases sendNews (buf.fill (line.taken ++ [0#8])) ⟨line.rest, line.ended⟩ <;> rfl

/-- What a sender adds to the file: the last piece again, when the end of the
file was not noticed with it. -/
theorem sendNews_eq {news : List Byte} (plain : 0#8 ∉ news) (nonempty : news ≠ [])
    (buf : CArray Byte BUF_SIZE) :
    ∃ payloads repeated, sendNews buf ⟨news, false⟩ = some payloads ∧
      payloads.flatten = news ++ repeated ∧
      (∀ payload ∈ payloads, 1 ≤ payload.length ∧ payload.length ≤ 29) ∧
      (repeated = [] ↔ ¬ 29 ∣ (lastLine news).length) := by
  induction length : news.length using Nat.strong_induction_on generalizing news buf with
  | _ size induction =>
      have stops := stops_takeLine 29 news
      obtain ⟨⟨taken, rest, ended⟩, takes⟩ : ∃ line, takeLine 29 news = line := ⟨_, rfl⟩
      rw [takes] at stops
      have positive := List.length_pos_iff.mpr nonempty
      cases ended with
      | true =>
          obtain ⟨rfl, rfl, short, whole⟩ := stops.ended
          have small : taken.length ≤ 29 := by omega
          obtain ⟨filled, _, sends⟩ := sendNews_line plain nonempty small takes buf
          refine ⟨[taken], [], ?_, by simp, by simp; omega, ?_⟩
          · rw [sends, sendNews_ended, Option.map_some]
          · rw [whole]
            exact iff_of_true rfl (Nat.not_dvd_of_pos_of_lt positive short)
      | false =>
          obtain ⟨rfl, found, small, sameLine⟩ := stops.continued (by decide)
          have takenPlain : 0#8 ∉ taken := fun member =>
            plain (List.mem_append_left _ member)
          have restPlain : 0#8 ∉ rest := fun member =>
            plain (List.mem_append_right _ member)
          have takenPositive := List.length_pos_iff.mpr found
          obtain ⟨filled, holds, sends⟩ := sendNews_line takenPlain found small takes buf
          by_cases last : rest = []
          · subst rest
            refine ⟨[taken, taken], taken, ?_, by simp, by simp; omega, ?_⟩
            · rw [sends, sendNews_empty, holds]
              rfl
            · rw [sameLine]
              exact iff_of_false found (by simp)
          · rw [List.length_append] at length
            obtain ⟨payloads, repeated, sent, flat, sizes, same⟩ :=
              induction rest.length (by omega) restPlain last filled rfl
            refine ⟨taken :: payloads, repeated, ?_, ?_, ?_, ?_⟩
            · rw [sends, sent, Option.map_some]
            · rw [List.flatten_cons, flat, List.append_assoc]
            · intro payload member
              rcases List.mem_cons.mp member with rfl | later
              · exact ⟨takenPositive, small⟩
              · exact sizes payload later
            · rw [same, sameLine]

/-! ## What arrives -/

/-- Datagrams that `recvfrom` need not cut are printed one behind the other. -/
theorem hw7_receiver_flatten {payloads : List (List Byte)}
    (small : ∀ payload ∈ payloads, payload.length ≤ 29) (plain : 0#8 ∉ payloads.flatten)
    (buf : CArray Byte BUF_SIZE) : hw7_receiver buf payloads = some payloads.flatten := by
  induction payloads generalizing buf with
  | nil => rfl
  | cons payload payloads induction =>
      have size := buf.length_cells
      have limit : BUF_SIZE = 30 := rfl
      have short := small payload (by simp)
      have whole : payload.take (BUF_SIZE - 1) = payload :=
        List.take_of_length_le (by omega)
      simp only [List.flatten_cons, List.mem_append, not_or] at plain
      obtain ⟨after, received⟩ : ∃ after, receive buf payload = some after := by
        have slot : payload.length < BUF_SIZE := by omega
        simp [receive, whole, CArray.set?, slot]
      have cells : after.cells = payload ++ 0#8 :: buf.cells.drop (payload.length + 1) := by
        rw [receive, whole] at received
        rw [(CArray.set?_eq_some.mp received).2, CArray.cells_fill buf (by omega),
          List.set_append_right _ _ (by omega), Nat.sub_self,
          List.drop_eq_getElem_cons (by omega), List.set_cons_zero]
      have holds : after.cString? = some payload :=
        CArray.cString?_eq_some.mpr ⟨plain.1, _, cells⟩
      have later := induction
        (fun other member => small other (List.mem_cons_of_mem _ member)) plain.2 after
      simp only [hw7_receiver, received, holds, later, Option.bind_eq_bind,
        Option.bind_some, Option.pure_def, List.flatten_cons]

/-- The payloads are the file in pieces of 1 to 29 bytes, and a receiver that
gets them all in order prints the file. -/
def SendsFile (news : List Byte) (sent : Option (List (List Byte))) : Prop :=
  ∃ payloads, sent = some payloads ∧ payloads.flatten = news ∧
    (∀ payload ∈ payloads, 1 ≤ payload.length ∧ payload.length ≤ 29) ∧
      ∀ buf, hw7_receiver buf payloads = some news

theorem sendsFile_sendNews_iff {news : List Byte} (plain : 0#8 ∉ news)
    (buf : CArray Byte BUF_SIZE) :
    SendsFile news (sendNews buf (fopen news)) ↔ ¬ 29 ∣ (lastLine news).length := by
  by_cases nonempty : news = []
  · subst nonempty
    refine iff_of_false ?_ (by simp)
    intro sends
    obtain ⟨payloads, sent, flat, sizes, _⟩ := sends
    rw [fopen, sendNews_empty, Option.map_eq_some_iff] at sent
    obtain ⟨stale, _, rfl⟩ := sent
    obtain rfl : stale = [] := by simpa using flat
    simpa using sizes [] (by simp)
  · obtain ⟨payloads, repeated, sent, flat, sizes, unrepeated⟩ :=
      sendNews_eq plain nonempty buf
    rw [← unrepeated]
    constructor
    · intro sends
      obtain ⟨others, same, whole, _⟩ := sends
      obtain rfl : others = payloads := by
        rw [fopen, sent] at same
        exact (Option.some.inj same).symm
      simpa [whole] using flat
    · rintro rfl
      rw [List.append_nil] at flat
      refine ⟨payloads, sent, flat, sizes, fun receiver => ?_⟩
      rw [hw7_receiver_flatten (fun payload member => (sizes payload member).2)
        (by rw [flat]; exact plain), flat]

/-- Both senders send the file exactly when the text behind its last newline
does not fill whole buffers; no text there fills none. -/
theorem news_sent_iff {news : List Byte} (plain : 0#8 ∉ news)
    (buf : CArray Byte BUF_SIZE) :
    (SendsFile news (hw7_sender buf news) ∧ SendsFile news (hw7_sender_brd buf news)) ↔
      ¬ 29 ∣ (lastLine news).length := by
  rw [hw7_sender, hw7_sender_brd, and_self]
  exact sendsFile_sendNews_iff plain buf

/-- `"a\nb"`. -/
theorem news_sent : SendsFile [ascii 'a', ascii '\n', ascii 'b']
    (hw7_sender (CArray.replicate BUF_SIZE 0#8) [ascii 'a', ascii '\n', ascii 'b']) :=
  ((news_sent_iff (by decide) (CArray.replicate BUF_SIZE 0#8)).mpr (by decide)).1

/-- The last line of `"a\n"` is sent twice. -/
theorem news_repeated :
    hw7_sender (CArray.replicate BUF_SIZE 0#8) [ascii 'a', ascii '\n'] =
        some [[ascii 'a', ascii '\n'], [ascii 'a', ascii '\n']] ∧
      ¬ SendsFile [ascii 'a', ascii '\n']
        (hw7_sender (CArray.replicate BUF_SIZE 0#8) [ascii 'a', ascii '\n']) := by
  constructor
  · decide +kernel
  · rw [hw7_sender, sendsFile_sendNews_iff (by decide)]
    decide

end NetworkProgramming.Hw7
