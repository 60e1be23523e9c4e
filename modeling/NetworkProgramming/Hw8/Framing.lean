import NetworkProgramming.Foundation.Channel
import NetworkProgramming.Hw8.Server

/-!
# Requests on a byte stream

`handle_clnt` keeps no count of the bytes it has received: whatever `readv`
returns is a request.  A stream of whole requests is therefore served as its
client meant it exactly when every `readv` returns one whole request.
-/

namespace NetworkProgramming.Hw8

open MachineInt

def REQUEST_SIZE : Nat := NAME_SIZE + BUF_SIZE

/-- A connection sends the messages of its whole requests exactly when every
`readv` returned one of them. -/
theorem framing_kept_iff {locals after : Locals}
    {requests segments messages : List (List Byte)}
    (requestSizes : ∀ request ∈ requests, request.length = REQUEST_SIZE)
    (whole : handle_clnt locals requests = some (after, messages))
    (segmentSizes : ∀ segment ∈ segments,
      0 < segment.length ∧ segment.length ≤ REQUEST_SIZE)
    (sameStream : segments.flatten = requests.flatten) :
    (∃ final, handle_clnt locals segments = some (final, messages)) ↔
      segments = requests := by
  constructor
  · intro given
    obtain ⟨final, ran⟩ := given
    have sameLength : segments.length = requests.length :=
      (length_handle_clnt ran).symm.trans (length_handle_clnt whole)
    have total : segments.flatten.length = segments.length * REQUEST_SIZE := by
      rw [sameStream, Channel.length_flatten_full requestSizes, sameLength]
    have full := Channel.full_of_length_flatten
      (fun segment member => (segmentSizes segment member).2) total
    exact Channel.full_blocks_eq full requestSizes sameLength sameStream
  · rintro rfl
    exact ⟨after, whole⟩

def cutName : List Byte := [ascii 'a', ascii 'b', ascii 'c', ascii 'd', 0#8]

/-- The body of the request `7`. -/
def cutBody : List Byte := [1#8, 7#8] ++ List.replicate 1022 0#8

theorem framing_kept_iff_cut : ∃ after messages,
    handle_clnt Locals.zero [cutName ++ cutBody] = some (after, messages) ∧
      ((∃ final, handle_clnt Locals.zero [cutName, cutBody] =
        some (final, messages)) ↔ [cutName, cutBody] = [cutName ++ cutBody]) := by
  have defined : (handle_clnt Locals.zero [cutName ++ cutBody]).isSome := by
    decide +kernel
  obtain ⟨⟨after, messages⟩, whole⟩ := Option.isSome_iff_exists.mp defined
  exact ⟨after, messages, whole, framing_kept_iff (by decide +kernel) whole
    (by decide +kernel) rfl⟩

/-- Cut behind the name, one request gives two messages. -/
theorem cut_behind_name :
    (handle_clnt Locals.zero [cutName ++ cutBody]).map Prod.snd =
        some [broadcastText [ascii 'a', ascii 'b', ascii 'c', ascii 'd'] ⟨7, []⟩] ∧
      (handle_clnt Locals.zero [cutName, cutBody]).map Prod.snd ≠
        (handle_clnt Locals.zero [cutName ++ cutBody]).map Prod.snd := by
  decide +kernel

end NetworkProgramming.Hw8
