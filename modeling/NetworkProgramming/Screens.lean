import NetworkProgramming.ClientBounds
import NetworkProgramming.Hw5.Worker

/-!
# What the users of the calculator see

The interactive clients ask for the same things and print the answer in the same
way.
-/

namespace NetworkProgramming.Client

open MachineInt Hw5

def countPrompt : List Byte := literal "Operand count: "

/-- What the encoding loops ask behind the count. -/
def prompts (opCount : Int) : List Byte :=
  (List.range opCount.toNat).flatMap
      (fun (i : Nat) => literal "Operand " ++ decimal i ++ literal ": ") ++
    (List.range (opCount - 1).toNat).flatMap
      fun (i : Nat) => literal "Operator " ++ decimal i ++ literal ": "

def operationResult (opResult : Word) : List Byte :=
  literal "Operation result: " ++ decimal opResult.toInt ++ [ascii '\n']

/-- `buf[0] <= 0`, with the count as a `char`. -/
def Input.Refused (input : Input) : Prop := (BitVec.ofInt 8 input.opCount).toInt ≤ 0

instance (input : Input) : Decidable input.Refused := inferInstanceAs (Decidable (_ ≤ _))

/-- What a user of `hw3_client` or `hw5_client` should see. -/
def Input.screen (input : Input) : List Byte :=
  countPrompt ++ if input.Refused then [] else
    prompts input.opCount ++ operationResult input.expression.value

variable {input : Input}

theorem sentBytes_refused (accountable : input.Accountable) (refused : input.Refused)
    (buf : CArray Byte MAX) :
    sentBytes input buf = some [BitVec.ofInt 8 input.opCount] := by
  rcases sendsTyped_iff.mpr accountable with ⟨count, _, sent⟩ | ⟨bytes, sent, counts, rfl⟩
  · rw [sent, sentBytes_head sent]
  · have head := sentBytes_head sent
    rw [Expression.encode, List.getD_cons_zero] at counts
    unfold Input.Refused at refused
    have none : input.opCount.toNat = 0 := by
      rw [← head] at refused
      omega
    have count : (BitVec.ofNat 8 input.expression.count).toInt = 1 := by
      have only : (input.opCount - 1).toNat = 0 := by omega
      simp [Expression.count, Input.expression, only]
    omega

theorem sentBytes_accepted (accountable : input.Accountable)
    (accepted : ¬ input.Refused) (buf : CArray Byte MAX) :
    sentBytes input buf = some input.expression.encode ∧
      input.expression.count ≤ 127 := by
  obtain ⟨positive, small⟩ := accountable.resolve_left accepted
  have count := count_expression positive
  rcases sendsTyped_iff.mpr accountable with ⟨byte, refused, sent⟩ | ⟨bytes, sent, _, rfl⟩
  · rw [sentBytes_head sent] at refused
    exact absurd refused accepted
  · exact ⟨sent, by omega⟩

end NetworkProgramming.Client
