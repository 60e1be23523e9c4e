import NetworkProgramming.Foundation.Duplex
import NetworkProgramming.Hw4.Echo

/-!
# The file transfer of `file_server.c` and `file_client.c`

The two programs run the same loops as `hw4_server` and `hw4_client`.  Behind its loop
the client thanks over the direction that is still open, and the server prints what one
`read` puts into the buffer from which it sent the end of the file.
-/

namespace NetworkProgramming.Hw4.Practice.FileTransfer

open Duplex MachineInt Transition

/-- How far `file_client` is behind its loop. -/
inductive ClientEnd where
  | receiving
  | thanked
  | closed
deriving DecidableEq

/-- How far `file_server` is behind its loop. -/
inductive ServerEnd where
  | waiting
  | printed
  /-- `printf` has found no NUL in `buf`. -/
  | overread
deriving DecidableEq

/-- The transfer and the thanks that go the other way. -/
structure Session where
  /-- The two loops and the buffers. -/
  transfer : System
  client : ClientEnd
  up : Direction Byte
  server : ServerEnd
  /-- What was in the server's `buf` before the last `read`, and what it returned. -/
  before : CArray Byte BUF_SIZE
  got : List Byte
  stdout : List Byte

def Session.initial (test : List Byte) (serverBuf clientBuf : CArray Byte BUF_SIZE) :
    Session where
  transfer := System.initial test serverBuf clientBuf
  client := .receiving
  up := .fresh Byte
  server := .waiting
  before := serverBuf
  got := []
  stdout := []

/-- `write(sd, "Thank you", 10)`, with the NUL. -/
def thanks : List Byte := literal "Thank you" ++ [0#8]

/-- `printf("Message from client: %s \n", buf)`. -/
def message (text : List Byte) : List Byte :=
  literal "Message from client: " ++ text ++ literal " \n"

/-- The client thanks once, behind the end of the stream, and the server reads once. -/
structure Thanked (contents : List Byte) (s : Session) : Prop where
  transferred : Transferred contents s.transfer
  blocks : s.server = .waiting → s.transfer.Blocks contents
  silent : s.client = .receiving →
    s.up.pending = [] ∧ s.up.shut = false ∧ s.server = .waiting
  received : s.client ≠ .receiving → s.transfer.client = .done
  coming : s.client ≠ .receiving → s.server = .waiting → s.up.pending = thanks
  read : s.server ≠ .waiting → s.transfer.server = .done ∧
    s.before.cells.take (lastBlock contents).length = lastBlock contents ∧
    s.got ≠ [] ∧ s.got <+: thanks
  printed : s.server = .printed → ∃ text,
    (s.before.fill s.got).cString? = some text ∧ s.stdout = message text
  overread : s.server = .overread → (s.before.fill s.got).cString? = none
  quiet : s.server = .waiting → s.stdout = []

theorem Thanked.block {contents : List Byte} {s : Session} (held : Thanked contents s)
    (waits : s.server = .waiting) {count : Nat} {block : List Byte} {up : Direction Byte}
    (reads : Direction.Reads BUF_SIZE s.up count block up) :
    s.client ≠ .receiving ∧ block ≠ [] ∧ block <+: thanks := by
  by_cases client : s.client = .receiving
  · obtain ⟨empty, running, _⟩ := held.silent client
    cases reads with
    | ended _ shut => simp [running] at shut
    | block positive small there =>
        rw [empty, List.length_nil] at there
        omega
  · have coming := held.coming client waits
    refine ⟨client, ?_, ?_⟩
    · intro none
      have empty := (reads.ended_of_nil none).1
      rw [coming] at empty
      cases empty
    · rw [← coming, ← reads.split]
      exact List.prefix_append _ _

theorem Thanked.sent {contents : List Byte} {s : Session} (held : Thanked contents s)
    (waits : s.server = .waiting) (sent : s.transfer.server = .done) :
    s.transfer.serverBuf.cells.take (lastBlock contents).length = lastBlock contents := by
  have blocks := held.blocks waits
  simpa only [System.Blocks, sent] using blocks

def ClientEnd.work : ClientEnd → Nat
  | .receiving => 2
  | .thanked => 1
  | .closed => 0

def ServerEnd.work : ServerEnd → Nat
  | .waiting => 1
  | .printed | .overread => 0

def Session.work (s : Session) : Nat := s.transfer.work + s.client.work + s.server.work

def Session.Finished (s : Session) : Prop :=
  s.transfer.Finished ∧ s.client = .closed ∧ s.server ≠ .waiting

def zeros : CArray Byte BUF_SIZE := CArray.replicate BUF_SIZE 0#8

end NetworkProgramming.Hw4.Practice.FileTransfer
