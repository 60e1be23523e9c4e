import NetworkProgramming.Foundation.Transition

/-!
# Requests and replies on an unreliable network

Clients send requests to one server, which reacts to each request that arrives
and may stop.  A datagram may arrive late, in any order, several times or never:
what was sent once stays in the network and is received by any number of later
steps.  When the reaction to a request is a function of the request, every reply
in the network answers a request that its client has sent.
-/

namespace RequestReply

open Transition

variable {σ ρ τ : Type*}

/-- A server and all messages that were ever sent; the network keeps each of them. -/
structure State (σ ρ τ : Type*) where
  server : σ
  /-- It has not stopped. -/
  running : Bool
  /-- What was sent, by whom or to whom. -/
  requests : List (Nat × ρ)
  replies : List (Nat × τ)
  /-- The requests that have arrived, in this order. -/
  served : List (Nat × ρ)

def State.initial (ρ τ : Type*) (server : σ) : State σ ρ τ := ⟨server, true, [], [], []⟩

/-- A message that was sent can arrive at any time, again and again. -/
inductive Action (ρ τ : Type*) where
  | send (client : Nat) (request : ρ)
  | serve (client : Nat) (request : ρ)
  | receive (client : Nat) (reply : τ)

/-- `serve` is the server's reaction; without a reply it stops. -/
def step [DecidableEq ρ] [DecidableEq τ] (serve : σ → ρ → Option (σ × Option τ))
    (s : State σ ρ τ) : Action ρ τ → Option (State σ ρ τ)
  | .send client request => some { s with
      requests := s.requests ++ [(client, request)] }
  | .serve client request =>
      if s.running ∧ (client, request) ∈ s.requests then
        (serve s.server request).map fun served => { s with
          server := served.1
          running := served.2.isSome
          replies := s.replies ++ (served.2.map fun reply => (client, reply)).toList
          served := s.served ++ [(client, request)] }
      else none
  | .receive client reply => if (client, reply) ∈ s.replies then some s else none

/-- The server's reaction to each request that was asked is the answer, in every state
that the requests before can have left. -/
structure Answering (serve : σ → ρ → Option (σ × Option τ)) (Ready : σ → Prop)
    (Asked : ρ → Prop) (answer : ρ → Option τ) : Prop where
  answers : ∀ {server request}, Ready server → Asked request →
    ∃ next, serve server request = some (next, answer request) ∧ Ready next

/-- What the server has done with the requests that arrived. -/
def After (serve : σ → ρ → Option (σ × Option τ)) (start : σ)
    (served : List (Nat × ρ)) (server : σ) : Prop :=
  served.foldlM (fun server request =>
    (serve server request.2).map fun reaction => reaction.1) start = some server

/-- The replies are the answers to the requests that have arrived. -/
structure Answered (serve : σ → ρ → Option (σ × Option τ)) (Ready : σ → Prop)
    (answer : ρ → Option τ) (start : σ) (s : State σ ρ τ) : Prop where
  ready : Ready s.server
  sent : ∀ request ∈ s.served, request ∈ s.requests
  replies : s.replies = s.served.filterMap fun request =>
    (answer request.2).map fun reply => (request.1, reply)
  after : After serve start s.served s.server
  /-- It stops at the first request without an answer. -/
  stopped : s.running = false ↔ ∃ request ∈ s.served, answer request.2 = none

/-- Every request on the network is one that may be asked. -/
def Asks (Asked : ρ → Prop) (s : State σ ρ τ) : Prop :=
  ∀ request ∈ s.requests, Asked request.2

section answered

variable {serve : σ → ρ → Option (σ × Option τ)} {Ready : σ → Prop} {Asked : ρ → Prop}
  {answer : ρ → Option τ} {start : σ} {s next : State σ ρ τ}

theorem answered_initial (ready : Ready start) :
    Answered serve Ready answer start (State.initial ρ τ start) where
  ready := ready
  sent := by simp [State.initial]
  replies := rfl
  after := rfl
  stopped := by simp [State.initial]

theorem answered_step [DecidableEq ρ] [DecidableEq τ]
    (answering : Answering serve Ready Asked answer)
    (asked : Asks Asked s) {action : Action ρ τ}
    (held : Answered serve Ready answer start s) (taken : step serve s action = some next) :
    Answered serve Ready answer start next := by
  cases action with
  | send client request =>
      cases taken
      exact { held with sent := fun other member =>
        List.mem_append_left _ (held.sent other member) }
  | serve client request =>
      simp only [step] at taken
      split at taken <;> rename_i arrives
      · obtain ⟨running, there⟩ := arrives
        obtain ⟨after, reacts, ready⟩ := answering.answers held.ready (asked _ there)
        rw [reacts, Option.map_some, Option.some.injEq] at taken
        subst taken
        constructor
        · exact ready
        · intro other member
          rcases List.mem_append.mp member with before | new
          · exact held.sent other before
          · cases List.mem_singleton.mp new
            exact there
        · cases isAnswer : answer request <;> simp [held.replies, isAnswer]
        · have before : _ = some s.server := held.after
          simp [After, List.foldlM_append, before, reacts]
        · have earlier : ¬ ∃ request ∈ s.served, answer request.2 = none := by
            rw [← held.stopped, running]
            simp
          simp only [Option.isSome_eq_false_iff, Option.isNone_iff_eq_none, List.mem_append,
            List.mem_singleton, or_and_right, exists_or, earlier, false_or, exists_eq_left]
      · cases taken
  | receive client reply =>
      simp only [step] at taken
      split at taken
      · cases taken
        exact held
      · cases taken

theorem Answered.reply (held : Answered serve Ready answer start s) {client : Nat}
    {reply : τ} (there : (client, reply) ∈ s.replies) :
    ∃ request, (client, request) ∈ s.requests ∧ answer request = some reply := by
  rw [held.replies, List.mem_filterMap] at there
  obtain ⟨⟨other, request⟩, served, equal⟩ := there
  obtain ⟨found, isAnswer, same⟩ := Option.map_eq_some_iff.mp equal
  cases same
  exact ⟨request, held.sent _ served, isAnswer⟩

theorem Answered.can_reply [DecidableEq ρ] [DecidableEq τ]
    (answering : Answering serve Ready Asked answer)
    (asked : Asks Asked s) (held : Answered serve Ready answer start s)
    (running : s.running = true) {client : Nat} {request : ρ}
    (sent : (client, request) ∈ s.requests) {reply : τ} (isAnswer : answer request = some reply) :
    ∃ next, step serve s (.serve client request) = some next ∧
      (client, reply) ∈ next.replies ∧ next.requests = s.requests := by
  obtain ⟨after, reacts, _⟩ := answering.answers held.ready (asked _ sent)
  refine ⟨{ s with
    server := after
    running := true
    replies := s.replies ++ [(client, reply)]
    served := s.served ++ [(client, request)] }, ?_, by simp, rfl⟩
  simp only [isAnswer] at reacts
  simp [step, running, sent, reacts]

/-- A server that notes each request has noted those that arrived. -/
theorem After.log {β : Type*} {log : σ → List β} {note : ρ → List β}
    (answering : Answering serve Ready Asked answer)
    (notes : ∀ {server request next reaction}, Ready server → Asked request →
      serve server request = some (next, reaction) → log next = log server ++ note request)
    {served : List (Nat × ρ)} {server : σ} (asked : ∀ request ∈ served, Asked request.2)
    (ready : Ready start) (after : After serve start served server) :
    log server = log start ++ served.flatMap fun request => note request.2 := by
  induction served generalizing start with
  | nil =>
      cases after
      simp
  | cons request served induction =>
      have isAsked := asked request (by simp)
      obtain ⟨next, reacts, nextReady⟩ := answering.answers ready isAsked
      have rest : After serve next served server := by
        simpa [After, reacts] using after
      rw [induction (fun other member => asked other (by simp [member])) nextReady rest,
        notes ready isAsked reacts, List.flatMap_cons, List.append_assoc]

end answered

end RequestReply
