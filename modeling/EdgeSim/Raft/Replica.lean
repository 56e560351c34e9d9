import EdgeSim.Raft.Node

/-!
# A node and the entries it is applying

`HandleAppendEntries` and `Propose` collect committed entries under the mutex and call `ApplyFunc`
on them after releasing it, one call after the other. Between the two stands a batch: what one
call has collected and not yet applied, and the answer it sends when it is done. A critical
section is one step, and so is each single call of `ApplyFunc`.
-/

namespace EdgeSim.Raft

/-- The answer to the RPC `call`. Beside the response stand the node as the handler found it and
as it left it; no step reads them. -/
structure Answer where
  call : ℕ
  resp : AppendEntriesResponse
  seen : Node
  left : Node
  deriving DecidableEq, Repr

/-- The entries one call has collected and not yet handed to `ApplyFunc`, and what it answers
once it has; `Propose` answers nobody. -/
structure Batch where
  todo : List (ℕ × LogEntry)
  answer : Option Answer
  deriving DecidableEq, Repr

/-- `batches` are in the order their critical sections ran. `collected` and `applied` record what
`collectCommittedLocked` has returned and `ApplyFunc` has been called with, each entry with the
value of `lastApplied` when it was collected; no step reads them. -/
structure Replica where
  node : Node
  batches : List Batch
  collected : List (ℕ × LogEntry)
  applied : List (ℕ × LogEntry)
  deriving DecidableEq, Repr

namespace Replica

def start (n : Node) : Replica := ⟨n, [], [], []⟩

/-- A critical section that collects nothing. -/
def setNode (r : Replica) (n : Node) : Replica := { r with node := n }

/-- A critical section that leaves the node as `n` and has collected `es`. -/
def collect (r : Replica) (n : Node) (es : List (ℕ × LogEntry)) (answer : Option Answer) :
    Replica :=
  { r with
    node := n
    batches := r.batches ++ [⟨es, answer⟩]
    collected := r.collected ++ es }

/-- `none` is the panic in `collectCommittedLocked`. -/
def handleAppendEntries (r : Replica) (call : ℕ) (req : AppendEntriesRequest) : Option Replica :=
  match r.node.handleAppendEntries req with
  | none => none
  | some (n, es, resp) => some (r.collect n es (some ⟨call, resp, r.node, n⟩))

/-- `none` is the panic in `collectCommittedLocked`. -/
def commitProposal (r : Replica) (newIndex : ℕ) : Option Replica :=
  match r.node.commitProposal newIndex with
  | none => none
  | some (n, es) => some (r.collect n es none)

/-- One call of `ApplyFunc`, by the call that collected batch `b`. -/
def apply (r : Replica) (b : ℕ) : Option Replica :=
  match r.batches[b]? with
  | some ⟨e :: todo, answer⟩ =>
    some { r with batches := r.batches.set b ⟨todo, answer⟩, applied := r.applied ++ [e] }
  | _ => none

/-- The call that collected batch `b` has applied all of it and returns. -/
def finish (r : Replica) (b : ℕ) : Option (Replica × Option Answer) :=
  match r.batches[b]? with
  | some ⟨[], answer⟩ => some ({ r with batches := r.batches.eraseIdx b }, answer)
  | _ => none

/-! ## What they do -/

theorem handleAppendEntries_eq {r r' : Replica} {c : ℕ} {req : AppendEntriesRequest}
    (h : r.handleAppendEntries c req = some r') :
    ∃ n es resp, r.node.handleAppendEntries req = some (n, es, resp)
      ∧ r' = r.collect n es (some ⟨c, resp, r.node, n⟩) := by
  unfold Replica.handleAppendEntries at h
  split at h
  · cases h
  · rename_i n es resp hn
    simp only [Option.some.injEq] at h
    exact ⟨n, es, resp, hn, h.symm⟩

theorem commitProposal_eq {r r' : Replica} {i : ℕ} (h : r.commitProposal i = some r') :
    ∃ n es, r.node.commitProposal i = some (n, es) ∧ r' = r.collect n es none := by
  unfold Replica.commitProposal at h
  split at h
  · cases h
  · rename_i n es hn
    simp only [Option.some.injEq] at h
    exact ⟨n, es, hn, h.symm⟩

theorem finish_eq {r r' : Replica} {b : ℕ} {answer : Option Answer}
    (h : r.finish b = some (r', answer)) :
    r.batches[b]? = some ⟨[], answer⟩ ∧ r' = { r with batches := r.batches.eraseIdx b } := by
  unfold Replica.finish at h
  split at h
  · rename_i answer' hb
    simp only [Option.some.injEq, Prod.mk.injEq] at h
    obtain ⟨rfl, rfl⟩ := h
    exact ⟨hb, rfl⟩
  · cases h

theorem apply_eq {r r' : Replica} {b : ℕ} (h : r.apply b = some r') :
    ∃ e todo answer, r.batches[b]? = some ⟨e :: todo, answer⟩
      ∧ r' = { r with
        batches := r.batches.set b ⟨todo, answer⟩
        applied := r.applied ++ [e] } := by
  unfold Replica.apply at h
  split at h
  · rename_i e todo answer hb
    simp only [Option.some.injEq] at h
    exact ⟨e, todo, answer, hb, h.symm⟩
  · cases h

end Replica

/-- A step of one node: a critical section, a single `ApplyFunc` call, or a return. -/
inductive ReplicaAction where
  | handleRequestVote (req : RequestVoteRequest)
  | handleAppendEntries (call : ℕ) (req : AppendEntriesRequest)
  | observeTerm (term : ℕ)
  | startCandidacy
  | becomeLeader
  | appendCommand (command : String)
  | commitProposal (newIndex : ℕ)
  | apply (batch : ℕ)
  | finish (batch : ℕ)
  deriving DecidableEq, Repr

/-- One node with its calls running concurrently: any request may arrive, any proposal may be
acknowledged and any unfinished batch may go on at any time. -/
def Replica.step (r : Replica) : ReplicaAction → Option Replica
  | .handleRequestVote req => some (r.setNode (r.node.handleRequestVote req).1)
  | .handleAppendEntries call req => r.handleAppendEntries call req
  | .observeTerm term => some (r.setNode (r.node.observeTerm term))
  | .startCandidacy => some (r.setNode r.node.startCandidacy)
  | .becomeLeader => r.node.becomeLeader.map r.setNode
  | .appendCommand command =>
    if r.node.state = .leader then some (r.setNode (r.node.appendCommand command)) else none
  | .commitProposal newIndex => r.commitProposal newIndex
  | .apply b => r.apply b
  | .finish b => (r.finish b).map Prod.fst

end EdgeSim.Raft
