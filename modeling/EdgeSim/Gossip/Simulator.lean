import Mathlib.Data.Finmap
import Mathlib.Data.Finset.Card
import Mathlib.Data.Finset.Sort
import Mathlib.Data.List.Perm.Basic
import Mathlib.Data.Rat.Defs
import Mathlib.Data.String.Basic
import Mathlib.Tactic.Tauto

/-!
# The propagation simulator

`pkg/gossip`. A step ranges over the map of infected nodes, in an order that Go leaves open, and
draws a permutation for every one of them that has more peers than the fanout. Both the order and
the random numbers are given: the order for each step, the random numbers by a state that every draw
takes on. Ratios are exact.
-/

namespace EdgeSim.Gossip

/-- A participant with a list of peer IDs. -/
structure Node where
  id : String
  peers : List String
  deriving DecidableEq, Repr

structure Result where
  steps : ℕ
  reachedCount : ℕ
  reachedRatio : ℚ
  total : ℕ
  deriving DecidableEq, Repr

/-- The errors of `SimulatePropagation`. -/
inductive SimError where
  /-- "simulator is nil" -/
  | simulatorNil
  /-- "no nodes to simulate" -/
  | noNodes
  /-- "fanout must be positive" -/
  | fanout
  /-- "target ratio must be in (0,1]" -/
  | targetRatio
  /-- "max steps must be positive" -/
  | maxSteps
  /-- "initial node not found" -/
  | initialNotFound
  /-- "target ratio not reached" -/
  | targetNotReached
  deriving DecidableEq, Repr

/-- `math/rand`: the state for a seed, and `Perm(n)` with the state after it. -/
structure Rng (σ : Type) where
  newSource : ℤ → σ
  perm : ℕ → σ → List ℕ × σ
  perm_range : ∀ n r, (perm n r).1.Perm (List.range n)

/-- The order in which each step ranges over the infected nodes. -/
structure RangeOrder where
  keys : ℕ → Finset String → List String
  nodup : ∀ step infected, (keys step infected).Nodup
  mem_keys : ∀ step infected id, id ∈ keys step infected ↔ id ∈ infected

/-- The IDs of a list come first, in its order. -/
def RangeOrder.listed (l : List String) : RangeOrder where
  keys _ infected := l.dedup.filter (· ∈ infected) ++ (infected \ l.toFinset).sort (· ≤ ·)
  nodup _ infected := by
    refine List.nodup_append'.2 ⟨l.nodup_dedup.filter _, Finset.sort_nodup _ _, ?_⟩
    intro id hid hid'
    rw [List.mem_filter, List.mem_dedup] at hid
    rw [Finset.mem_sort, Finset.mem_sdiff, List.mem_toFinset] at hid'
    exact hid'.2 hid.1
  mem_keys _ infected id := by
    rw [List.mem_append, List.mem_filter, List.mem_dedup, decide_eq_true_iff, Finset.mem_sort,
      Finset.mem_sdiff, List.mem_toFinset]
    tauto

/-- The draw of one number is in reverse. -/
def Rng.reversedAt (k : ℕ) : Rng ℕ where
  newSource seed := seed.toNat
  perm n i := (if i = k then (List.range n).reverse else List.range n, i + 1)
  perm_range n i := by
    split_ifs
    · exact List.reverse_perm _
    · exact .refl _

/-- A simulator is the state of its random numbers; `none` is a nil one. -/
def newSimulator {σ : Type} (rng : Rng σ) (seed : ℤ) : Option σ := some (rng.newSource seed)

/-- The map of the peers; a repeated ID has those of its last entry. -/
def peersByID (nodes : List Node) : Finmap fun _ : String => List String :=
  nodes.foldl (fun m node => m.insert node.id node.peers) ∅

/-- `peersByID[nodeID]`, nil for an ID that is not there. -/
def peersOf (nodes : List Node) (id : String) : List String := ((peersByID nodes).lookup id).getD []

section

variable {σ : Type} (rng : Rng σ) (order : RangeOrder) (nodes : List Node) (fanout : ℕ)

def selectRandomPeers (peers : List String) (r : σ) : List String × σ :=
  if peers.length = 0 then ([], r)
  else if fanout ≥ peers.length then (peers, r)
  else
    let (indices, r) := rng.perm peers.length r
    ((indices.take fanout).filterMap fun i => peers[i]?, r)

/-- What one infected node adds to the newly infected. -/
def infectPeers (infected : Finset String) (acc : Finset String × σ) (nodeID : String) :
    Finset String × σ :=
  let (selected, r) := selectRandomPeers rng fanout (peersOf nodes nodeID) acc.2
  (selected.foldl (fun newlyInfected peerID =>
    if peerID ∈ infected then newlyInfected else insert peerID newlyInfected) acc.1, r)

/-- The infected nodes and the random numbers, between two steps. -/
structure Spread (σ : Type) where
  infected : Finset String
  rng : σ

def Spread.step (st : Spread σ) (step : ℕ) : Spread σ :=
  let (newlyInfected, r) := (order.keys step st.infected).foldl
    (infectPeers rng nodes fanout st.infected) (∅, st.rng)
  ⟨st.infected ∪ newlyInfected, r⟩

/-- The loop over the steps, `remaining` of them to go. -/
def simulateFrom (targetRatio : ℚ) (maxSteps : ℕ) :
    ℕ → ℕ → Spread σ → σ × Result × Option SimError
  | 0, _, st =>
    (st.rng, ⟨maxSteps, st.infected.card, st.infected.card / nodes.length, nodes.length⟩,
      some .targetNotReached)
  | remaining + 1, step, st =>
    let st := st.step rng order nodes fanout step
    let reachedRatio : ℚ := st.infected.card / nodes.length
    if reachedRatio ≥ targetRatio then
      (st.rng, ⟨step, st.infected.card, reachedRatio, nodes.length⟩, none)
    else simulateFrom targetRatio maxSteps remaining (step + 1) st

end

/-- `SimulatePropagation`: the simulator afterwards, the result and the error. -/
def simulatePropagation {σ : Type} (rng : Rng σ) (order : RangeOrder) (sim : Option σ)
    (nodes : List Node) (initialID : String) (fanout : ℤ) (targetRatio : ℚ) (maxSteps : ℤ) :
    Option σ × Result × Option SimError :=
  match sim with
  | none => (none, ⟨0, 0, 0, 0⟩, some .simulatorNil)
  | some r =>
    if nodes.length = 0 then (some r, ⟨0, 0, 0, 0⟩, some .noNodes)
    else if fanout ≤ 0 then (some r, ⟨0, 0, 0, 0⟩, some .fanout)
    else if targetRatio ≤ 0 ∨ targetRatio > 1 then (some r, ⟨0, 0, 0, 0⟩, some .targetRatio)
    else if maxSteps ≤ 0 then (some r, ⟨0, 0, 0, 0⟩, some .maxSteps)
    else if initialID ∉ peersByID nodes then (some r, ⟨0, 0, 0, 0⟩, some .initialNotFound)
    else
      let (r, result, err) := simulateFrom rng order nodes fanout.toNat targetRatio maxSteps.toNat
        maxSteps.toNat 1 ⟨{initialID}, r⟩
      (some r, result, err)

end EdgeSim.Gossip
