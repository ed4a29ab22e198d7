import Mathlib.Order.WellFounded
import Mathlib.Tactic.Common

/-!
# Acyclic graphs of numbered nodes

The nodes of a graph are a list and name their successors by position. `Dag.fold` computes a value for
each node from the values of its successors, and `Dag.fold_eq` is the equation it satisfies.
-/

namespace Nas

/-- A list of nodes whose successors, by position, never lead back to a node. -/
structure Dag (N : Type) where
  nodes : List N
  succs : N → List Nat
  acyclic : WellFounded fun j i => ∃ e, nodes[i]? = some e ∧ j ∈ succs e

namespace Dag
variable {N α : Type} (G : Dag N)

/-- A number for each position that decreases from a node to its successors. -/
def ofRank (nodes : List N) (succs : N → List Nat) (rank : Nat → Nat)
    (h : ∀ i e, nodes[i]? = some e → ∀ j ∈ succs e, rank j < rank i) : Dag N where
  nodes := nodes
  succs := succs
  acyclic := Subrelation.wf (fun ⟨e, he, hj⟩ => h _ e he _ hj) (measure rank).wf

/-- The value of a node by `step` from those of its successors; `default` where there is no node. -/
noncomputable def fold (default : α) (step : Nat → N → (Nat → α) → α) : Nat → α :=
  G.acyclic.fix fun i rec =>
    match h : G.nodes[i]? with
    | none => default
    | some e => step i e fun j => by
      classical exact if hj : j ∈ G.succs e then rec j ⟨e, h, hj⟩ else default

variable {G} {default : α} {step : Nat → N → (Nat → α) → α} {i : Nat} {e : N}

theorem fold_none (hi : G.nodes[i]? = none) : G.fold default step i = default := by
  rw [fold, G.acyclic.fix_eq]
  split
  · rfl
  · rename_i h
    rw [hi] at h
    cases h

theorem fold_eq (hstep : ∀ i e g g', (∀ j ∈ G.succs e, g j = g' j) → step i e g = step i e g')
    (he : G.nodes[i]? = some e) : G.fold default step i = step i e (G.fold default step) := by
  rw [fold, G.acyclic.fix_eq]
  split
  · rename_i h
    rw [he] at h
    cases h
  · rename_i e' h
    rw [he] at h
    cases h
    exact hstep i e _ _ fun j hj => dif_pos hj

end Dag

end Nas
