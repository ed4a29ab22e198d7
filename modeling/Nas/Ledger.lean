import Mathlib.Algebra.BigOperators.Group.Finset.Basic
import Mathlib.Algebra.Order.BigOperators.Group.Finset
import Mathlib.Data.List.Count

/-!
# Reference counts

Cells with a reference count, as it is usual in C: the count is one less than the number of owners, and the cell is
freed by whoever gives it back at 0. `Ledger count cells owners` says that the counts are right.
-/

namespace Nas

section Ledger
variable {ι α : Type} {count : α → Nat} {cells cells' : ι → Option α} {owners owners' : ι → Nat}
  {p : ι} {a b : α}

/-- Each cell has as many owners as its count says, and what is no cell has none. -/
def Ledger (count : α → Nat) (cells : ι → Option α) (owners : ι → Nat) : Prop :=
  ∀ p, owners p = ((cells p).map fun a => count a + 1).getD 0

namespace Ledger

theorem live (h : Ledger count cells owners) (hp : owners p ≠ 0) :
    ∃ a, cells p = some a ∧ owners p = count a + 1 := by
  have hown := h p
  rcases hcell : cells p with - | a
  · rw [hcell] at hown
    exact absurd hown hp
  · rw [hcell] at hown
    exact ⟨a, rfl, hown⟩

theorem dead (h : Ledger count cells owners) (hp : cells p = none) : owners p = 0 := by
  rw [h p, hp]
  rfl

theorem congr (h : Ledger count cells owners) (hcells : ∀ p, (cells' p).map count = (cells p).map count)
    (howners : ∀ p, owners' p = owners p) : Ledger count cells' owners' := by
  intro p
  have hmap : ((cells' p).map fun a => count a + 1) = (cells p).map fun a => count a + 1 := by
    have := congrArg (Option.map (· + 1)) (hcells p)
    rwa [Option.map_map, Option.map_map] at this
  rw [howners, h p, hmap]

variable [DecidableEq ι]

/-- A cell that has one owner more, or one less, or another content. -/
theorem update {x : Option α} (h : Ledger count cells owners) (hp : owners' p = (x.map fun a => count a + 1).getD 0)
    (hne : ∀ q, q ≠ p → owners' q = owners q) : Ledger count (Function.update cells p x) owners' := by
  intro q
  by_cases hq : q = p
  · subst hq
    rw [Function.update_self, hp]
  · rw [Function.update_of_ne hq, hne q hq, h q]

/-- A reference is given back. -/
theorem release (h : Ledger count cells owners) (hcell : cells p = some a)
    (howners : ∀ q, owners q = owners' q + if q = p then 1 else 0) (hb : count b = count a - 1) :
    Ledger count (Function.update cells p (if count a = 0 then none else some b)) owners' := by
  have hown : owners p = count a + 1 := by rw [h p, hcell]; rfl
  have hp := howners p
  rw [if_pos rfl] at hp
  refine h.update ?_ fun q hq => ?_
  · split
    · simp only [Option.map_none, Option.getD_none]
      omega
    · simp only [Option.map_some, Option.getD_some]
      omega
  · have := howners q
    rw [if_neg hq] at this
    exact this.symm

/-- Another reference. -/
theorem retain (h : Ledger count cells owners) (hcell : cells p = some a)
    (howners : ∀ q, owners' q = owners q + if q = p then 1 else 0) (hb : count b = count a + 1) :
    Ledger count (Function.update cells p (some b)) owners' := by
  have hown : owners p = count a + 1 := by rw [h p, hcell]; rfl
  refine h.update ?_ fun q hq => ?_
  · rw [howners, if_pos rfl, hown, Option.map_some, Option.getD_some, hb]
  · rw [howners, if_neg hq, Nat.add_zero]

/-- A new cell, which belongs to whoever made it. -/
theorem create (h : Ledger count cells owners) (hcell : cells p = none) (ha : count a = 0)
    (howners : ∀ q, owners' q = owners q + if q = p then 1 else 0) :
    Ledger count (Function.update cells p (some a)) owners' := by
  refine h.update ?_ fun q hq => ?_
  · rw [howners, if_pos rfl, h.dead hcell, Option.map_some, Option.getD_some, ha]
  · rw [howners, if_neg hq, Nat.add_zero]

end Ledger
end Ledger

/-! ### Sums over places of which one changes -/

theorem sum_modify {n p : Nat} (g g' : Nat → Nat) (hp : p < n) (h : ∀ q, q ≠ p → g' q = g q) :
    ∑ q ∈ Finset.range n, g' q + g p = ∑ q ∈ Finset.range n, g q + g' p := by
  have hmem : p ∈ Finset.range n := Finset.mem_range.2 hp
  have hrest : ∑ q ∈ (Finset.range n).erase p, g' q = ∑ q ∈ (Finset.range n).erase p, g q :=
    Finset.sum_congr rfl fun q hq => h q (Finset.ne_of_mem_erase hq)
  rw [← Finset.add_sum_erase _ g hmem, ← Finset.add_sum_erase _ g' hmem, hrest]
  omega

theorem le_sum {n p : Nat} (g : Nat → Nat) (hp : p < n) : g p ≤ ∑ q ∈ Finset.range n, g q :=
  Finset.single_le_sum (fun _ _ => Nat.zero_le _) (Finset.mem_range.2 hp)

end Nas
