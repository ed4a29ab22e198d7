import Nas.Exec
import Nas.Ring

/-!
# Blocks of memory

A block is the list of its cells. `load`, `store` and `move` are faults outside of it, and `slice m a b`
are the cells from `a` up to `b`, by which everything else about a block is said.
-/

namespace Nas.Memory
variable {α : Type} {m m' xs : List α} {a b c d p n : Nat}

def load (m : List α) (p n : Nat) : Exec (List α) :=
  if p + n ≤ m.length then .ok ((m.drop p).take n) else .error .fault

def store (m : List α) (p : Nat) (xs : List α) : Exec (List α) :=
  if p + xs.length ≤ m.length then .ok (Ring.splice m p xs) else .error .fault

/-- `bcopy` inside a block, whose ends may overlap. -/
def move (m : List α) (src dst n : Nat) : Exec (List α) := do
  let xs ← load m src n
  store m dst xs

/-- A block of another size with the same cells. New ones hold `fill`. -/
def realloc (fill : α) (m : List α) (n : Nat) : List α := m.take n ++ List.replicate (n - m.length) fill

def slice (m : List α) (a b : Nat) : List α := (m.take b).drop a

/-! ### Slices -/

theorem slice_eq (m : List α) (a b : Nat) : slice m a b = (m.drop a).take (b - a) := List.drop_take ..

@[simp] theorem slice_self : slice m a a = [] := by simp [slice_eq]

theorem length_slice (h : b ≤ m.length) : (slice m a b).length = b - a := by
  simp [slice, h]

theorem getElem?_slice {i : Nat} : (slice m a b)[i]? = if a + i < b then m[a + i]? else none := by
  rw [slice, List.getElem?_drop, List.getElem?_take]

theorem slice_append (hab : a ≤ b) (hbc : b ≤ c) : slice m a b ++ slice m b c = slice m a c := by
  rw [slice_eq, slice_eq, slice_eq, show c - a = (b - a) + (c - b) by omega, List.take_add, List.drop_drop,
    show a + (b - a) = b by omega]

theorem take_slice (h : a + n ≤ b) : (slice m a b).take n = slice m a (a + n) := by
  rw [slice_eq, slice_eq, List.take_take, Nat.min_eq_left (by omega), Nat.add_sub_cancel_left]

theorem drop_slice : (slice m a b).drop n = slice m (a + n) b := by
  rw [slice, slice, List.drop_drop]

theorem slice_all (h : m.length ≤ b) : slice m 0 b = m := by
  rw [slice, List.drop_zero, List.take_of_length_le h]

theorem slice_middle (xs ys zs : List α) :
    slice (xs ++ (ys ++ zs)) xs.length (xs.length + ys.length) = ys := by
  rw [slice_eq, Nat.add_sub_cancel_left, List.drop_left, List.take_left]

/-! ### Accesses -/

theorem load_ok (h : p + n ≤ m.length) : load m p n = .ok (slice m p (p + n)) := by
  rw [load, if_pos h, slice_eq, Nat.add_sub_cancel_left]

theorem load_eq_ok : load m p n = .ok xs ↔ p + n ≤ m.length ∧ xs = slice m p (p + n) := by
  constructor
  · intro h
    by_cases hp : p + n ≤ m.length
    · rw [load_ok hp] at h
      cases h
      exact ⟨hp, rfl⟩
    · rw [load, if_neg hp] at h
      cases h
  · rintro ⟨hp, rfl⟩
    exact load_ok hp

/-- What a store does to a block. -/
structure Stored (m m' : List α) (p : Nat) (xs : List α) : Prop where
  fits : p + xs.length ≤ m.length
  length : m'.length = m.length
  cells : ∀ i, m'[i]? = if p ≤ i ∧ i < p + xs.length then xs[i - p]? else m[i]?

theorem store_eq_ok : store m p xs = .ok m' ↔ Stored m m' p xs := by
  constructor
  · intro h
    unfold store at h
    split at h
    · cases h
      exact ⟨‹_›, Ring.length_splice ‹_›, fun i => Ring.getElem?_splice ‹_›⟩
    · cases h
  · rintro ⟨hp, hl, hc⟩
    rw [store, if_pos hp]
    congr 1
    refine List.ext_getElem? fun i => ?_
    rw [Ring.getElem?_splice hp, hc]

theorem store_ok (h : p + xs.length ≤ m.length) : ∃ m', store m p xs = .ok m' ∧ Stored m m' p xs :=
  ⟨Ring.splice m p xs, if_pos h, store_eq_ok.1 (if_pos h)⟩

theorem store_nil (h : p ≤ m.length) : store m p [] = .ok m :=
  store_eq_ok.2 ⟨h, rfl, fun i => by rw [if_neg (by simp)]⟩

namespace Stored

theorem slice_self (h : Stored m m' p xs) : slice m' p (p + xs.length) = xs := by
  refine List.ext_getElem? fun i => ?_
  rw [getElem?_slice]
  by_cases hi : i < xs.length
  · rw [if_pos (by omega), h.cells, if_pos (by omega), Nat.add_sub_cancel_left]
  · rw [if_neg (by omega), List.getElem?_eq_none (by omega)]

theorem slice_below (h : Stored m m' p xs) (hb : b ≤ p) : slice m' a b = slice m a b := by
  refine List.ext_getElem? fun i => ?_
  rw [getElem?_slice, getElem?_slice]
  split
  · rw [h.cells, if_neg (by omega)]
  · rfl

theorem slice_above (h : Stored m m' p xs) (ha : p + xs.length ≤ a) : slice m' a b = slice m a b := by
  refine List.ext_getElem? fun i => ?_
  rw [getElem?_slice, getElem?_slice]
  split
  · rw [h.cells, if_neg (by omega)]
  · rfl

end Stored

theorem move_ok (hs : a + n ≤ m.length) (hd : d + n ≤ m.length) :
    ∃ m', move m a d n = .ok m' ∧ Stored m m' d (slice m a (a + n)) := by
  have hl : (slice m a (a + n)).length = n := by rw [length_slice hs]; omega
  obtain ⟨m', hm, h⟩ := store_ok (show d + (slice m a (a + n)).length ≤ m.length by omega)
  exact ⟨m', by rw [move, load_ok hs, Exec.ok_bind, hm], h⟩

/-! ### Blocks of other sizes -/

@[simp] theorem length_realloc {fill : α} : (realloc fill m n).length = n := by
  simp [realloc]; omega

theorem slice_realloc {fill : α} (hn : b ≤ n) (hb : b ≤ m.length) :
    slice (realloc fill m n) a b = slice m a b := by
  rw [slice, slice, realloc, List.take_append_of_le_length (by simp; omega), List.take_take,
    Nat.min_eq_left hn]

end Nas.Memory
