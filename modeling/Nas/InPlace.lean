import Nas.Memory

/-!
# Loops that change a block in place

A loop that takes items of `w` bytes from the beginning of a block and puts items of `w'` bytes in their place.
Upwards (`forward`) it reads every item before it is overwritten if the new ones are not wider, downwards
(`backward`) if they are not narrower: either way the block is that of `convertAll`.
-/

namespace Nas.InPlace
open Memory
variable {α : Type}

/-- The item at index `k`. -/
def item (w : Nat) (m : List α) (k : Nat) : List α := slice m (k * w) (k * w + w)

/-- The block with its first `n` items converted, each on its own, and what is behind the new items. -/
def convertAll (f : List α → List α) (w w' n : Nat) (m : List α) : List α :=
  ((List.range n).map fun k => f (item w m k)).flatten ++ m.drop (n * w')

/-- One item. -/
def step (f : List α → List α) (w w' k : Nat) (m : List α) : Exec (List α) := do
  let x ← load m (k * w) w
  store m (k * w') (f x)

/-- `for (i = 0; i < n; i++, s++, d++)`, from item `k` on. -/
def forward (f : List α → List α) (w w' : Nat) : (n k : Nat) → List α → Exec (List α)
  | 0, _, m => .ok m
  | n + 1, k, m => do
    let m ← step f w w' k m
    forward f w w' n (k + 1) m

/-- `for (i = 0; i < n; i++, s--, d--)`, from the last item on. -/
def backward (f : List α → List α) (w w' : Nat) : (n : Nat) → List α → Exec (List α)
  | 0, m => .ok m
  | n + 1, m => do
    let m ← step f w w' n m
    backward f w w' n m

/-- The items are converted to items of that width. -/
def Converts (f : List α → List α) (w w' : Nat) : Prop := ∀ x, x.length = w → (f x).length = w'

variable {f : List α → List α} {w w' n k : Nat} {m m' : List α}

theorem length_item (h : (k + 1) * w ≤ m.length) : (item w m k).length = w := by
  rw [Nat.succ_mul] at h
  rw [item, length_slice h]
  omega

/-- A store of an item changes that item only. -/
theorem item_of_stored {xs : List α} (h : Stored m m' (k * w) xs) (hxs : xs.length = w) (p : Nat) :
    item w m' p = if p = k then xs else item w m p := by
  by_cases hp : p = k
  · rw [if_pos hp, hp, item, ← hxs]
    rw [← hxs] at h
    exact h.slice_self
  · rw [if_neg hp, item, item]
    rcases Nat.lt_or_gt_of_ne hp with hlt | hgt
    · have : (p + 1) * w ≤ k * w := Nat.mul_le_mul_right w hlt
      rw [Nat.succ_mul] at this
      exact h.slice_below this
    · have : (k + 1) * w ≤ p * w := Nat.mul_le_mul_right w hgt
      rw [Nat.succ_mul] at this
      exact h.slice_above (by omega)

theorem convertAll_succ_flatten (f : List α → List α) (w n : Nat) (m : List α) :
    ((List.range (n + 1)).map fun k => f (item w m k)).flatten =
      ((List.range n).map fun k => f (item w m k)).flatten ++ f (item w m n) := by
  rw [List.range_succ, List.map_append, List.flatten_append]
  simp

theorem length_flatten (hf : Converts f w w') (h : n * w ≤ m.length) :
    ((List.range n).map fun k => f (item w m k)).flatten.length = n * w' := by
  induction n with
  | zero => simp
  | succ n ih =>
    have hn : n * w ≤ m.length := (Nat.mul_le_mul_right w (Nat.le_succ n)).trans h
    rw [convertAll_succ_flatten, List.length_append, ih hn, hf _ (length_item h), Nat.succ_mul]

theorem length_convertAll (hf : Converts f w w') (h : n * w ≤ m.length) (h' : n * w' ≤ m.length) :
    (convertAll f w w' n m).length = m.length := by
  rw [convertAll, List.length_append, length_flatten hf h, List.length_drop]
  omega

/-- One item, when those in front of it are converted and the rest is as it was. -/
theorem step_ok (hf : Converts f w w') (hk : k * w + w ≤ m.length) (hk' : k * w' + w' ≤ m.length)
    (hl : m'.length = m.length) (hitem : slice m' (k * w) (k * w + w) = item w m k) :
    step f w w' k m' = .ok (m'.take (k * w') ++ f (item w m k) ++ m'.drop (k * w' + w')) := by
  have hlen : (f (item w m k)).length = w' := hf _ (length_item (by rw [Nat.succ_mul]; exact hk))
  rw [step, load_ok (by omega), hitem, Exec.ok_bind, store, if_pos (by omega), Ring.splice, hlen]

theorem forward_from (hf : Converts f w w') (hw : w' ≤ w) (h : (k + n) * w ≤ m.length) :
    forward f w w' n k (convertAll f w w' k m) = .ok (convertAll f w w' (k + n) m) := by
  induction n generalizing k with
  | zero => rfl
  | succ n ih =>
    have hmul : k * w + w ≤ m.length := by
      have : (k + 1) * w ≤ (k + (n + 1)) * w := Nat.mul_le_mul_right w (by omega)
      rw [Nat.succ_mul] at this
      omega
    have hkw : k * w' ≤ k * w := Nat.mul_le_mul_left k hw
    have hpre : (((List.range k).map fun k => f (item w m k)).flatten).length = k * w' :=
      length_flatten hf (by omega)
    have hslice : slice (convertAll f w w' k m) (k * w) (k * w + w) = item w m k := by
      refine List.ext_getElem? fun i => ?_
      rw [item, getElem?_slice, getElem?_slice, convertAll]
      split
      · rw [List.getElem?_append_right (by omega), hpre, List.getElem?_drop]
        congr 1
        omega
      · rfl
    have hstep := step_ok hf hmul (by omega) (length_convertAll hf (by omega) (by omega)) hslice
    rw [forward, hstep, Exec.ok_bind, show k + (n + 1) = k + 1 + n by omega, ← ih (by rwa [show k + 1 + n = k + (n + 1) by omega])]
    congr 1
    rw [convertAll, convertAll, convertAll_succ_flatten, List.take_left' hpre, Nat.succ_mul]
    congr 1
    rw [List.drop_append, hpre, List.drop_eq_nil_of_le (by rw [hpre]; omega), List.nil_append, List.drop_drop]
    congr 1
    omega

/-- Upwards, items that do not get wider are converted on their own. -/
theorem forward_eq (hf : Converts f w w') (hw : w' ≤ w) (h : n * w ≤ m.length) :
    forward f w w' n 0 m = .ok (convertAll f w w' n m) := by
  have := forward_from hf hw (k := 0) (n := n) (m := m) (by rwa [Nat.zero_add])
  rw [Nat.zero_add] at this
  rw [← this]
  simp [convertAll]

theorem backward_from (hf : Converts f w w') (hw : w ≤ w') (h : n * w' ≤ m.length)
    (hm' : m'.length = m.length) (hpre : m'.take (n * w') = m.take (n * w')) :
    backward f w w' n m' =
      .ok (((List.range n).map fun k => f (item w m k)).flatten ++ m'.drop (n * w')) := by
  induction n generalizing m' with
  | zero => simp [backward]
  | succ n ih =>
    rw [Nat.succ_mul] at h hpre
    have hnw : n * w ≤ n * w' := Nat.mul_le_mul_left n hw
    have hslice : slice m' (n * w) (n * w + w) = item w m n := by
      rw [item, slice, slice, ← Nat.min_eq_left (show n * w + w ≤ n * w' + w' by omega), ← List.take_take, hpre,
        List.take_take]
    have hstep := step_ok hf (by omega) h hm' hslice
    have hlen : (f (item w m n)).length = w' := hf _ (length_item (by rw [Nat.succ_mul]; omega))
    have htake : (m'.take (n * w')).length = n * w' := by
      rw [List.length_take]
      omega
    rw [backward, hstep, Exec.ok_bind, ih (by omega)]
    · rw [convertAll_succ_flatten, List.append_assoc, List.append_assoc, List.drop_left' htake, Nat.succ_mul]
    · simp only [List.length_append, htake, hlen, List.length_drop]
      omega
    · rw [List.append_assoc, List.take_left' htake, ← Nat.min_eq_left (show n * w' ≤ n * w' + w' by omega),
        ← List.take_take, hpre, List.take_take]

/-- Downwards, items that do not get narrower are converted on their own. -/
theorem backward_eq (hf : Converts f w w') (hw : w ≤ w') (h : n * w' ≤ m.length) :
    backward f w w' n m = .ok (convertAll f w w' n m) :=
  backward_from hf hw h rfl rfl

/-- A converted item, whatever is behind the new items. -/
theorem item_flatten (hf : Converts f w w') (h : n * w ≤ m.length) (hk : k < n) (rest : List α) :
    item w' (((List.range n).map fun k => f (item w m k)).flatten ++ rest) k = f (item w m k) := by
  induction n generalizing rest with
  | zero => omega
  | succ n ih =>
    have hn : n * w ≤ m.length := (Nat.mul_le_mul_right w (Nat.le_succ n)).trans h
    rw [convertAll_succ_flatten, List.append_assoc]
    by_cases hkn : k < n
    · exact ih hn hkn _
    · obtain rfl : k = n := by omega
      have hmid := slice_middle ((List.range k).map fun k => f (item w m k)).flatten (f (item w m k)) rest
      rw [length_flatten hf hn, hf _ (length_item h)] at hmid
      exact hmid

theorem item_convertAll (hf : Converts f w w') (h : n * w ≤ m.length) (hk : k < n) :
    item w' (convertAll f w w' n m) k = f (item w m k) := item_flatten hf h hk _

/-- Behind the new items nothing changes. -/
theorem slice_convertAll (hf : Converts f w w') (h : n * w ≤ m.length) {a b : Nat} (ha : n * w' ≤ a) :
    slice (convertAll f w w' n m) a b = slice m a b := by
  refine List.ext_getElem? fun i => ?_
  rw [getElem?_slice, getElem?_slice]
  split
  · rw [convertAll, List.getElem?_append_right (by rw [length_flatten hf h]; omega), length_flatten hf h, List.getElem?_drop]
    congr 1
    omega
  · rfl

/-- A byte of a wider item. -/
theorem item_one_of_two (m : List α) (k : Nat) : item 1 m k = ((item 2 m (k / 2)).drop (k % 2)).take 1 := by
  have hk : k / 2 * 2 + k % 2 = k := Nat.div_add_mod' k 2
  rw [item, item, drop_slice, hk, take_slice (by omega), Nat.mul_one]

end Nas.InPlace
