import Mathlib.Data.List.Rotate
import Mathlib.Data.Int.ModEq
import Mathlib.Tactic.Common

/-!
# Circular buffers

The cells of a circular buffer are a list `buf`. `window buf r n` are the `n` cells that follow
position `r`, going round at the end: the queue the buffer holds when `r` is its read position and
`n` its fill. `Put buf buf' w xs` says that `buf'` is `buf` with `xs` written from position `w` on,
going round at the end. `Put` is what a store does however it splits the data at the end of the
buffer (`Put.splice`, `Put.append`), and a store at the end of the window appends to it
(`window_put`).
-/

namespace Nas.Ring

variable {α : Type}

/-- The `n` cells from position `r` on, going round at the end of the buffer. -/
def window (buf : List α) (r n : Nat) : List α := (buf.rotate r).take n

/-- `buf` with `xs` copied over it from position `d` on. -/
def splice (buf : List α) (d : Nat) (xs : List α) : List α :=
  buf.take d ++ xs ++ buf.drop (d + xs.length)

/-- The offset of position `i` from position `w`, going round. -/
def offset (cap w i : Nat) : Nat := if w ≤ i then i - w else i + cap - w

/-- `buf'` is `buf` with `xs` written from position `w` on, going round. -/
structure Put (buf buf' : List α) (w : Nat) (xs : List α) : Prop where
  length : buf'.length = buf.length
  cells : ∀ i < buf.length, buf'[i]? =
    if offset buf.length w i < xs.length then xs[offset buf.length w i]? else buf[i]?

@[simp] theorem length_window (buf : List α) (r n : Nat) :
    (window buf r n).length = min n buf.length := by simp [window]

theorem getElem?_window {buf : List α} {r n k : Nat} (hk : k < n) (hb : k < buf.length) :
    (window buf r n)[k]? = buf[(k + r) % buf.length]? := by
  rw [window, List.getElem?_take_of_lt hk, List.getElem?_rotate hb]

@[simp] theorem window_zero (buf : List α) (r : Nat) : window buf r 0 = [] := by simp [window]

theorem window_mod (buf : List α) (r n : Nat) : window buf (r % buf.length) n = window buf r n := by
  rw [window, window, List.rotate_mod]

/-- A window that does not reach the end of the buffer is a plain slice. -/
theorem window_eq_take_drop {buf : List α} {r n : Nat} (h : r + n ≤ buf.length) :
    window buf r n = (buf.drop r).take n := by
  rw [window, List.rotate_eq_drop_append_take (by omega), List.take_append_of_le_length]
  simp; omega

/-- A window that reaches past the end continues at the beginning. -/
theorem window_eq_append {buf : List α} {r n : Nat} (hr : r ≤ buf.length) (h : buf.length ≤ r + n)
    (hn : n ≤ buf.length) : window buf r n = buf.drop r ++ buf.take (r + n - buf.length) := by
  rw [window, List.rotate_eq_drop_append_take hr, List.take_append,
    List.take_of_length_le (by simp; omega), List.take_take]
  congr 2
  simp; omega

theorem window_take (buf : List α) (r : Nat) {k n : Nat} (hk : k ≤ n) :
    (window buf r n).take k = window buf r k := by
  rw [window, window, List.take_take, Nat.min_eq_left hk]

/-- Reading `k` cells leaves the rest of the window. -/
theorem window_drop {buf : List α} {r k n : Nat} (hk : k ≤ n) (hn : n ≤ buf.length) :
    window buf ((r + k) % buf.length) (n - k) = (window buf r n).drop k := by
  apply List.ext_getElem?
  intro i
  rw [List.getElem?_drop]
  by_cases hi : i < n - k
  · rw [getElem?_window hi (by omega), getElem?_window (by omega) (by omega), Nat.add_mod_mod]
    congr 2
    omega
  · rw [List.getElem?_eq_none (by simp; omega), List.getElem?_eq_none (by simp; omega)]

theorem offset_lt {cap w i : Nat} (hi : i < cap) (hw : w < cap) : offset cap w i < cap := by
  unfold offset; split <;> omega

/-- The offset recovers the position. -/
theorem offset_add {cap w k : Nat} (hw : w < cap) (hk : k < cap) : offset cap w ((w + k) % cap) = k := by
  have h : (w + k) % cap = if w + k < cap then w + k else w + k - cap := by
    split
    · exact Nat.mod_eq_of_lt ‹_›
    · rw [Nat.mod_eq_sub_mod (by omega), Nat.mod_eq_of_lt (by omega)]
  rw [h, offset]
  split <;> split <;> omega

theorem getElem?_splice {buf xs : List α} {d i : Nat} (h : d + xs.length ≤ buf.length) :
    (splice buf d xs)[i]? = if d ≤ i ∧ i < d + xs.length then xs[i - d]? else buf[i]? := by
  have hd : (buf.take d).length = d := by simp; omega
  rw [splice, List.append_assoc]
  by_cases h1 : i < d
  · rw [List.getElem?_append_left (by omega), List.getElem?_take_of_lt h1, if_neg (by omega)]
  · rw [List.getElem?_append_right (by omega), hd]
    by_cases h2 : i < d + xs.length
    · rw [List.getElem?_append_left (by omega), if_pos ⟨by omega, h2⟩]
    · rw [List.getElem?_append_right (by omega), List.getElem?_drop, if_neg (by omega)]
      congr 1
      omega

@[simp] theorem length_splice {buf xs : List α} {d : Nat} (h : d + xs.length ≤ buf.length) :
    (splice buf d xs).length = buf.length := by
  simp [splice]; omega

/-- A copy that stays inside the buffer. -/
theorem Put.splice {buf xs : List α} {w : Nat} (h : w + xs.length ≤ buf.length) :
    Put buf (splice buf w xs) w xs := by
  refine ⟨length_splice h, fun i hi => ?_⟩
  rw [getElem?_splice h, offset]
  by_cases hw : w ≤ i
  · simp only [hw, true_and, ↓reduceIte]
    by_cases hl : i < w + xs.length
    · rw [if_pos hl, if_pos (by omega)]
    · rw [if_neg hl, if_neg (by omega)]
  · simp only [hw, false_and, ↓reduceIte]
    rw [if_neg (by omega)]

theorem Put.nil (buf : List α) (w : Nat) : Put buf buf w [] :=
  ⟨rfl, fun i hi => by simp⟩

/-- Two copies, the second where the first ended, are one. -/
theorem Put.append {b b' b'' xs ys : List α} {w : Nat} (hw : w < b.length) (h : Put b b' w xs)
    (h' : Put b' b'' ((w + xs.length) % b.length) ys) (hl : xs.length + ys.length ≤ b.length) :
    Put b b'' w (xs ++ ys) := by
  refine ⟨h'.length.trans h.length, fun i hi => ?_⟩
  have hi' : i < b'.length := by rw [h.length]; exact hi
  rw [h'.cells i hi', h.cells i hi, h.length]
  have hw' : (w + xs.length) % b.length =
      if w + xs.length < b.length then w + xs.length else w + xs.length - b.length := by
    split
    · exact Nat.mod_eq_of_lt ‹_›
    · rw [Nat.mod_eq_sub_mod (by omega), Nat.mod_eq_of_lt (by omega)]
  have key : offset b.length ((w + xs.length) % b.length) i =
      if offset b.length w i < xs.length then offset b.length w i + b.length - xs.length
      else offset b.length w i - xs.length := by
    rw [hw']; unfold offset; split_ifs <;> omega
  have hlt := offset_lt hi hw
  rw [key, List.length_append]
  by_cases h1 : offset b.length w i < xs.length
  · rw [if_pos h1, if_neg (by omega), if_pos h1, if_pos (by omega), List.getElem?_append_left h1]
  · rw [if_neg h1]
    by_cases h2 : offset b.length w i < xs.length + ys.length
    · rw [if_pos (by omega), if_pos h2, List.getElem?_append_right (by omega)]
    · rw [if_neg (by omega), if_neg h1, if_neg h2]

/-- What is written just behind the window is appended to it, and nothing in it is overwritten. -/
theorem window_put {buf buf' xs : List α} {r n : Nat} (hr : r < buf.length)
    (hn : n + xs.length ≤ buf.length) (h : Put buf buf' ((r + n) % buf.length) xs) :
    window buf' r (n + xs.length) = window buf r n ++ xs := by
  have hw : (r + n) % buf.length =
      if r + n < buf.length then r + n else r + n - buf.length := by
    split
    · exact Nat.mod_eq_of_lt ‹_›
    · rw [Nat.mod_eq_sub_mod (by omega), Nat.mod_eq_of_lt (by omega)]
  apply List.ext_getElem?
  intro k
  by_cases hk : k < n + xs.length
  · rw [getElem?_window hk (by rw [h.length]; omega), h.length]
    have hkr : (k + r) % buf.length = if k + r < buf.length then k + r else k + r - buf.length := by
      split
      · exact Nat.mod_eq_of_lt ‹_›
      · rw [Nat.mod_eq_sub_mod (by omega), Nat.mod_eq_of_lt (by omega)]
    rw [h.cells _ (Nat.mod_lt _ (by omega))]
    by_cases hkn : k < n
    · rw [List.getElem?_append_left (by simp; omega), getElem?_window hkn (by omega),
        if_neg (by rw [hw, hkr]; unfold offset; split_ifs <;> omega)]
    · have hoff : offset buf.length ((r + n) % buf.length) ((k + r) % buf.length) = k - n := by
        rw [hw, hkr]; unfold offset; split_ifs <;> omega
      rw [hoff, if_pos (by omega), List.getElem?_append_right (by simp; omega)]
      congr 1
      simp; omega
  · rw [List.getElem?_eq_none (by simp [h.length]; omega), List.getElem?_eq_none (by simp; omega)]

/-- The bookkeeping of a circular buffer of `cap` cells: the fill fits, the positions are inside, and
the write position is the fill away from the read position. -/
structure WF (cap read write fill : Nat) : Prop where
  fill_le : fill ≤ cap
  read_lt : 0 < cap → read < cap
  write_eq : 0 < cap → write = (read + fill) % cap

namespace WF
variable {cap read write fill : Nat}

theorem write_lt (h : WF cap read write fill) (hc : 0 < cap) : write < cap := by
  rw [h.write_eq hc]; exact Nat.mod_lt _ hc

/-- The distance from the read to the write position is the fill, modulo the size. -/
theorem distance (h : WF cap read write fill) (hc : 0 < cap) :
    (write : ℤ) - read ≡ fill [ZMOD cap] := by
  rw [h.write_eq hc]
  push_cast
  have : ((read + fill : ℕ) : ℤ) % cap ≡ (read + fill : ℕ) [ZMOD cap] := Int.mod_modEq _ _
  push_cast at this
  simpa using this.sub_right (read : ℤ)

/-- Writing `k` cells that fit. -/
theorem put (h : WF cap read write fill) {k : Nat} (hk : fill + k ≤ cap) :
    WF cap read ((write + k) % cap) (fill + k) := by
  refine ⟨hk, h.read_lt, fun hc => ?_⟩
  rw [h.write_eq hc, Nat.mod_add_mod, Nat.add_assoc]

/-- Reading `k` cells that are there. -/
theorem get (h : WF cap read write fill) {k : Nat} (hk : k ≤ fill) :
    WF cap ((read + k) % cap) write (fill - k) := by
  refine ⟨by have := h.fill_le; omega, fun hc => Nat.mod_lt _ hc, fun hc => ?_⟩
  rw [h.write_eq hc, Nat.mod_add_mod]
  congr 1
  omega

theorem empty (cap : Nat) : WF cap 0 0 0 := ⟨Nat.zero_le _, id, fun _ => by simp⟩

end WF

end Nas.Ring
