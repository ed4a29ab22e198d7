import Nas.Memory
import Nas.Wire

/-!
# Fields of a block

A field is a number in a block of memory. Reversing the bytes of a field is to write its number in the other
byte order; `swapAll` does so for some fields, one after the other, and on fields that do not overlap twice is
as good as never (`swapAll_cancel`). `swapFields` is `swapAll` for a program: it is a fault outside of the block,
and keeps a record of the fields that were swapped.
-/

namespace Nas

/-- A number in a block of memory. -/
def ByteOrder.read (o : ByteOrder) (w : Nat) (m : List UInt8) (p : Nat) : Nat := o.decode (Memory.slice m p (p + w))

def ByteOrder.load (o : ByteOrder) (w : Nat) (m : List UInt8) (p : Nat) : Exec Nat := do
  let bs ← Memory.load m p w
  .ok (o.decode bs)

namespace ByteOrder
variable {o : ByteOrder} {w p : Nat} {m pre post : List UInt8}

theorem load_ok (h : p + w ≤ m.length) : o.load w m p = .ok (o.read w m p) := by
  rw [load, Memory.load_ok h, Exec.ok_bind, read]

theorem load_fault (h : m.length < p + w) : o.load w m p = .error .fault := by
  rw [load, Memory.load, if_neg (by omega), Exec.error_bind]

theorem read_lt (h : p + w ≤ m.length) : o.read w m p < 256 ^ w := by
  refine decode_lt ?_
  rw [Memory.length_slice h]
  omega

/-- A number is where it is in a larger block, too. -/
theorem read_middle (h : p + w ≤ m.length) : o.read w (pre ++ m ++ post) (pre.length + p) = o.read w m p := by
  unfold read
  congr 1
  refine List.ext_getElem? fun i => ?_
  rw [Memory.getElem?_slice, Memory.getElem?_slice]
  by_cases hi : p + i < p + w
  · rw [if_pos hi, if_pos (by omega), List.append_assoc, List.getElem?_append_right (by omega),
      List.getElem?_append_left (by omega)]
    congr 1
    omega
  · rw [if_neg hi, if_neg (by omega)]

end ByteOrder

structure Field where
  pos : Nat
  width : Nat
deriving DecidableEq, Repr

namespace Field

def Inside (m : List UInt8) (f : Field) : Prop := f.pos + f.width ≤ m.length

def Before (f g : Field) : Prop := f.pos + f.width ≤ g.pos

instance (m : List UInt8) (f : Field) : Decidable (f.Inside m) := inferInstanceAs (Decidable (_ ≤ _))
instance (f g : Field) : Decidable (f.Before g) := inferInstanceAs (Decidable (_ ≤ _))

/-- The field lies somewhere behind. -/
def shift (p : Nat) (f : Field) : Field := ⟨p + f.pos, f.width⟩

/-- The block with the bytes of the field in reverse. -/
def reverse (f : Field) (m : List UInt8) : List UInt8 :=
  m.take f.pos ++ (Memory.slice m f.pos (f.pos + f.width)).reverse ++ m.drop (f.pos + f.width)

end Field

/-- The block with the bytes of each of some fields in reverse. -/
def swapAll (l : List Field) (m : List UInt8) : List UInt8 := l.foldl (fun m f => f.reverse m) m

/-- Fields of one width at equal distances. -/
def spaced (p distance width n : Nat) : List Field := (List.range n).map fun i => ⟨p + i * distance, width⟩

/-- Fields one behind the other. -/
abbrev Ordered (l : List Field) : Prop := l.Pairwise Field.Before

/-- A block and the fields of it that were swapped so far. -/
structure Swapping where
  mem : List UInt8
  swapped : List Field := []
deriving DecidableEq

/-- `swaps` and `swapl`. -/
def swap (s : Swapping) (f : Field) : Exec Swapping := do
  let bs ← Memory.load s.mem f.pos f.width
  let mem ← Memory.store s.mem f.pos bs.reverse
  .ok { mem := mem, swapped := s.swapped ++ [f] }

def swapFields (l : List Field) (s : Swapping) : Exec Swapping := l.foldlM swap s

section
variable {o : ByteOrder} {m : List UInt8} {f g : Field} {l k : List Field} {s : Swapping} {w p : Nat}

namespace Field

@[simp] theorem length_reverse : (f.reverse m).length = m.length := by
  simp only [reverse, Memory.slice, List.length_append, List.length_take, List.length_reverse, List.length_drop]
  omega

theorem inside_reverse : g.Inside (f.reverse m) ↔ g.Inside m := by rw [Inside, Inside, length_reverse]

theorem getElem?_reverse (h : f.Inside m) (i : Nat) :
    (f.reverse m)[i]? =
      if f.pos ≤ i ∧ i < f.pos + f.width then m[2 * f.pos + f.width - 1 - i]? else m[i]? := by
  unfold Inside at h
  have hl : (Memory.slice m f.pos (f.pos + f.width)).length = f.width := by
    rw [Memory.length_slice h]
    omega
  have ht : (m.take f.pos).length = f.pos := by
    rw [List.length_take]
    omega
  unfold reverse
  by_cases h₁ : i < f.pos
  · rw [if_neg (by omega), List.append_assoc, List.getElem?_append_left (by omega), List.getElem?_take, if_pos h₁]
  · rw [List.append_assoc, List.getElem?_append_right (by omega), ht]
    by_cases h₂ : i < f.pos + f.width
    · rw [if_pos ⟨by omega, h₂⟩, List.getElem?_append_left (by rw [List.length_reverse]; omega),
        List.getElem?_reverse (by omega), hl, Memory.getElem?_slice, if_pos (by omega)]
      congr 1
      omega
    · rw [if_neg (by omega), List.getElem?_append_right (by rw [List.length_reverse]; omega),
        List.length_reverse, hl, List.getElem?_drop]
      congr 1
      omega

/-- To reverse twice is to do nothing. -/
theorem reverse_reverse (h : f.Inside m) : f.reverse (f.reverse m) = m := by
  refine List.ext_getElem? fun i => ?_
  rw [getElem?_reverse (inside_reverse.2 h)]
  split
  · rw [getElem?_reverse h, if_pos (by omega)]
    congr 1
    omega
  · rw [getElem?_reverse h, if_neg (by assumption)]

/-- Fields that do not overlap can be reversed in any order. -/
theorem reverse_comm (hf : f.Inside m) (hg : g.Inside m) (h : f.Before g ∨ g.Before f) :
    f.reverse (g.reverse m) = g.reverse (f.reverse m) := by
  unfold Before at h
  refine List.ext_getElem? fun i => ?_
  rw [getElem?_reverse (inside_reverse.2 hf), getElem?_reverse (inside_reverse.2 hg)]
  simp only [getElem?_reverse hf, getElem?_reverse hg]
  by_cases h₁ : f.pos ≤ i ∧ i < f.pos + f.width
  · rw [if_pos h₁, if_neg (by omega), if_neg (by omega), if_pos h₁]
  · rw [if_neg h₁]
    split
    · rw [if_neg (by omega)]
    · rfl

theorem slice_reverse (h : f.Inside m) :
    Memory.slice (f.reverse m) f.pos (f.pos + f.width) = (Memory.slice m f.pos (f.pos + f.width)).reverse := by
  unfold Inside at h
  have hl : (Memory.slice m f.pos (f.pos + f.width)).length = f.width := by
    rw [Memory.length_slice h]
    omega
  refine List.ext_getElem? fun i => ?_
  rw [Memory.getElem?_slice]
  by_cases hi : i < f.width
  · rw [if_pos (by omega), getElem?_reverse h, if_pos (by omega), List.getElem?_reverse (by omega), hl,
      Memory.getElem?_slice, if_pos (by omega)]
    congr 1
    omega
  · rw [if_neg (by omega), List.getElem?_eq_none (by rw [List.length_reverse]; omega)]

/-- A number whose bytes are reversed, in the other order. -/
theorem read_reverse (h : f.Inside m) : o.read f.width (f.reverse m) f.pos = o.other.read f.width m f.pos := by
  rw [ByteOrder.read, slice_reverse h, ByteOrder.decode_reverse]
  rfl

/-- What does not overlap the field stays. -/
theorem read_reverse_of_disjoint (h : f.Inside m) (hd : p + w ≤ f.pos ∨ f.pos + f.width ≤ p) :
    o.read w (f.reverse m) p = o.read w m p := by
  unfold ByteOrder.read
  congr 1
  refine List.ext_getElem? fun i => ?_
  rw [Memory.getElem?_slice, Memory.getElem?_slice]
  split
  · rw [getElem?_reverse h, if_neg (by omega)]
  · rfl

end Field

/-! ### Several fields -/

@[simp] theorem swapAll_nil : swapAll [] m = m := rfl

theorem swapAll_cons : swapAll (f :: l) m = swapAll l (f.reverse m) := rfl

theorem swapAll_append : swapAll (l ++ k) m = swapAll k (swapAll l m) := List.foldl_append ..

@[simp] theorem length_swapAll : (swapAll l m).length = m.length := by
  induction l generalizing m with
  | nil => rfl
  | cons f l ih => rw [swapAll_cons, ih, Field.length_reverse]

theorem inside_swapAll : f.Inside (swapAll l m) ↔ f.Inside m := by
  rw [Field.Inside, Field.Inside, length_swapAll]

theorem read_swapAll_of_disjoint (h : ∀ f ∈ l, f.Inside m) (hd : ∀ f ∈ l, p + w ≤ f.pos ∨ f.pos + f.width ≤ p) :
    o.read w (swapAll l m) p = o.read w m p := by
  induction l generalizing m with
  | nil => rfl
  | cons f l ih =>
    rw [swapAll_cons, ih, Field.read_reverse_of_disjoint (h f (by simp)) (hd f (by simp))]
    · exact fun g hg => Field.inside_reverse.2 (h g (by simp [hg]))
    · exact fun g hg => hd g (by simp [hg])

theorem getElem?_swapAll_of_disjoint {i : Nat} (h : ∀ f ∈ l, f.Inside m) (hd : ∀ f ∈ l, i < f.pos ∨ f.pos + f.width ≤ i) :
    (swapAll l m)[i]? = m[i]? := by
  induction l generalizing m with
  | nil => rfl
  | cons f l ih =>
    have hi := hd f (by simp)
    rw [swapAll_cons, ih, Field.getElem?_reverse (h f (by simp)), if_neg (by omega)]
    · exact fun g hg => Field.inside_reverse.2 (h g (by simp [hg]))
    · exact fun g hg => hd g (by simp [hg])

theorem reverse_swapAll (hf : f.Inside m) (h : ∀ g ∈ l, g.Inside m) (hd : ∀ g ∈ l, f.Before g) :
    f.reverse (swapAll l m) = swapAll l (f.reverse m) := by
  induction l generalizing m with
  | nil => rfl
  | cons g l ih =>
    have hg : g.Inside m := h g (by simp)
    have hl : ∀ k ∈ l, k.Inside (g.reverse m) := fun k hk => Field.inside_reverse.2 (h k (by simp [hk]))
    rw [swapAll_cons, swapAll_cons, ih (Field.inside_reverse.2 hf) hl
      fun k hk => hd k (by simp [hk]), Field.reverse_comm hf hg (.inl (hd g (by simp)))]

/-- Fields swapped twice are as they were. -/
theorem swapAll_cancel (ho : Ordered (l ++ k)) (h : ∀ f ∈ l ++ k, f.Inside m) :
    swapAll l (swapAll (l ++ k) m) = swapAll k m := by
  induction l with
  | nil => rfl
  | cons f l ih =>
    obtain ⟨hb, ho⟩ := List.pairwise_cons.1 ho
    have hf := h f (by simp)
    have hl : ∀ g ∈ l ++ k, g.Inside m := fun g hg => h g (List.mem_cons_of_mem _ hg)
    rw [List.cons_append, swapAll_cons, swapAll_cons, ← reverse_swapAll hf hl hb, Field.reverse_reverse (inside_swapAll.2 hf), ih ho hl]

/-- A number that is swapped, in the other order. -/
theorem read_swapAll (ho : Ordered l) (h : ∀ f ∈ l, f.Inside m) (hf : f ∈ l) :
    o.other.read f.width (swapAll l m) f.pos = o.read f.width m f.pos := by
  obtain ⟨l₁, l₂, rfl⟩ := List.append_of_mem hf
  obtain ⟨-, ho₂, hb⟩ := List.pairwise_append.1 ho
  obtain ⟨hb₂, -⟩ := List.pairwise_cons.1 ho₂
  have h₁ : ∀ g ∈ l₁, g.Inside m := fun g hg => h g (by simp [hg])
  have hfi : f.Inside (swapAll l₁ m) := inside_swapAll.2 (h f (by simp))
  rw [swapAll_append, swapAll_cons, read_swapAll_of_disjoint, Field.read_reverse hfi, ByteOrder.other_other,
    read_swapAll_of_disjoint h₁ fun g hg => .inr (hb g hg f (by simp))]
  · exact fun g hg => Field.inside_reverse.2 (inside_swapAll.2 (h g (by simp [hg])))
  · exact fun g hg => .inl (hb₂ g hg)

theorem spaced_succ (p d w n : Nat) : spaced p d w (n + 1) = ⟨p, w⟩ :: spaced (p + d) d w n := by
  simp only [spaced, List.range_succ_eq_map, List.map_cons, List.map_map, Nat.zero_mul, Nat.add_zero]
  congr 1
  refine List.map_congr_left fun i _ => ?_
  simp only [Function.comp_apply, Nat.succ_mul]
  congr 1
  omega

theorem mem_spaced {d n : Nat} : f ∈ spaced p d w n ↔ ∃ i < n, f = ⟨p + i * d, w⟩ := by
  simp only [spaced, List.mem_map, List.mem_range]
  exact ⟨fun ⟨i, hi, h⟩ => ⟨i, hi, h.symm⟩, fun ⟨i, hi, h⟩ => ⟨i, hi, h.symm⟩⟩

theorem ordered_spaced {d : Nat} (hd : w ≤ d) (p n : Nat) : Ordered (spaced p d w n) := by
  refine List.Pairwise.map _ (fun i j h => ?_) List.pairwise_lt_range
  have := Nat.mul_le_mul_right d (Nat.succ_le_of_lt h)
  rw [Nat.succ_mul] at this
  simp only [Field.Before]
  omega

theorem ordered_append {q : Nat} (hl : Ordered l) (hk : Ordered k) (hlq : ∀ f ∈ l, f.pos + f.width ≤ q)
    (hkq : ∀ f ∈ k, q ≤ f.pos) : Ordered (l ++ k) :=
  List.pairwise_append.2 ⟨hl, hk, fun f hf g hg => (hlq f hf).trans (hkq g hg)⟩

theorem ordered_shift (hl : Ordered l) (p : Nat) : Ordered (l.map (Field.shift p)) := by
  refine List.Pairwise.map _ (fun f g h => ?_) hl
  simp only [Field.Before, Field.shift] at *
  omega

theorem nodup_of_ordered (hl : Ordered l) (h : ∀ f ∈ l, 0 < f.width) : l.Nodup := by
  refine hl.imp_of_mem fun {f g} hf hg hb hfg => ?_
  have := h f hf
  rw [← hfg] at hb
  unfold Field.Before at hb
  omega

/-! ### Swapping -/

theorem swap_ok (h : f.Inside s.mem) :
    swap s f = .ok { mem := f.reverse s.mem, swapped := s.swapped ++ [f] } := by
  have hl : (Memory.slice s.mem f.pos (f.pos + f.width)).length = f.width := by
    rw [Memory.length_slice h]
    omega
  unfold Field.Inside at h
  rw [swap, Memory.load_ok h, Exec.ok_bind, Memory.store, if_pos (by rw [List.length_reverse]; omega), Exec.ok_bind,
    Ring.splice, List.length_reverse, hl]
  rfl

theorem swap_fault (h : ¬ f.Inside s.mem) : swap s f = .error .fault := by
  unfold Field.Inside at h
  rw [swap, Memory.load, if_neg h, Exec.error_bind]

theorem swapFields_ok (h : ∀ f ∈ l, f.Inside s.mem) :
    swapFields l s = .ok { mem := swapAll l s.mem, swapped := s.swapped ++ l } := by
  induction l generalizing s with
  | nil => simp [swapFields, pure, Except.pure]
  | cons f l ih =>
    rw [swapFields, List.foldlM_cons, swap_ok (h f (by simp)), Exec.ok_bind]
    refine (ih fun g hg => Field.inside_reverse.2 (h g (by simp [hg]))).trans ?_
    · rw [swapAll_cons, List.append_assoc]
      rfl

theorem swapFields_fault (hf : f ∈ l) (h : ¬ f.Inside s.mem) : swapFields l s = .error .fault := by
  induction l generalizing s with
  | nil => cases hf
  | cons g l ih =>
    rw [swapFields, List.foldlM_cons]
    by_cases hg : g.Inside s.mem
    · rw [swap_ok hg, Exec.ok_bind]
      rcases List.mem_cons.1 hf with rfl | hf
      · exact absurd hg h
      · exact ih hf fun hi => h (Field.inside_reverse.1 hi)
    · rw [swap_fault hg]
      rfl

/-- To swap what was swapped before. -/
theorem swapFields_cancel (swapped : List Field) (ho : Ordered (l ++ k)) (h : ∀ f ∈ l ++ k, f.Inside m) :
    swapFields l { mem := swapAll (l ++ k) m, swapped := swapped } = .ok { mem := swapAll k m, swapped := swapped ++ l } := by
  rw [swapFields_ok fun f hf => inside_swapAll.2 (h f (List.mem_append_left _ hf)), swapAll_cancel ho h]

theorem swapFields_cons : swapFields (f :: l) s = swap s f >>= swapFields l := List.foldlM_cons

@[simp] theorem swapFields_nil : swapFields [] s = .ok s := rfl

theorem swapFields_append : swapFields (l ++ k) s = swapFields l s >>= swapFields k := List.foldlM_append ..

end

end Nas
