import Nas.Fields

/-!
# Numbers written into a block

A cell is a number and the field it is written to, and `storeAll` writes some of them into a block, one after the
other; the bytes between them stay as they are. Cells that do not overlap are read back (`read_storeAll`), and to swap
their fields is to have written them in the other byte order (`swapAll_storeAll`). `chain` has the cells of several
blocks that lie one behind the other.
-/

namespace Nas

structure Cell where
  field : Field
  value : Nat
deriving DecidableEq, Repr

namespace Cell

def shift (p : Nat) (c : Cell) : Cell := ⟨c.field.shift p, c.value⟩

/-- The number has room. -/
def Fits (c : Cell) : Prop := c.value < 256 ^ c.field.width

def bytes (o : ByteOrder) (c : Cell) : List UInt8 := o.encode c.field.width c.value

def store (o : ByteOrder) (m : List UInt8) (c : Cell) : List UInt8 := Ring.splice m c.field.pos (c.bytes o)

instance (c : Cell) : Decidable c.Fits := inferInstanceAs (Decidable (_ < _))

end Cell

def ByteOrder.storeAll (o : ByteOrder) (l : List Cell) (m : List UInt8) : List UInt8 := l.foldl (Cell.store o) m

/-- The fields of more than one byte. -/
def wide (l : List Cell) : List Field := (l.map (·.field)).filter (·.width ≠ 1)

/-- Cells of which each has its own bytes of the first `n`. -/
structure Apart (n : Nat) (l : List Cell) : Prop where
  ordered : Ordered (l.map (·.field))
  inside : ∀ c ∈ l, c.field.pos + c.field.width ≤ n

/-- The cells of blocks of some sizes, one block behind the other. -/
def chain {α : Type*} (size : α → Nat) (cells : α → List Cell) : (p : Nat) → List α → List Cell
  | _, [] => []
  | p, a :: l => (cells a).map (Cell.shift p) ++ chain size cells (p + size a) l

section
variable {o : ByteOrder} {m : List UInt8} {c : Cell} {l k : List Cell} {f : Field} {p w n d : Nat}

namespace Cell

@[simp] theorem length_bytes : (c.bytes o).length = c.field.width := ByteOrder.length_encode

theorem length_store (h : c.field.Inside m) : (c.store o m).length = m.length :=
  Ring.length_splice (by rwa [length_bytes])

theorem getElem?_store (h : c.field.Inside m) (i : Nat) : (c.store o m)[i]? =
    if c.field.pos ≤ i ∧ i < c.field.pos + c.field.width then (c.bytes o)[i - c.field.pos]? else m[i]? := by
  have := Ring.getElem?_splice (i := i) (show c.field.pos + (c.bytes o).length ≤ m.length by rwa [length_bytes])
  rwa [length_bytes] at this

theorem read_store (h : c.field.Inside m) (hv : c.Fits) : o.read c.field.width (c.store o m) c.field.pos = c.value := by
  have hs : Memory.slice (c.store o m) c.field.pos (c.field.pos + c.field.width) = c.bytes o := by
    refine List.ext_getElem? fun i => ?_
    rw [Memory.getElem?_slice]
    by_cases hi : i < c.field.width
    · rw [if_pos (by omega), getElem?_store h, if_pos (by omega), Nat.add_sub_cancel_left]
    · rw [if_neg (by omega), List.getElem?_eq_none (by rw [length_bytes]; omega)]
  rw [ByteOrder.read, hs, bytes, ByteOrder.decode_encode hv]

/-- A number that does not overlap the cell stays. -/
theorem read_store_of_disjoint (h : c.field.Inside m) (hd : p + w ≤ c.field.pos ∨ c.field.pos + c.field.width ≤ p) :
    o.read w (c.store o m) p = o.read w m p := by
  unfold ByteOrder.read
  congr 1
  refine List.ext_getElem? fun i => ?_
  rw [Memory.getElem?_slice, Memory.getElem?_slice]
  split
  · rw [getElem?_store h, if_neg (by omega)]
  · rfl

/-- To swap the field is to have written it in the other order. -/
theorem reverse_store (h : c.field.Inside m) : c.field.reverse (c.store o m) = c.store o.other m := by
  have hin : c.field.Inside (c.store o m) := by
    rw [Field.Inside, length_store h]
    exact h
  refine List.ext_getElem? fun i => ?_
  rw [Field.getElem?_reverse hin, getElem?_store h, getElem?_store h, getElem?_store h]
  by_cases hi : c.field.pos ≤ i ∧ i < c.field.pos + c.field.width
  · rw [if_pos hi, if_pos (by omega), if_pos hi, bytes, bytes, ← ByteOrder.encode_reverse,
      List.getElem?_reverse (by rw [ByteOrder.length_encode]; omega), ByteOrder.length_encode]
    congr 1
    omega
  · rw [if_neg hi, if_neg hi, if_neg hi]

theorem store_one (h : c.field.width = 1) : c.store o m = c.store o.other m := by
  unfold store bytes
  rw [h]
  cases o <;> rfl

/-- What does not overlap can be swapped before. -/
theorem reverse_store_of_disjoint (h : c.field.Inside m) (hf : f.Inside m) (hd : f.Before c.field) :
    f.reverse (c.store o m) = c.store o (f.reverse m) := by
  have hin : f.Inside (c.store o m) := by
    rw [Field.Inside, length_store h]
    exact hf
  unfold Field.Before at hd
  refine List.ext_getElem? fun i => ?_
  rw [Field.getElem?_reverse hin, getElem?_store (Field.inside_reverse.2 h), getElem?_store h, getElem?_store h,
    Field.getElem?_reverse hf]
  by_cases hi : f.pos ≤ i ∧ i < f.pos + f.width
  · rw [if_pos hi, if_neg (by omega), if_neg (by omega), if_pos hi]
  · rw [if_neg hi, if_neg hi]

/-- A cell in the middle of a larger block. -/
theorem store_middle (pre post : List UInt8) (h : c.field.Inside m) :
    (c.shift pre.length).store o (pre ++ (m ++ post)) = pre ++ (c.store o m ++ post) := by
  have hl : (c.bytes o).length = c.field.width := length_bytes
  unfold Field.Inside at h
  unfold store Ring.splice shift bytes Field.shift
  dsimp only
  rw [ByteOrder.length_encode, List.take_length_add_append, Nat.add_assoc, List.drop_length_add_append,
    List.take_append_of_le_length (by omega), List.drop_append_of_le_length h]
  simp only [List.append_assoc]

theorem shift_zero : c.shift 0 = c := by
  obtain ⟨⟨p, w⟩, v⟩ := c
  unfold shift Field.shift
  rw [Nat.zero_add]

theorem shift_shift : (c.shift p).shift n = c.shift (n + p) := by
  unfold shift Field.shift
  rw [Nat.add_assoc]

end Cell

theorem map_shift_zero : l.map (Cell.shift 0) = l := by
  conv_rhs => rw [← List.map_id l]
  exact List.map_congr_left fun c _ => Cell.shift_zero

/-! ### Several cells -/

namespace Apart

theorem of_cons (h : Apart n (c :: l)) : Apart n l :=
  ⟨(List.pairwise_cons.1 h.ordered).2, fun c hc => h.inside c (List.mem_cons_of_mem _ hc)⟩

theorem mono (h : Apart n l) (hd : n ≤ d) : Apart d l := ⟨h.ordered, fun c hc => (h.inside c hc).trans hd⟩

theorem head (h : Apart m.length (c :: l)) : c.field.Inside m := h.inside c List.mem_cons_self

theorem before (h : Apart n (c :: l)) {b : Cell} (hb : b ∈ l) : c.field.Before b.field :=
  (List.pairwise_cons.1 h.ordered).1 _ (List.mem_map_of_mem hb)

/-- Cells behind others. -/
theorem append (hl : Apart n l) (hk : Apart d k) : Apart (n + d) (l ++ k.map (Cell.shift n)) := by
  have hfields : (k.map (Cell.shift n)).map (·.field) = (k.map (·.field)).map (Field.shift n) := by
    rw [List.map_map, List.map_map]
    rfl
  refine ⟨?_, fun c hc => ?_⟩
  · rw [List.map_append, hfields]
    refine ordered_append hl.ordered (ordered_shift hk.ordered n) (q := n) (fun f hf => ?_) fun f hf => ?_
    · obtain ⟨c, hc, rfl⟩ := List.mem_map.1 hf
      exact hl.inside c hc
    · obtain ⟨g, -, rfl⟩ := List.mem_map.1 hf
      exact Nat.le_add_right ..
  · rcases List.mem_append.1 hc with hc | hc
    · exact (hl.inside c hc).trans (Nat.le_add_right ..)
    · obtain ⟨b, hb, rfl⟩ := List.mem_map.1 hc
      have := hk.inside b hb
      unfold Cell.shift Field.shift
      dsimp only
      omega

end Apart

namespace ByteOrder

theorem storeAll_cons : o.storeAll (c :: l) m = o.storeAll l (c.store o m) := rfl

@[simp] theorem storeAll_nil : o.storeAll [] m = m := rfl

theorem storeAll_append : o.storeAll (l ++ k) m = o.storeAll k (o.storeAll l m) := List.foldl_append ..

theorem length_storeAll (h : ∀ c ∈ l, c.field.Inside m) : (o.storeAll l m).length = m.length := by
  induction l generalizing m with
  | nil => rfl
  | cons c l ih =>
    have hc := h c List.mem_cons_self
    have hlen := Cell.length_store (o := o) hc
    rw [storeAll_cons, ih fun b hb => ?_, hlen]
    rw [Field.Inside, hlen]
    exact h b (List.mem_cons_of_mem _ hb)

theorem read_storeAll_of_disjoint (h : ∀ c ∈ l, c.field.Inside m)
    (hd : ∀ c ∈ l, p + w ≤ c.field.pos ∨ c.field.pos + c.field.width ≤ p) :
    o.read w (o.storeAll l m) p = o.read w m p := by
  induction l generalizing m with
  | nil => rfl
  | cons c l ih =>
    have hc := h c List.mem_cons_self
    rw [storeAll_cons, ih (fun b hb => ?_) fun b hb => hd b (List.mem_cons_of_mem _ hb),
      Cell.read_store_of_disjoint hc (hd c List.mem_cons_self)]
    rw [Field.Inside, Cell.length_store hc]
    exact h b (List.mem_cons_of_mem _ hb)

/-- A number that was written is read. -/
theorem read_storeAll (h : Apart m.length l) (hc : c ∈ l) (hv : c.Fits) :
    o.read c.field.width (o.storeAll l m) c.field.pos = c.value := by
  induction l generalizing m with
  | nil => cases hc
  | cons b l ih =>
    have hb := h.head
    have hlen := Cell.length_store (o := o) hb
    have hrest : Apart (b.store o m).length l := by
      rw [hlen]
      exact h.of_cons
    rw [storeAll_cons]
    rcases List.mem_cons.1 hc with rfl | hc
    · rw [read_storeAll_of_disjoint (fun a ha => hrest.inside a ha) fun a ha => .inl (h.before ha),
        Cell.read_store hb hv]
    · exact ih hrest hc

/-- All of them are read. -/
theorem read_all (h : Apart m.length l) (hv : ∀ c ∈ l, c.Fits) :
    l.map (fun c => o.read c.field.width (o.storeAll l m) c.field.pos) = l.map (·.value) :=
  List.map_congr_left fun c hc => read_storeAll h hc (hv c hc)

/-- Cells in the middle of a larger block. -/
theorem storeAll_middle (pre post : List UInt8) (h : ∀ c ∈ l, c.field.Inside m) :
    o.storeAll (l.map (Cell.shift pre.length)) (pre ++ (m ++ post)) = pre ++ (o.storeAll l m ++ post) := by
  induction l generalizing m with
  | nil => rfl
  | cons c l ih =>
    have hc := h c List.mem_cons_self
    rw [List.map_cons, storeAll_cons, storeAll_cons, Cell.store_middle pre post hc, ih fun b hb => ?_]
    rw [Field.Inside, Cell.length_store hc]
    exact h b (List.mem_cons_of_mem _ hb)

theorem storeAll_left (post : List UInt8) (h : ∀ c ∈ l, c.field.Inside m) :
    o.storeAll l (m ++ post) = o.storeAll l m ++ post := by
  have := storeAll_middle (o := o) [] post h
  rwa [List.length_nil, map_shift_zero, List.nil_append, List.nil_append] at this

/-- Two blocks, one behind the other. -/
theorem storeAll_two {q : List UInt8} (hl : ∀ c ∈ l, c.field.Inside m) (hk : ∀ c ∈ k, c.field.Inside q) :
    o.storeAll (l ++ k.map (Cell.shift m.length)) (m ++ q) = o.storeAll l m ++ o.storeAll k q := by
  have hsecond := storeAll_middle (o := o) (o.storeAll l m) [] hk
  rw [List.append_nil, List.append_nil, length_storeAll hl] at hsecond
  rw [storeAll_append, storeAll_left q hl, hsecond]

theorem reverse_storeAll (h : ∀ c ∈ l, c.field.Inside m) (hf : f.Inside m) (hb : ∀ c ∈ l, f.Before c.field) :
    f.reverse (o.storeAll l m) = o.storeAll l (f.reverse m) := by
  induction l generalizing m with
  | nil => rfl
  | cons c l ih =>
    have hc := h c List.mem_cons_self
    have hlen := Cell.length_store (o := o) hc
    have hin : ∀ b ∈ l, b.field.Inside (c.store o m) := by
      intro b hmem
      rw [Field.Inside, hlen]
      exact h b (List.mem_cons_of_mem _ hmem)
    have hfin : f.Inside (c.store o m) := by
      rw [Field.Inside, hlen]
      exact hf
    rw [storeAll_cons, storeAll_cons, ih hin hfin fun b hmem => hb b (List.mem_cons_of_mem _ hmem),
      Cell.reverse_store_of_disjoint hc hf (hb c List.mem_cons_self)]

end ByteOrder

theorem wide_cons : wide (c :: l) = if c.field.width = 1 then wide l else c.field :: wide l := by
  unfold wide
  rw [List.map_cons, List.filter_cons]
  by_cases h : c.field.width = 1
  · rw [if_pos h, if_neg (by simp [h])]
  · rw [if_neg h, if_pos (by simp [h])]

theorem wide_append : wide (l ++ k) = wide l ++ wide k := by
  unfold wide
  rw [List.map_append, List.filter_append]

theorem wide_shift : wide (l.map (Cell.shift p)) = (wide l).map (Field.shift p) := by
  induction l with
  | nil => rfl
  | cons c l ih =>
    rw [List.map_cons, wide_cons, wide_cons, ih]
    unfold Cell.shift Field.shift
    dsimp only
    split <;> rfl

/-- The numbers are those of a block written in the other order. -/
theorem swapAll_storeAll (h : Apart m.length l) : swapAll (wide l) (o.storeAll l m) = o.other.storeAll l m := by
  induction l generalizing m with
  | nil => rfl
  | cons c l ih =>
    have hc := h.head
    have hlen := Cell.length_store (o := o) hc
    have hlen' := Cell.length_store (o := o.other) hc
    have hrest : Apart (c.store o.other m).length l := by
      rw [hlen']
      exact h.of_cons
    rw [ByteOrder.storeAll_cons, ByteOrder.storeAll_cons, wide_cons, ← ih hrest]
    by_cases hw : c.field.width = 1
    · rw [if_pos hw, Cell.store_one hw]
    · have hin : ∀ b ∈ l, b.field.Inside (c.store o m) := by
        intro b hb
        rw [Field.Inside, hlen]
        exact h.of_cons.inside b hb
      have hcin : c.field.Inside (c.store o m) := by
        rw [Field.Inside, hlen]
        exact hc
      rw [if_neg hw, swapAll_cons, ByteOrder.reverse_storeAll hin hcin fun b hb => h.before hb, Cell.reverse_store hc]

/-! ### Blocks one behind the other -/

section Chain
variable {α : Type*} {size : α → Nat} {cells : α → List Cell} {as : List α}

theorem chain_shift : (chain size cells p as).map (Cell.shift n) = chain size cells (n + p) as := by
  induction as generalizing p with
  | nil => rfl
  | cons a as ih =>
    rw [chain, chain, List.map_append, ih, List.map_map, Nat.add_assoc]
    congr 1
    exact List.map_congr_left fun c _ => Cell.shift_shift

theorem chain_cons (a : α) : chain size cells 0 (a :: as) =
    cells a ++ (chain size cells 0 as).map (Cell.shift (size a)) := by
  rw [chain, chain_shift, map_shift_zero, Nat.zero_add, Nat.add_zero]

theorem apart_chain (h : ∀ a ∈ as, Apart (size a) (cells a)) : Apart (as.map size).sum (chain size cells 0 as) := by
  induction as with
  | nil => exact ⟨List.Pairwise.nil, nofun⟩
  | cons a as ih =>
    rw [chain_cons, List.map_cons, List.sum_cons]
    exact (h a List.mem_cons_self).append (ih fun b hb => h b (List.mem_cons_of_mem _ hb))

theorem fits_of_chain (h : ∀ c ∈ chain size cells p as, c.Fits) {a : α} (ha : a ∈ as) : ∀ c ∈ cells a, c.Fits := by
  induction as generalizing p with
  | nil => cases ha
  | cons b as ih =>
    rw [chain] at h
    rcases List.mem_cons.1 ha with rfl | ha
    · exact fun c hc => h (c.shift p) (List.mem_append_left _ (List.mem_map_of_mem hc))
    · exact ih (fun c hc => h c (List.mem_append_right _ hc)) ha

theorem fits_chain (h : ∀ a ∈ as, ∀ c ∈ cells a, c.Fits) : ∀ c ∈ chain size cells p as, c.Fits := by
  induction as generalizing p with
  | nil => nofun
  | cons a as ih =>
    intro c hc
    rcases List.mem_append.1 hc with hc | hc
    · obtain ⟨b, hb, rfl⟩ := List.mem_map.1 hc
      exact h a List.mem_cons_self b hb
    · exact ih (fun b hb => h b (List.mem_cons_of_mem _ hb)) c hc

/-- Blocks that are written one by one. -/
theorem storeAll_chain {block : α → List UInt8} (hsize : ∀ a ∈ as, (block a).length = size a)
    (h : ∀ a ∈ as, Apart (size a) (cells a)) :
    as.flatMap (fun a => o.storeAll (cells a) (block a)) = o.storeAll (chain size cells 0 as) (as.flatMap block) := by
  induction as with
  | nil => rfl
  | cons a as ih =>
    have hsizes : ∀ b ∈ as, (block b).length = size b := fun b hb => hsize b (List.mem_cons_of_mem _ hb)
    have hrest : ∀ b ∈ as, Apart (size b) (cells b) := fun b hb => h b (List.mem_cons_of_mem _ hb)
    have hlen : (as.flatMap block).length = (as.map size).sum := by
      rw [List.length_flatMap]
      exact congrArg List.sum (List.map_congr_left hsizes)
    have ha := hsize a List.mem_cons_self
    have htwo := ByteOrder.storeAll_two (o := o) (m := block a) (q := as.flatMap block)
      (fun c hc => (h a List.mem_cons_self).inside c hc |>.trans ha.ge)
      fun c hc => (apart_chain hrest).inside c hc |>.trans hlen.ge
    rw [List.flatMap_cons, List.flatMap_cons, ih hsizes hrest, chain_cons, ← ha, htwo]

theorem wide_chain_cons (a : α) : wide (chain size cells p (a :: as)) =
    (wide (cells a)).map (Field.shift p) ++ wide (chain size cells (p + size a) as) := by
  rw [chain, wide_append, wide_shift]

/-- Blocks of one size with a number at the start. -/
theorem wide_chain_spaced (h : ∀ a ∈ as, wide (cells a) = [⟨0, w⟩]) :
    wide (chain (fun _ => d) cells p as) = spaced p d w as.length := by
  induction as generalizing p with
  | nil => rfl
  | cons a as ih =>
    rw [wide_chain_cons, h a List.mem_cons_self, ih fun b hb => h b (List.mem_cons_of_mem _ hb), List.length_cons,
      spaced_succ]
    rfl

theorem wide_chain_nil (h : ∀ a ∈ as, wide (cells a) = []) : wide (chain size cells p as) = [] := by
  induction as generalizing p with
  | nil => rfl
  | cons a as ih =>
    rw [wide_chain_cons, h a List.mem_cons_self, ih fun b hb => h b (List.mem_cons_of_mem _ hb)]
    rfl

end Chain
end

end Nas
