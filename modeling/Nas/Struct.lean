import Nas.Fields

/-!
# Structures as bytes

`bytes o l` are the bytes of a structure whose fields are the numbers `l`, of one or more bytes each, without gaps.
To reverse the bytes of each number is to lay the structure out in the other byte order (`swapAll_bytes`), and a
number is read where the structure has it (`InBlock.field`). `Padded` are the bytes of pieces that are padded one by
one, and `Ahead` says which pieces are next in a block.
-/

namespace Nas.Struct

/-- A number in a structure. -/
structure Member where
  width : Nat
  value : Nat
deriving DecidableEq, Repr

def bytes (o : ByteOrder) (l : List Member) : List UInt8 := l.flatMap fun x => o.encode x.width x.value

def size (l : List Member) : Nat := (l.map (·.width)).sum

/-- The numbers of more than one byte, from a position on. -/
def wideFields : (p : Nat) → List Member → List Field
  | _, [] => []
  | p, x :: l => if x.width = 1 then wideFields (p + 1) l else ⟨p, x.width⟩ :: wideFields (p + x.width) l

/-- The number at a distance from the start. -/
def memberAt : List Member → Nat → Option Member
  | [], _ => none
  | x :: l, k => if k = 0 then some x else if x.width ≤ k then memberAt l (k - x.width) else none

section
variable {o : ByteOrder} {l : List Member} {x : Member} {m bs : List UInt8} {p k w v : Nat}

theorem bytes_cons : bytes o (x :: l) = o.encode x.width x.value ++ bytes o l := rfl

@[simp] theorem length_bytes : (bytes o l).length = size l := by
  induction l with
  | nil => rfl
  | cons x l ih =>
    rw [bytes_cons, List.length_append, ih, ByteOrder.length_encode]
    rfl

theorem encode_one (o : ByteOrder) (v : Nat) : o.other.encode 1 v = o.encode 1 v := by
  cases o <;> rfl

/-- The bytes of a field between others. -/
theorem reverse_middle (pre x post : List UInt8) :
    (Field.mk pre.length x.length).reverse (pre ++ (x ++ post)) = pre ++ (x.reverse ++ post) := by
  unfold Field.reverse
  dsimp only
  rw [Memory.slice_middle, ← List.drop_drop, List.drop_left, List.drop_left, List.take_left, List.append_assoc]

/-- A structure behind other bytes in the other byte order. -/
theorem swapAll_behind (pre : List UInt8) :
    swapAll (wideFields pre.length l) (pre ++ bytes o l) = pre ++ bytes o.other l := by
  induction l generalizing pre with
  | nil => rfl
  | cons x l ih =>
    have hrest : swapAll (wideFields (pre.length + x.width) l) (pre ++ (o.other.encode x.width x.value ++ bytes o l)) =
        pre ++ (o.other.encode x.width x.value ++ bytes o.other l) := by
      have := ih (pre ++ o.other.encode x.width x.value)
      rwa [List.length_append, ByteOrder.length_encode, List.append_assoc, List.append_assoc] at this
    rw [bytes_cons, bytes_cons, wideFields]
    by_cases hw : x.width = 1
    · rw [if_pos hw]
      rw [hw] at hrest ⊢
      rw [← encode_one o, hrest]
    · rw [if_neg hw, swapAll_cons]
      have hfield := reverse_middle pre (o.encode x.width x.value) (bytes o l)
      rw [ByteOrder.length_encode, ByteOrder.encode_reverse] at hfield
      rw [hfield, hrest]

/-- The numbers of a structure are swapped. -/
theorem swapAll_bytes : swapAll (wideFields 0 l) (bytes o l) = bytes o.other l := swapAll_behind []

theorem inside_wideFields (m : List UInt8) (h : p + size l ≤ m.length) : ∀ f ∈ wideFields p l, f.Inside m := by
  induction l generalizing p with
  | nil => nofun
  | cons x l ih =>
    have hsize : size (x :: l) = x.width + size l := rfl
    rw [wideFields]
    split
    · rename_i hw
      exact ih (by omega)
    · refine List.forall_mem_cons.2 ⟨?_, ih (by omega)⟩
      unfold Field.Inside
      dsimp only
      omega

theorem swapFields_bytes : swapFields (wideFields 0 l) ⟨bytes o l, []⟩ =
    .ok ⟨bytes o.other l, wideFields 0 l⟩ := by
  rw [swapFields_ok (inside_wideFields _ (by rw [length_bytes, Nat.zero_add])), swapAll_bytes, List.nil_append]

/-! ### Bytes in a block -/

/-- The bytes are in the block from `p` on. -/
def InBlock (m : List UInt8) (p : Nat) (bs : List UInt8) : Prop := ∃ pre post, m = pre ++ (bs ++ post) ∧ pre.length = p

namespace InBlock

theorem le (h : InBlock m p bs) : p + bs.length ≤ m.length := by
  obtain ⟨pre, post, rfl, rfl⟩ := h
  simp only [List.length_append]
  omega

theorem load (h : InBlock m p bs) : Memory.load m p bs.length = .ok bs := by
  rw [Memory.load_ok h.le]
  obtain ⟨pre, post, rfl, rfl⟩ := h
  rw [Memory.slice_middle]

/-- A part of the bytes. -/
theorem part (pre bs post : List UInt8) (h : InBlock m p (pre ++ (bs ++ post))) : InBlock m (p + pre.length) bs := by
  obtain ⟨pre', post', rfl, rfl⟩ := h
  exact ⟨pre' ++ pre, post ++ post', by simp only [List.append_assoc], by rw [List.length_append]⟩

/-- A number of a structure, as much of it as it has room for. -/
theorem field (h : InBlock m p (bytes o l)) (hx : memberAt l k = some ⟨w, v⟩) :
    o.load w m (p + k) = .ok (v % 256 ^ w) := by
  induction l generalizing p k with
  | nil => cases hx
  | cons x l ih =>
    rw [bytes_cons] at h
    rw [memberAt] at hx
    split at hx
    · rename_i hk
      subst hk
      obtain rfl : x = ⟨w, v⟩ := Option.some.inj hx
      have hload := (InBlock.part [] (o.encode w v) (bytes o l) h).load
      rw [ByteOrder.length_encode] at hload
      unfold ByteOrder.load
      rw [show p + 0 = p + ([] : List UInt8).length from rfl, hload, Exec.ok_bind, ← ByteOrder.encode_mod,
        ByteOrder.decode_encode (Nat.mod_lt _ (Nat.pow_pos (by decide)))]
    · split at hx
      · rename_i hle
        have hrest : InBlock m (p + x.width) (bytes o l) := by
          have := InBlock.part (o.encode x.width x.value) (bytes o l) [] (by rwa [List.append_nil])
          rwa [ByteOrder.length_encode] at this
        have hk : p + k = p + x.width + (k - x.width) := by omega
        rw [hk]
        exact ih hrest hx
      · cases hx

/-- A number that has room. -/
theorem number (h : InBlock m p (bytes o l)) (hx : memberAt l k = some ⟨w, v⟩) (hv : v < 256 ^ w) :
    o.load w m (p + k) = .ok v := by
  rw [h.field hx, Nat.mod_eq_of_lt hv]

end InBlock

/-! ### Pieces -/

section Pieces
variable {pad : Nat → Nat} {piece : List UInt8} {ps qs : List (List UInt8)}

/-- Some pieces one behind the other, each with so many bytes of any value behind it. -/
def Padded (pad : Nat → Nat) : List (List UInt8) → List UInt8 → Prop
  | [], bs => bs = []
  | piece :: ps, bs => ∃ gap rest, bs = piece ++ (gap ++ rest) ∧ gap.length = pad piece.length ∧ Padded pad ps rest

def paddedSize (pad : Nat → Nat) (ps : List (List UInt8)) : Nat :=
  (ps.map fun piece => piece.length + pad piece.length).sum

theorem Padded.length (h : Padded pad ps bs) : bs.length = paddedSize pad ps := by
  induction ps generalizing bs with
  | nil =>
    cases h
    rfl
  | cons piece ps ih =>
    obtain ⟨gap, rest, rfl, hgap, hrest⟩ := h
    simp only [List.length_append, hgap, ih hrest, paddedSize, List.map_cons, List.sum_cons]
    omega

theorem paddedSize_cons : paddedSize pad (piece :: ps) = piece.length + pad piece.length + paddedSize pad ps := rfl

theorem paddedSize_append : paddedSize pad (ps ++ qs) = paddedSize pad ps + paddedSize pad qs := by
  unfold paddedSize
  rw [List.map_append, List.sum_append]

theorem paddedSize_flatMap {α : Type*} (f : α → List (List UInt8)) (l : List α) :
    paddedSize pad (l.flatMap f) = (l.map fun a => paddedSize pad (f a)).sum := by
  induction l with
  | nil => rfl
  | cons a l ih => rw [List.flatMap_cons, paddedSize_append, ih, List.map_cons, List.sum_cons]

theorem exists_padded (pad : Nat → Nat) (ps : List (List UInt8)) : ∃ bs, Padded pad ps bs := by
  induction ps with
  | nil => exact ⟨[], rfl⟩
  | cons piece ps ih =>
    obtain ⟨rest, hrest⟩ := ih
    exact ⟨_, List.replicate (pad piece.length) 0, rest, rfl, List.length_replicate, hrest⟩

/-- Pieces that come next in a block. -/
def Ahead (pad : Nat → Nat) (m : List UInt8) (p : Nat) (ps : List (List UInt8)) : Prop :=
  ∃ pre bs, m = pre ++ bs ∧ pre.length = p ∧ Padded pad ps bs

theorem Ahead.next (h : Ahead pad m p (piece :: ps)) :
    InBlock m p piece ∧ Ahead pad m (p + (piece.length + pad piece.length)) ps := by
  obtain ⟨pre, bs, rfl, rfl, gap, rest, rfl, hgap, hrest⟩ := h
  refine ⟨⟨pre, gap ++ rest, rfl, rfl⟩, pre ++ (piece ++ gap), rest, by simp only [List.append_assoc], ?_, hrest⟩
  simp only [List.length_append, hgap]

end Pieces
end

end Nas.Struct
