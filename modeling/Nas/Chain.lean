import Nas.LinkedList
import Mathlib.Data.List.Perm.Subperm

/-!
# Chains of records

Singly linked lists that start at the entries of an array, as a hash table has them. A `Slot` is where a pointer
to a record stands: an entry of the array, or the `next` of a record. `find` walks on from a slot and returns the
slot that holds the pointer to what it has found, so that the record can be taken out by a `write` to the slot.

`Segment mem head l q` says that from `head` on the records `l` follow, and then `q`. `Segment.read` and
`Segment.write` describe the slot behind a segment: what is in it is `q`, and a write changes `q` alone, whether
it takes a record out, or puts one in.
-/

namespace Nas

structure Node (α : Type) where
  item : α
  next : Option Nat
deriving DecidableEq, Repr

inductive Slot where
  | head (j : Nat)
  | next (p : Nat)
deriving DecidableEq, Repr

namespace Slot
variable {α : Type}

/-- The pointer in a slot. -/
def read (heads : List (Option Nat)) (mem : Heap (Node α)) : Slot → Exec (Option Nat)
  | head j => Exec.deref heads[j]?
  | next p => (·.next) <$> Exec.deref (mem.get p)

/-- Another pointer in a slot. -/
def write (heads : List (Option Nat)) (mem : Heap (Node α)) (v : Option Nat) :
    Slot → Exec (List (Option Nat) × Heap (Node α))
  | head j => if j < heads.length then .ok (heads.set j v, mem) else .error .fault
  | next p => if mem.live p then .ok (heads, mem.modify p ({ · with next := v })) else .error .fault

/-- The slot behind some records, the first of which is in the slot. -/
def after (s : Slot) (l : List Nat) : Slot := l.getLast?.elim s .next

@[simp] theorem after_nil (s : Slot) : s.after [] = s := rfl

@[simp] theorem after_concat (s : Slot) (l : List Nat) (p : Nat) : s.after (l ++ [p]) = .next p := by
  rw [after, List.getLast?_concat]
  rfl

theorem after_cons (s : Slot) (p : Nat) (l : List Nat) : s.after (p :: l) = (Slot.next p).after l := by
  rcases List.eq_nil_or_concat' l with rfl | ⟨l, q, rfl⟩
  · rfl
  · rw [after_concat, ← List.cons_append, after_concat]

theorem after_append (s : Slot) (l l' : List Nat) : s.after (l ++ l') = (s.after l).after l' := by
  rcases List.eq_nil_or_concat' l' with rfl | ⟨l', q, rfl⟩
  · rw [List.append_nil, after_nil]
  · rw [after_concat, ← List.append_assoc, after_concat]

end Slot

/-- The first record from a slot on that is wanted, and the slot that holds the pointer to it. -/
def find {α : Type} (mem : Heap (Node α)) (wanted : α → Bool) :
    Nat → Slot → Option Nat → Exec (Option (Slot × Nat × Node α))
  | _, _, none => .ok none
  | 0, _, some _ => .error .fuel
  | n + 1, prev, some p => do
    let node ← Exec.deref (mem.get p)
    if wanted node.item then .ok (some (prev, p, node)) else find mem wanted n (.next p) node.next

/-- The records from one on. -/
def follow {α : Type} (mem : Heap (Node α)) : Nat → Option Nat → Exec (List Nat)
  | _, none => .ok []
  | 0, some _ => .error .fuel
  | n + 1, some p => do
    let node ← Exec.deref (mem.get p)
    (p :: ·) <$> follow mem n node.next

variable {α : Type} {mem mem' : Heap (Node α)} {heads : List (Option Nat)} {head q r v : Option Nat} {l l' : List Nat}
  {j p : Nat}

/-- From `head` on the records `l` follow, and then `q`. -/
def Segment (mem : Heap (Node α)) : Option Nat → List Nat → Option Nat → Prop
  | head, [], q => head = q
  | head, p :: l, q => head = some p ∧ ∃ node, mem.get p = some node ∧ Segment mem node.next l q

namespace Segment

theorem append : Segment mem head (l ++ l') q ↔ ∃ r, Segment mem head l r ∧ Segment mem r l' q := by
  induction l generalizing head with
  | nil => exact ⟨fun h => ⟨head, rfl, h⟩, fun ⟨r, hr, h⟩ => by cases hr; exact h⟩
  | cons p l ih =>
    constructor
    · rintro ⟨hp, node, hget, h⟩
      obtain ⟨r, hl, hr⟩ := ih.1 h
      exact ⟨r, ⟨hp, node, hget, hl⟩, hr⟩
    · rintro ⟨r, ⟨hp, node, hget, hl⟩, hr⟩
      exact ⟨hp, node, hget, ih.2 ⟨r, hl, hr⟩⟩

/-- Only where the records lead to matters. -/
theorem congr_next (h : Segment mem head l q)
    (hl : ∀ p ∈ l, (mem'.get p).map (·.next) = (mem.get p).map (·.next)) : Segment mem' head l q := by
  induction l generalizing head with
  | nil => exact h
  | cons p l ih =>
    obtain ⟨hp, node, hget, h⟩ := h
    have hnext := hl p (by simp)
    rw [hget] at hnext
    obtain ⟨node', hget', heq⟩ := Option.map_eq_some_iff.1 hnext
    exact ⟨hp, node', hget', ih (heq ▸ h) fun p' hp' => hl p' (by simp [hp'])⟩

theorem congr (h : Segment mem head l q) (hl : ∀ p ∈ l, mem'.get p = mem.get p) : Segment mem' head l q :=
  h.congr_next fun p hp => by rw [hl p hp]

theorem live (h : Segment mem head l q) (hp : p ∈ l) : ∃ node, mem.get p = some node := by
  induction l generalizing head with
  | nil => cases hp
  | cons p' l ih =>
    obtain ⟨-, node, hget, h⟩ := h
    rcases List.mem_cons.1 hp with rfl | hp
    · exact ⟨node, hget⟩
    · exact ih h hp

/-- What follows is determined. -/
theorem unique (h : Segment mem head l none) (h' : Segment mem head l' none) : l = l' := by
  induction l generalizing head l' with
  | nil =>
    rcases l' with _ | ⟨p, l'⟩
    · rfl
    · exact absurd (h.symm.trans h'.1) (by simp)
  | cons p l ih =>
    obtain ⟨rfl, node, hget, h⟩ := h
    rcases l' with _ | ⟨p', l'⟩
    · exact absurd h' (by simp [Segment])
    · obtain ⟨hp, node', hget', h'⟩ := h'
      cases hp
      cases hget.symm.trans hget'
      rw [ih h h']

/-- A chain that ends comes by no record twice. -/
theorem nodup (h : Segment mem head l none) : l.Nodup := by
  induction l generalizing head with
  | nil => exact List.nodup_nil
  | cons p l ih =>
    obtain ⟨-, node, hget, h⟩ := h
    refine List.nodup_cons.2 ⟨fun hp => ?_, ih h⟩
    -- what follows it there is shorter than what follows it here
    obtain ⟨l₁, l₂, rfl⟩ := List.append_of_mem hp
    obtain ⟨r, -, hr⟩ := append.1 h
    obtain ⟨-, node', hget', h'⟩ := hr
    cases hget.symm.trans hget'
    have hlen := congrArg List.length (h.unique h')
    simp only [List.length_append, List.length_cons] at hlen
    omega

theorem length_le (h : Segment mem head l none) : l.length ≤ mem.next := by
  have hsub : l ⊆ List.range mem.next := fun p hp => by
    obtain ⟨node, hget⟩ := h.live hp
    exact List.mem_range.2 (Heap.lt_next hget)
  simpa using (List.subperm_of_subset h.nodup hsub).length_le

theorem follow (h : Segment mem head l none) {n : Nat} (hn : l.length ≤ n) : Nas.follow mem n head = .ok l := by
  induction l generalizing head n with
  | nil =>
    cases h
    unfold Nas.follow
    rfl
  | cons p l ih =>
    obtain ⟨rfl, node, hget, h⟩ := h
    obtain ⟨n, rfl⟩ : ∃ m, n = m + 1 := ⟨n - 1, by simp at hn; omega⟩
    rw [Nas.follow, hget, Exec.deref_some, Exec.ok_bind, ih h (by simpa using hn)]
    rfl

/-- What is in the slot behind a segment. -/
theorem read (h : Segment mem head l q) (hj : heads[j]? = some head) :
    ((Slot.head j).after l).read heads mem = .ok q := by
  rcases List.eq_nil_or_concat' l with rfl | ⟨l, p, rfl⟩
  · cases h
    rw [Slot.after_nil, Slot.read, hj, Exec.deref_some]
  · obtain ⟨r, -, rfl, node, hget, rfl⟩ := append.1 h
    rw [Slot.after_concat, Slot.read, hget]
    rfl

/-- A write to the slot behind a segment. -/
structure Wrote (heads : List (Option Nat)) (mem : Heap (Node α)) (j : Nat) (l : List Nat) (v : Option Nat)
    (heads' : List (Option Nat)) (mem' : Heap (Node α)) : Prop where
  segment : ∃ head, heads'[j]? = some head ∧ Segment mem' head l v
  length : heads'.length = heads.length
  heads : ∀ i, i ≠ j → heads'[i]? = heads[i]?
  nodes : ∀ p, p ∉ l → mem'.get p = mem.get p
  items : ∀ p, (mem'.get p).map (·.item) = (mem.get p).map (·.item)
  next : mem'.next = mem.next

theorem write (h : Segment mem head l q) (hj : heads[j]? = some head) (hl : l.Nodup) (v : Option Nat) :
    ∃ heads' mem', ((Slot.head j).after l).write heads mem v = .ok (heads', mem') ∧
      Wrote heads mem j l v heads' mem' := by
  have hlt : j < heads.length := by
    rw [List.getElem?_eq_some_iff] at hj
    exact hj.1
  rcases List.eq_nil_or_concat' l with rfl | ⟨l, p, rfl⟩
  · refine ⟨heads.set j v, mem, by rw [Slot.after_nil, Slot.write, if_pos hlt], ⟨v, ?_, rfl⟩,
      List.length_set, fun i hi => ?_, fun _ _ => rfl, fun _ => rfl, rfl⟩
    · rw [List.getElem?_set_self hlt]
    · rw [List.getElem?_set_ne hi.symm]
  · obtain ⟨r, hseg, rfl, node, hget, -⟩ := append.1 h
    have hlive : mem.live p = true := by
      rw [Heap.live, hget]
      rfl
    have hp : p ∉ l := by
      rw [List.nodup_append] at hl
      exact fun hp => hl.2.2 p hp p (by simp) rfl
    refine ⟨heads, mem.modify p ({ · with next := v }), by rw [Slot.after_concat, Slot.write, if_pos hlive],
      ⟨head, hj, ?_⟩, rfl, fun _ _ => rfl, fun p' hp' => ?_, fun p' => ?_, rfl⟩
    · refine append.2 ⟨some p, hseg.congr fun p' hp' => ?_, rfl, { node with next := v }, ?_, rfl⟩
      · rw [Heap.get_modify, if_neg]
        rintro rfl
        exact hp hp'
      · rw [Heap.get_modify_self, hget]
        rfl
    · rw [Heap.get_modify, if_neg]
      rintro rfl
      exact hp' (by simp)
    · rw [Heap.get_modify]
      split
      · rw [Option.map_map]
        rfl
      · rfl

/-- What `find` finds. -/
theorem find (h : Segment mem q l none) (wanted : α → Bool) {n : Nat} (hn : l.length ≤ n) (prev : Slot) :
    (Nas.find mem wanted n prev q = .ok none ∧ ∀ p ∈ l, ∀ node, mem.get p = some node → wanted node.item = false) ∨
      ∃ pre p post node, l = pre ++ p :: post ∧ mem.get p = some node ∧ wanted node.item = true ∧
        (∀ p ∈ pre, ∀ node, mem.get p = some node → wanted node.item = false) ∧
        Nas.find mem wanted n prev q = .ok (some (prev.after pre, p, node)) := by
  induction l generalizing q n prev with
  | nil =>
    cases h
    refine .inl ⟨?_, fun p hp => by cases hp⟩
    unfold Nas.find
    rfl
  | cons p l ih =>
    obtain ⟨rfl, node, hget, h⟩ := h
    obtain ⟨n, rfl⟩ : ∃ m, n = m + 1 := ⟨n - 1, by simp at hn; omega⟩
    rw [Nas.find, hget, Exec.deref_some, Exec.ok_bind]
    by_cases hw : wanted node.item = true
    · rw [if_pos hw]
      exact .inr ⟨[], p, l, node, rfl, hget, hw, fun p hp => (by cases hp), rfl⟩
    rw [if_neg hw]
    have hnot : ∀ node', mem.get p = some node' → wanted node'.item = false := fun node' hget' => by
      cases hget.symm.trans hget'
      simpa using hw
    rcases ih h (by simpa using hn) (.next p) with ⟨hnone, hall⟩ | ⟨pre, p', post, node', rfl, hget', hw', hpre, hfind⟩
    · refine .inl ⟨hnone, fun p' hp' => ?_⟩
      rcases List.mem_cons.1 hp' with rfl | hp'
      · exact hnot
      · exact hall p' hp'
    · refine .inr ⟨p :: pre, p', post, node', rfl, hget', hw', fun p'' hp'' => ?_, by rw [hfind, Slot.after_cons]⟩
      rcases List.mem_cons.1 hp'' with rfl | hp''
      · exact hnot
      · exact hpre p'' hp''

end Segment

/-! ### What a chain holds -/

/-- From `head` on there are records of these items, and no more. -/
def Holds (mem : Heap (Node α)) (head : Option Nat) (items : List α) : Prop :=
  ∃ l, Segment mem head l none ∧ l.map (fun p => (mem.get p).map (·.item)) = items.map some

/-- The first wanted item of a chain: the records in front of it, its own, and those behind it. -/
structure Located (mem : Heap (Node α)) (head : Option Nat) (items : List α) (wanted : α → Bool) (l₁ : List Nat) (p : Nat)
    (node : Node α) (pre post : List α) : Prop where
  items_eq : items = pre ++ node.item :: post
  first : wanted node.item = true
  unwanted : ∀ a ∈ pre, wanted a = false
  get : mem.get p = some node
  segment : Segment mem head l₁ (some p)
  front : l₁.map (fun p => (mem.get p).map (·.item)) = pre.map some
  rest : ∃ l₂, Segment mem node.next l₂ none ∧ l₂.map (fun p => (mem.get p).map (·.item)) = post.map some ∧
    (l₁ ++ p :: l₂).Nodup

namespace Holds
variable {items items' pre post : List α} {wanted : α → Bool} {node : Node α} {l₁ : List Nat} {a : α}

theorem nil : Holds mem none ([] : List α) := ⟨[], rfl, rfl⟩

theorem unique (h : Holds mem head items) (h' : Holds mem head items') : items = items' := by
  obtain ⟨l, hl, hitems⟩ := h
  obtain ⟨l', hl', hitems'⟩ := h'
  rw [hl.unique hl', hitems'] at hitems
  exact (List.map_inj_right (fun _ _ => Option.some.inj) |>.1 hitems).symm

theorem congr (h : Segment mem head l none) (hitems : l.map (fun p => (mem.get p).map (·.item)) = items.map some)
    (hl : ∀ p ∈ l, mem'.get p = mem.get p) : Holds mem' head items := by
  refine ⟨l, h.congr hl, ?_⟩
  rw [← hitems]
  exact List.map_congr_left fun p hp => by rw [hl p hp]

/-- A new record in front. -/
theorem push (h : Holds mem head items) (a : α) : Holds (mem.alloc ⟨a, head⟩) (some mem.next) (a :: items) := by
  obtain ⟨l, hl, hitems⟩ := h
  have hother : ∀ p ∈ l, (mem.alloc ⟨a, head⟩).get p = mem.get p := fun p hp => by
    obtain ⟨node, hget⟩ := hl.live hp
    rw [Heap.get_alloc, if_neg (Nat.ne_of_lt (Heap.lt_next hget))]
  have hnew : (mem.alloc ⟨a, head⟩).get mem.next = some ⟨a, head⟩ := by rw [Heap.get_alloc, if_pos rfl]
  refine ⟨mem.next :: l, ⟨rfl, _, hnew, hl.congr hother⟩, ?_⟩
  rw [List.map_cons, List.map_cons, hnew, ← hitems]
  congr 1
  exact List.map_congr_left fun p hp => by rw [hother p hp]

/-- The first wanted item is found, with the slot in front of it. -/
theorem find (h : Holds mem head items) (wanted : α → Bool) (prev : Slot) :
    (Nas.find mem wanted mem.next prev head = .ok none ∧ ∀ a ∈ items, wanted a = false) ∨
      ∃ l₁ p node pre post, Located mem head items wanted l₁ p node pre post ∧
        Nas.find mem wanted mem.next prev head = .ok (some (prev.after l₁, p, node)) := by
  obtain ⟨l, hl, hitems⟩ := h
  rcases hl.find wanted hl.length_le prev with ⟨hfind, hall⟩ | ⟨l₁, p, l₂, node, rfl, hget, hw, hpre, hfind⟩
  · refine .inl ⟨hfind, fun a ha => ?_⟩
    have hmem : some a ∈ l.map (fun p => (mem.get p).map (·.item)) := hitems ▸ List.mem_map_of_mem ha
    obtain ⟨p, hp, heq⟩ := List.mem_map.1 hmem
    obtain ⟨node, hget, rfl⟩ := Option.map_eq_some_iff.1 heq
    exact hall p hp node hget
  · refine .inr ⟨l₁, p, node, ?_⟩
    rw [List.map_append, List.map_cons, hget] at hitems
    obtain ⟨pre, rest, rfl, hfront, hrest⟩ := List.map_eq_append_iff.1 hitems.symm
    obtain ⟨a, post, rfl, ha, hpost⟩ := List.map_eq_cons_iff.1 hrest
    cases ha
    obtain ⟨r, hl₁, rfl, node', hget', hl₂⟩ := Segment.append.1 hl
    cases hget.symm.trans hget'
    refine ⟨pre, post, ⟨rfl, hw, fun a ha => ?_, hget, hl₁, hfront.symm, l₂, hl₂, hpost.symm, hl.nodup⟩, hfind⟩
    have hmem : some a ∈ l₁.map (fun p => (mem.get p).map (·.item)) := hfront ▸ List.mem_map_of_mem ha
    obtain ⟨q, hq, heq⟩ := List.mem_map.1 hmem
    obtain ⟨node', hget', rfl⟩ := Option.map_eq_some_iff.1 heq
    exact hpre q hq node' hget'

/-- What is behind a record stays when the record is freed. -/
theorem behind (h : Located mem head items wanted l₁ p node pre post) : Holds (mem.free p) node.next post := by
  obtain ⟨l₂, hl₂, hpost, hnodup⟩ := h.rest
  refine congr hl₂ hpost fun q hq => ?_
  rw [Heap.get_free, if_neg]
  rintro rfl
  exact (List.nodup_cons.1 (List.nodup_append.1 hnodup).2.1).1 hq

/-- The record is taken out through the slot in front of it. -/
theorem unlink (h : Located mem head items wanted l₁ p node pre post) (hj : heads[j]? = some head) :
    ∃ heads' mem' head', ((Slot.head j).after l₁).write heads mem node.next = .ok (heads', mem') ∧
      heads'[j]? = some head' ∧ Holds (mem'.free p) head' (pre ++ post) := by
  obtain ⟨l₂, hl₂, hpost, hnodup⟩ := h.rest
  obtain ⟨hnodup₁, hnodup₂, hdisj⟩ := List.nodup_append.1 hnodup
  obtain ⟨hp, -⟩ := List.nodup_cons.1 hnodup₂
  obtain ⟨heads', mem', hwrite, w⟩ := h.segment.write hj hnodup₁ node.next
  obtain ⟨head', hhead, hseg⟩ := w.segment
  refine ⟨heads', mem', head', hwrite, hhead, ?_⟩
  have hfront : ∀ q ∈ l₁, (mem'.free p).get q = mem'.get q := fun q hq => by
    rw [Heap.get_free, if_neg]
    rintro rfl
    exact hdisj q hq q (by simp) rfl
  have hback : ∀ q ∈ l₂, (mem'.free p).get q = mem.get q := fun q hq => by
    rw [Heap.get_free, if_neg, w.nodes q fun hq' => hdisj q hq' q (by simp [hq]) rfl]
    rintro rfl
    exact hp hq
  refine ⟨l₁ ++ l₂, Segment.append.2 ⟨_, hseg.congr hfront, hl₂.congr hback⟩, ?_⟩
  rw [List.map_append, List.map_append, ← h.front, ← hpost]
  congr 1
  · exact List.map_congr_left fun q hq => by rw [hfront q hq, w.items]
  · exact List.map_congr_left fun q hq => by rw [hback q hq]

end Holds

end Nas
