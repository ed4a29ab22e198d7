import Nas.Exec
import Mathlib.Logic.Function.Basic
import Mathlib.Data.List.Nodup

/-!
# Records behind pointers, and doubly linked lists of them

A `Heap` gives out each address once, so a pointer to freed memory leads nowhere. `LinkedList` has the
usual operations on a list whose items hold their own `prev` and `next`: `add` puts an item at the
head, `append` behind the item that is said to be the last, and `remove` takes an item out by its links
alone and believes that an item without a `prev` is the head.

`IsList links head l` says that `head` and the links make up the list `l`. On an item of the list
`remove` is right (`IsList.remove`); on one that is not it is harmless only when the links the item still
has describe its neighbours as they are (`Detached`, `remove_detached`), as those of an item do that was
removed last (`IsList.remove`).
-/

namespace Nas

/-! ### Records -/

structure Heap (α : Type) where
  get : Nat → Option α
  /-- The address that is given out next. -/
  next : Nat
  fresh : ∀ p, next ≤ p → get p = none

namespace Heap
variable {α : Type} (h : Heap α) {p q : Nat} {a : α} {f : α → α}

def empty : Heap α := ⟨fun _ => none, 0, fun _ _ => rfl⟩

def live (p : Nat) : Bool := (h.get p).isSome

def alloc (a : α) : Heap α where
  get := Function.update h.get h.next (some a)
  next := h.next + 1
  fresh p hp := by
    rw [Function.update_of_ne (by omega)]
    exact h.fresh p (by omega)

def free (p : Nat) : Heap α where
  get := Function.update h.get p none
  next := h.next
  fresh q hq := by
    by_cases hqp : q = p
    · simp [hqp]
    · simp [hqp, h.fresh q hq]

def modify (p : Nat) (f : α → α) : Heap α where
  get := Function.update h.get p ((h.get p).map f)
  next := h.next
  fresh q hq := by
    by_cases hqp : q = p
    · subst hqp; simp [h.fresh q hq]
    · simp [hqp, h.fresh q hq]

/-- `modify` at each of some addresses. -/
def modifyAll (ps : List Nat) (f : α → α) : Heap α where
  get q := if q ∈ ps then (h.get q).map f else h.get q
  next := h.next
  fresh q hq := by simp [h.fresh q hq]

variable {h}

@[simp] theorem alloc_next : (h.alloc a).next = h.next + 1 := rfl
@[simp] theorem free_next : (h.free p).next = h.next := rfl
@[simp] theorem modify_next : (h.modify p f).next = h.next := rfl
@[simp] theorem modifyAll_next {ps : List Nat} : (h.modifyAll ps f).next = h.next := rfl

theorem get_alloc : (h.alloc a).get q = if q = h.next then some a else h.get q := by
  simp [alloc, Function.update_apply]

theorem get_free : (h.free p).get q = if q = p then none else h.get q := by
  simp [free, Function.update_apply]

theorem get_modify : (h.modify p f).get q = if q = p then (h.get q).map f else h.get q := by
  by_cases hqp : q = p
  · subst hqp; simp [modify]
  · simp [modify, hqp]

@[simp] theorem get_modify_self : (h.modify p f).get p = (h.get p).map f := by simp [get_modify]

theorem get_modifyAll {ps : List Nat} :
    (h.modifyAll ps f).get q = if q ∈ ps then (h.get q).map f else h.get q := rfl

theorem lt_next (hp : h.get p = some a) : p < h.next := by
  by_contra hn
  simp [h.fresh p (by omega)] at hp

end Heap

/-! ### Links -/

structure Links (N : Type) where
  prev : Option N := none
  next : Option N := none
deriving DecidableEq, Repr

namespace LinkedList
variable {N : Type}

section Operations
variable [DecidableEq N] (live : N → Bool) (links : N → Links N) (head : Option N) (item : N)

/-- `if (p) p->prev = v` -/
def setPrev (p v : Option N) : Exec (N → Links N) :=
  match p with
  | none => .ok links
  | some p => if live p then .ok (Function.update links p { links p with prev := v }) else .error .fault

/-- `p->next = v` -/
def setNext (p : N) (v : Option N) : Exec (N → Links N) :=
  if live p then .ok (Function.update links p { links p with next := v }) else .error .fault

/-- `AddToLinkedList`: the links and the head. -/
def add : Exec ((N → Links N) × Option N) := do
  let links := Function.update links item ⟨none, head⟩
  let links ← setPrev live links head (some item)
  .ok (links, some item)

/-- `RemoveFromLinkedList`: the links and the head. -/
def remove : Exec ((N → Links N) × Option N) := do
  let links ← setPrev live links (links item).next (links item).prev
  match (links item).prev with
  | some p => do
    let links ← setNext live links p (links item).next
    .ok (links, head)
  | none => .ok (links, (links item).next)

/-- `AddToEventQueue`, for a list that has a pointer to its last item as well: the links and the head. -/
def append (tail : Option N) : Exec ((N → Links N) × Option N) :=
  match tail with
  | some t => do
    let links ← setNext live links t (some item)
    .ok (Function.update links item ⟨some t, none⟩, head)
  | none => .ok (Function.update links item ⟨none, none⟩, some item)

/-- Follow the links from `head` on. -/
def walk : (fuel : Nat) → Option N → Exec (List N)
  | _, none => .ok []
  | 0, some _ => .error .fuel
  | fuel + 1, some p =>
    if live p then do
      let ps ← walk fuel (links p).next
      .ok (p :: ps)
    else .error .fault

end Operations

/-! ### Lists -/

section Lists
variable (live : N → Bool) (links : N → Links N) (head : Option N) (item : N)

/-- The links lead from `head` through the items `l`. `prev` is what the first of them points back to,
`last` what an item behind them would have to, and `next` where the last of them leads. -/
def Seg (links : N → Links N) : (prev head : Option N) → List N → (last next : Option N) → Prop
  | prev, head, [], last, next => last = prev ∧ next = head
  | prev, head, p :: ps, last, next =>
    head = some p ∧ (links p).prev = prev ∧ Seg links (some p) (links p).next ps last next

/-- `head` is the head of a list with the items `l`. -/
structure IsList (l : List N) : Prop where
  seg : ∃ last, Seg links none head l last none
  nodup : l.Nodup

/-- The links of `item` describe the neighbours it would have in a list with this head as they are. -/
structure Detached : Prop where
  next : ∀ n, (links item).next = some n → live n ∧ (links n).prev = (links item).prev
  prev : ∀ p, (links item).prev = some p → live p ∧ (links p).next = (links item).next
  first : (links item).prev = none → head = (links item).next

end Lists

variable {live : N → Bool} {links : N → Links N} {head : Option N} {item : N}
variable {links' : N → Links N} {prev last next : Option N} {l l₁ l₂ : List N}

namespace Seg

theorem congr (h : Seg links prev head l last next) (hl : ∀ p ∈ l, links' p = links p) :
    Seg links' prev head l last next := by
  induction l generalizing prev head with
  | nil => exact h
  | cons p ps ih =>
    obtain ⟨hh, hp, h⟩ := h
    have hpe := hl p (by simp)
    refine ⟨hh, by rw [hpe]; exact hp, ?_⟩
    rw [hpe]
    exact ih h fun q hq => hl q (by simp [hq])

theorem append : Seg links prev head (l₁ ++ l₂) last next ↔
    ∃ m k, Seg links prev head l₁ m k ∧ Seg links m k l₂ last next := by
  induction l₁ generalizing prev head with
  | nil => simp [Seg]
  | cons p ps ih => simp only [List.cons_append, Seg, ih]; tauto

/-- The link that leads out of a segment is that of its last item. -/
theorem setNext {p : N} {v : Option N} (h : Seg links prev head (l ++ [p]) last next)
    (hv : links' p = { links p with next := v }) (hl : ∀ q ∈ l, links' q = links q) :
    Seg links' prev head (l ++ [p]) last v := by
  obtain ⟨m, k, h₁, hk, hm, hlast, -⟩ := append.1 h
  refine append.2 ⟨m, k, h₁.congr hl, hk, by rw [hv]; exact hm, hlast, ?_⟩
  rw [hv]

/-- The link back out of a segment is that of its first item. -/
theorem setPrev {p : N} {v : Option N} (h : Seg links prev head (p :: l) last next)
    (hv : links' p = { links p with prev := v }) (hl : ∀ q ∈ l, links' q = links q) :
    Seg links' v head (p :: l) last next := by
  obtain ⟨hh, -, h⟩ := h
  exact ⟨hh, by rw [hv], by rw [hv]; exact h.congr hl⟩

end Seg

theorem IsList.nil : IsList links none ([] : List N) := ⟨⟨none, rfl, rfl⟩, List.nodup_nil⟩

theorem IsList.congr (h : IsList links head l) (hl : ∀ p ∈ l, links' p = links p) :
    IsList links' head l :=
  ⟨h.seg.imp fun _ hs => hs.congr hl, h.nodup⟩

theorem IsList.head_mem {p : N} (h : IsList links (some p) l) : p ∈ l := by
  obtain ⟨last, hs⟩ := h.seg
  cases l with
  | nil => simp [Seg] at hs
  | cons q qs =>
    obtain ⟨hq, -⟩ := hs
    simp_all

theorem Seg.walk (h : Seg links prev head l last none) (hlive : ∀ p ∈ l, live p) {fuel : Nat}
    (hf : l.length ≤ fuel) : walk live links fuel head = .ok l := by
  induction l generalizing prev head fuel with
  | nil =>
    obtain ⟨-, rfl⟩ := h
    cases fuel <;> rfl
  | cons p ps ih =>
    obtain ⟨rfl, -, h⟩ := h
    obtain _ | fuel := fuel
    · simp at hf
    · have := ih h (fun q hq => hlive q (by simp [hq])) (show ps.length ≤ fuel by simpa using hf)
      simp [LinkedList.walk, hlive p (by simp), this]

theorem Seg.head_eq (h : Seg links prev head l last none) : head = l.head? := by
  cases l with
  | nil => exact h.2.symm
  | cons p ps => exact h.1

theorem Seg.last_eq (h : Seg links prev head (l ++ [item]) last next) : last = some item ∧ (links item).next = next := by
  obtain ⟨m, k, -, -, -, hlast, hnext⟩ := append.1 h
  exact ⟨hlast, hnext.symm⟩

theorem IsList.head_eq (h : IsList links head l) : head = l.head? := by
  obtain ⟨last, hs⟩ := h.seg
  exact hs.head_eq

/-- Where the links of an item lead. -/
theorem IsList.neighbours (h : IsList links head (l₁ ++ item :: l₂)) :
    (links item).prev = l₁.getLast? ∧ (links item).next = l₂.head? := by
  obtain ⟨last, hs⟩ := h.seg
  obtain ⟨m, k, hs₁, -, hprev, hs₂⟩ := Seg.append.1 hs
  refine ⟨?_, hs₂.head_eq⟩
  rw [hprev]
  rcases List.eq_nil_or_concat l₁ with rfl | ⟨ks, q, rfl⟩
  · exact hs₁.1
  · rw [List.concat_eq_append] at hs₁ ⊢
    rw [hs₁.last_eq.1, List.getLast?_concat]

/-- With enough fuel a walk finds the items of a list. -/
theorem IsList.walk (h : IsList links head l) (hlive : ∀ p ∈ l, live p) {fuel : Nat}
    (hf : l.length ≤ fuel) : walk live links fuel head = .ok l := by
  obtain ⟨last, hs⟩ := h.seg
  exact hs.walk hlive hf

variable [DecidableEq N]

theorem IsList.add (h : IsList links head l) (hi : item ∉ l) (hlive : ∀ p ∈ l, live p) :
    ∃ links', add live links head item = .ok (links', some item) ∧ IsList links' (some item) (item :: l) ∧
      ∀ p, p ≠ item → p ∉ l → links' p = links p := by
  obtain ⟨last, hs⟩ := h.seg
  cases l with
  | nil =>
    obtain ⟨-, rfl⟩ := hs
    refine ⟨_, rfl, ⟨⟨some item, rfl, by simp, by simp [Seg]⟩, by simp⟩, fun p hp _ => ?_⟩
    exact Function.update_of_ne hp _ _
  | cons q qs =>
    have hq : q ≠ item := fun h => hi (by simp [h])
    obtain ⟨rfl, hprev, hs⟩ := hs
    have hn := List.nodup_cons.1 h.nodup
    let m := Function.update links item ⟨none, some q⟩
    refine ⟨Function.update m q { m q with prev := some item },
      by simp [LinkedList.add, LinkedList.setPrev, hlive q, m], ⟨⟨last, rfl, ?_, ?_⟩,
      List.nodup_cons.2 ⟨hi, h.nodup⟩⟩, fun p hp hpl => ?_⟩
    · simp [m, Function.update_of_ne hq.symm]
    · simp only [m]
      rw [Function.update_of_ne hq.symm, Function.update_self]
      have hq' : Seg links none (some q) (q :: qs) last none := ⟨rfl, hprev, hs⟩
      refine hq'.setPrev ?_ fun r hr => ?_
      · simp [Function.update_of_ne hq]
      · have hrq : r ≠ q := fun h => hn.1 (h ▸ hr)
        have hri : r ≠ item := fun h => hi (by simp [← h, hr])
        simp [Function.update_of_ne hrq, Function.update_of_ne hri]
    · have hpq : p ≠ q := fun h => hpl (by simp [h])
      simp [m, Function.update_of_ne hpq, Function.update_of_ne hp]

theorem IsList.append {tail : Option N} (h : IsList links head l) (ht : tail = l.getLast?) (hi : item ∉ l)
    (hlive : ∀ p ∈ l, live p) :
    ∃ links' head', append live links head item tail = .ok (links', head') ∧
      IsList links' head' (l ++ [item]) := by
  obtain ⟨last, hs⟩ := h.seg
  have hn : (l ++ [item]).Nodup := List.nodup_append'.2 ⟨h.nodup, List.nodup_singleton item, by simpa using hi⟩
  rcases List.eq_nil_or_concat l with rfl | ⟨ks, t, rfl⟩
  · subst ht
    exact ⟨_, _, rfl, ⟨some item, rfl, by simp, rfl, by simp⟩, hn⟩
  · rw [List.concat_eq_append] at *
    rw [List.getLast?_concat] at ht
    subst ht
    have hti : t ≠ item := fun h => hi (by simp [h])
    have htks : t ∉ ks := fun h' => (List.nodup_append'.1 h.nodup).2.2 h' (by simp)
    have htl : live t := hlive t (by simp)
    let links₁ := Function.update links t { links t with next := some item }
    refine ⟨Function.update links₁ item ⟨some t, none⟩, head,
      by simp [LinkedList.append, LinkedList.setNext, htl, links₁], ⟨some item, ?_⟩, hn⟩
    refine Seg.append.2 ⟨some t, some item, ?_, rfl, by simp, by simp [Seg]⟩
    obtain ⟨hlast, -⟩ := hs.last_eq
    rw [hlast] at hs
    refine hs.setNext (by simp [hti, links₁]) fun q hq => ?_
    have hqi : q ≠ item := fun h => hi (by simp [← h, hq])
    have hqt : q ≠ t := fun h => htks (h ▸ hq)
    simp [hqi, hqt, links₁]

/-- The first half of a removal: what follows an item gets another `prev`. -/
theorem Seg.relinkPrev (h : Seg links prev next l last none) (hlive : ∀ p ∈ l, live p) (hl : l.Nodup)
    (v : Option N) : ∃ links' last', LinkedList.setPrev live links next v = .ok links' ∧
      Seg links' v next l last' none ∧ (∀ p, p ∉ l → links' p = links p) ∧
      ∀ n, next = some n → live n ∧ (links' n).prev = v := by
  cases l with
  | nil =>
    obtain ⟨-, rfl⟩ := h
    exact ⟨links, v, rfl, ⟨rfl, rfl⟩, fun _ _ => rfl, by simp⟩
  | cons q qs =>
    have hq : next = some q := h.1
    subst hq
    have hn := (List.nodup_cons.1 hl).1
    have hlq : live q := hlive q (by simp)
    refine ⟨Function.update links q { links q with prev := v }, last, by simp [LinkedList.setPrev, hlq],
      h.setPrev (by simp) fun r hr => ?_, fun p hp => ?_, ?_⟩
    · have hrq : r ≠ q := by rintro rfl; exact hn hr
      simp [hrq]
    · have hpq : p ≠ q := by rintro rfl; exact hp (by simp)
      simp [hpq]
    · rintro n ⟨⟩
      simp [hlq]

theorem IsList.remove (h : IsList links head l) (hi : item ∈ l) (hlive : ∀ p ∈ l, live p) :
    ∃ links' head', remove live links head item = .ok (links', head') ∧
      IsList links' head' (l.erase item) ∧ (∀ p, p ∉ l → links' p = links p) ∧
      Detached live links' head' item := by
  obtain ⟨last, hs⟩ := h.seg
  obtain ⟨l₁, l₂, rfl, hi₁⟩ := List.eq_append_cons_of_mem hi
  obtain ⟨hn₁, hn₂, hdis⟩ := List.nodup_append'.1 h.nodup
  obtain ⟨hi₂, hn₂⟩ := List.nodup_cons.1 hn₂
  have hdis₂ : ∀ p ∈ l₁, p ∉ l₂ := fun p hp hp' => hdis hp (by simp [hp'])
  have hn : (l₁ ++ l₂).Nodup := List.nodup_append'.2 ⟨hn₁, hn₂, hdis₂⟩
  rw [List.erase_append_right _ hi₁, List.erase_cons_head]
  obtain ⟨m, _, hs₁, rfl, rfl, hs₂⟩ := Seg.append.1 hs
  -- the item behind gets the `prev` of this one
  obtain ⟨links₁, last₁, hset, hs₂', hout, hnx⟩ :=
    hs₂.relinkPrev (fun p hp => hlive p (by simp [hp])) hn₂ (links item).prev
  have hitem : links₁ item = links item := hout item hi₂
  have hs₁' := hs₁.congr fun p hp => hout p (hdis₂ p hp)
  unfold LinkedList.remove
  rw [hset, Exec.ok_bind, hitem]
  rcases List.eq_nil_or_concat l₁ with rfl | ⟨ks, k, rfl⟩
  · -- the head of the list
    obtain ⟨hm, -⟩ := hs₁
    rw [hm] at hs₂' hnx ⊢
    refine ⟨links₁, _, rfl, ⟨⟨last₁, hs₂'⟩, hn⟩, fun p hp => hout p fun h => hp (by simp [h]), ?_⟩
    exact ⟨by simpa [hitem, hm] using hnx, by simp [hitem, hm], by simp [hitem]⟩
  · -- the item in front gets the `next` of this one
    rw [List.concat_eq_append] at *
    have hk : (links item).prev = some k := by
      obtain ⟨_, _, -, _, _, hlast, -⟩ := Seg.append.1 hs₁
      exact hlast
    have hklive : live k := hlive k (by simp)
    have hkks : k ∉ ks := fun h => (List.nodup_append'.1 hn₁).2.2 h (by simp)
    have hki : k ≠ item := fun h => hi₁ (by simp [h])
    have hk₂ : k ∉ l₂ := hdis₂ k (by simp)
    rw [hk] at hs₁' hs₂' hnx ⊢
    simp only [LinkedList.setNext, hklive, if_true, Exec.ok_bind]
    refine ⟨_, head, rfl, ⟨⟨last₁, Seg.append.2 ⟨some k, (links item).next, ?_, ?_⟩⟩, hn⟩, fun p hp => ?_, ?_⟩
    · refine hs₁'.setNext (by simp) fun q hq => ?_
      have hqk : q ≠ k := by rintro rfl; exact hkks hq
      simp [hqk]
    · refine hs₂'.congr fun q hq => ?_
      have hqk : q ≠ k := by rintro rfl; exact hk₂ hq
      simp [hqk]
    · rw [Function.update_of_ne fun hpk => hp (by simp [hpk])]
      exact hout p fun h => hp (by simp [h])
    · have hitem' : Function.update links₁ k { links₁ k with next := (links item).next } item = links item := by
        rw [Function.update_of_ne hki.symm, hitem]
      refine ⟨fun n hn' => ?_, fun p hp => ?_, ?_⟩ <;> rw [hitem'] at *
      · obtain ⟨hl, hp⟩ := hnx n hn'
        refine ⟨hl, ?_⟩
        by_cases hnk : n = k
        · subst hnk; simpa [hk] using hp
        · rw [Function.update_of_ne hnk, hp, hk]
      · rw [hk] at hp
        obtain rfl : k = p := by simpa using hp
        simp [hklive]
      · simp [hk]

/-- A removal leaves the links of the item itself as they are. -/
theorem remove_item {head' : Option N} (h : LinkedList.remove live links head item = .ok (links', head'))
    (hn : (links item).next ≠ some item) (hp : (links item).prev ≠ some item) : links' item = links item := by
  have hset : ∀ (m : N → Links N) (o v : Option N) (m' : N → Links N), o ≠ some item →
      LinkedList.setPrev live m o v = .ok m' → m' item = m item := by
    intro m o v m' ho hm
    cases o with
    | none => cases hm; rfl
    | some q =>
      simp only [LinkedList.setPrev] at hm
      split at hm
      · cases hm
        exact Function.update_of_ne (fun h => ho (by rw [h])) _ _
      · cases hm
  obtain ⟨links₁, hset₁, h⟩ := Exec.bind_eq_ok.1 h
  have h₁ := hset links _ _ links₁ hn hset₁
  rw [h₁] at h
  cases hpe : (links item).prev with
  | none =>
    simp only [hpe] at h
    cases h
    exact h₁
  | some q =>
    simp only [hpe, LinkedList.setNext] at h
    split at h
    · cases h
      have hqi : item ≠ q := fun h => hp (by rw [hpe, h])
      rw [Function.update_of_ne hqi]
      exact h₁
    · cases h

/-- Removing an item whose links are right does nothing when it is out of the list already. -/
theorem remove_detached (h : Detached live links head item) :
    LinkedList.remove live links head item = .ok (links, head) := by
  have hprev : LinkedList.setPrev live links (links item).next (links item).prev = .ok links := by
    cases hn : (links item).next with
    | none => rfl
    | some n =>
      obtain ⟨hl, hp⟩ := h.next n hn
      simp [LinkedList.setPrev, hl, ← hp]
  unfold LinkedList.remove
  rw [hprev, Exec.ok_bind]
  cases hp : (links item).prev with
  | none => simp [h.first hp]
  | some p =>
    obtain ⟨hl, hn⟩ := h.prev p hp
    simp [LinkedList.setNext, hl, ← hn]

end LinkedList

end Nas
