import Nas.LinkedList

/-!
# Records on loan

A `Pool` keeps records that are given to holders and taken back. The ones nobody holds are on a free
list, linked through the records, from which `take` serves a holder before it allocates. `Sound P` says
that each record has one place: it is held by one holder, or it is once on the free list, and then it is
a record as `P` says.
-/

namespace Nas

structure Pool (H α : Type) where
  recs : Heap α := .empty
  /-- The links of the free list. -/
  next : Nat → Option Nat := fun _ => none
  free : Option Nat := none
  held : H → Option Nat := fun _ => none

namespace Pool
variable {H α : Type}

section Operations
variable (pool : Pool H α) (h : H)

/-- What a holder has. -/
def record : Option α := (pool.held h).bind pool.recs.get

def modify (f : α → α) : Pool H α :=
  match pool.held h with
  | some p => { pool with recs := pool.recs.modify p f }
  | none => pool

variable [DecidableEq H]

/-- The first record of the free list goes to a holder. -/
def lend (p : Nat) : Pool H α :=
  { pool with free := pool.next p, held := Function.update pool.held h (some p) }

def alloc (new : α) : Pool H α :=
  { pool with recs := pool.recs.alloc new, held := Function.update pool.held h (some pool.recs.next) }

def giveBack (p : Nat) : Pool H α :=
  { pool with
    next := Function.update pool.next p pool.free, free := some p
    held := Function.update pool.held h none }

def dispose (p : Nat) : Pool H α :=
  { pool with recs := pool.recs.free p, held := Function.update pool.held h none }

/-- A record for a holder that has none: from the free list, or else a new one. -/
def take (mem : Bool) (new : α) : Exec (Option (Pool H α)) :=
  match pool.free with
  | some p => do
    let _ ← Exec.deref (pool.recs.get p)
    .ok (some (pool.lend h p))
  | none => if mem then .ok (some (pool.alloc h new)) else .ok none

/-- A holder's record goes to the front of the free list. -/
def give : Exec (Pool H α) := do
  let p ← Exec.deref (pool.held h)
  .ok (pool.giveBack h p)

/-- A holder's record is freed. -/
def drop : Exec (Pool H α) := do
  let p ← Exec.deref (pool.held h)
  .ok (pool.dispose h p)

end Operations

/-- The links lead from `free` through `l`. -/
def FreeList (next : Nat → Option Nat) : Option Nat → List Nat → Prop
  | free, [] => free = none
  | free, p :: ps => free = some p ∧ FreeList next (next p) ps

theorem FreeList.congr {next next' : Nat → Option Nat} {free : Option Nat} {l : List Nat}
    (h : FreeList next free l) (hn : ∀ p ∈ l, next' p = next p) : FreeList next' free l := by
  induction l generalizing free with
  | nil => exact h
  | cons p ps ih =>
    obtain ⟨hf, h⟩ := h
    refine ⟨hf, ?_⟩
    rw [hn p (.head _)]
    exact ih h fun q hq => hn q (.tail _ hq)

structure Sound (P : α → Prop) (pool : Pool H α) : Prop where
  live : ∀ h p, pool.held h = some p → ∃ a, pool.recs.get p = some a
  single : ∀ h h' p, pool.held h = some p → pool.held h' = some p → h = h'
  free : ∃ l, FreeList pool.next pool.free l ∧ l.Nodup ∧
    ∀ p ∈ l, (∃ a, pool.recs.get p = some a ∧ P a) ∧ ∀ h, pool.held h ≠ some p

variable {pool pool' : Pool H α} {P : α → Prop} {h h' : H} {p : Nat} {a new : α} {f : α → α}

section
variable [DecidableEq H]

theorem lend_held : (pool.lend h p).held h' = if h' = h then some p else pool.held h' :=
  Function.update_apply ..

theorem take_eq_none {mem : Bool} : pool.take h mem new = .ok none ↔ pool.free = none ∧ mem = false := by
  unfold take
  cases hf : pool.free with
  | some p =>
    dsimp only
    cases pool.recs.get p with
    | none => simp [Exec.deref]
    | some a => simp
  | none => cases mem <;> simp

theorem alloc_held : (pool.alloc h new).held h' = if h' = h then some pool.recs.next else pool.held h' :=
  Function.update_apply ..

theorem giveBack_held (h' : H) : (pool.giveBack h p).held h' = if h' = h then none else pool.held h' :=
  Function.update_apply ..

theorem dispose_held (h' : H) : (pool.dispose h p).held h' = if h' = h then none else pool.held h' :=
  Function.update_apply ..

end

theorem modify_held : (pool.modify h f).held = pool.held := by
  unfold Pool.modify
  split <;> rfl

theorem sound_empty : Sound P ({} : Pool H α) where
  live _ _ h := by cases h
  single _ _ _ h := by cases h
  free := ⟨[], rfl, List.nodup_nil, by simp⟩

theorem record_eq_some : pool.record h = some a ↔ ∃ p, pool.held h = some p ∧ pool.recs.get p = some a :=
  Option.bind_eq_some_iff

theorem record_none (hh : pool.held h = none) : pool.record h = none := by simp [record, hh]

namespace Sound

theorem record (hs : Sound P pool) (hh : pool.held h = some p) : ∃ a, pool.record h = some a := by
  obtain ⟨a, ha⟩ := hs.live h p hh
  exact ⟨a, record_eq_some.2 ⟨p, hh, ha⟩⟩

theorem modify (hs : Sound P pool) : Sound P (pool.modify h f) := by
  unfold Pool.modify
  cases hh : pool.held h with
  | none => exact hs
  | some q =>
    refine ⟨fun h' p hp => ?_, hs.single, ?_⟩
    · obtain ⟨a, ha⟩ := hs.live h' p hp
      dsimp only
      rw [Heap.get_modify, ha]
      split
      · exact ⟨_, rfl⟩
      · exact ⟨_, rfl⟩
    · obtain ⟨l, hl, hn, hfree⟩ := hs.free
      refine ⟨l, hl, hn, fun p hp => ⟨?_, (hfree p hp).2⟩⟩
      have hpq : p ≠ q := by rintro rfl; exact (hfree p hp).2 h hh
      dsimp only
      rw [Heap.get_modify, if_neg hpq]
      exact (hfree p hp).1

theorem ne_next (hs : Sound P pool) (hh : pool.held h = some p) : p ≠ pool.recs.next := by
  obtain ⟨a, ha⟩ := hs.live h p hh
  exact Nat.ne_of_lt (Heap.lt_next ha)

variable [DecidableEq H]

theorem record_modify (hs : Sound P pool) :
    (pool.modify h f).record h' = if h' = h then (pool.record h).map f else pool.record h' := by
  unfold Pool.modify
  cases hh : pool.held h with
  | none =>
    dsimp only
    split
    · subst h'; simp [Pool.record, hh]
    · rfl
  | some q =>
    unfold Pool.record
    dsimp only
    split
    · subst h'; simp [hh]
    · cases hh' : pool.held h' with
      | none => rfl
      | some p =>
        have hpq : p ≠ q := by rintro rfl; exact ‹¬ h' = h› (hs.single _ _ _ hh' hh)
        simp [Heap.get_modify, hpq]

theorem lend (hs : Sound P pool) (hf : pool.free = some p) :
    Sound P (pool.lend h p) ∧ ∃ a, (pool.lend h p).record h = some a ∧ P a := by
  obtain ⟨l, hl, hn, hfree⟩ := hs.free
  cases l with
  | nil => rw [hf] at hl; cases hl
  | cons q l =>
    rw [hf] at hl
    obtain ⟨hq, hl⟩ := hl
    cases hq
    obtain ⟨hpl, hn⟩ := List.nodup_cons.1 hn
    obtain ⟨⟨a, ha, hP⟩, hp⟩ := hfree p (.head _)
    refine ⟨⟨fun h' q hq => ?_, fun h₁ h₂ q h1 h2 => ?_, l, hl, hn, fun q hq => ?_⟩, a, ?_, hP⟩
    · rw [lend_held] at hq
      split at hq
      · cases hq; exact ⟨a, ha⟩
      · exact hs.live _ _ hq
    · rw [lend_held] at h1 h2
      split at h1 <;> split at h2
      · subst h₁; subst h₂; rfl
      · cases h1; exact absurd h2 (hp _)
      · cases h2; exact absurd h1 (hp _)
      · exact hs.single _ _ _ h1 h2
    · refine ⟨(hfree q (.tail _ hq)).1, fun h' => ?_⟩
      rw [lend_held]
      split
      · rintro ⟨⟩; exact hpl hq
      · exact (hfree q (.tail _ hq)).2 h'
    · exact record_eq_some.2 ⟨p, by simp [lend_held], ha⟩

theorem alloc (hs : Sound P pool) :
    Sound P (pool.alloc h new) ∧ (pool.alloc h new).record h = some new := by
  obtain ⟨l, hl, hn, hfree⟩ := hs.free
  refine ⟨⟨fun h' q hq => ?_, fun h₁ h₂ q h1 h2 => ?_, l, hl, hn, fun q hq => ?_⟩, ?_⟩
  · rw [alloc_held] at hq
    rw [Pool.alloc, Heap.get_alloc]
    split
    · exact ⟨_, rfl⟩
    · split at hq
      · cases hq; contradiction
      · exact hs.live _ _ hq
  · rw [alloc_held] at h1 h2
    split at h1 <;> split at h2
    · subst h₁; subst h₂; rfl
    · cases h1; exact absurd rfl (hs.ne_next h2)
    · cases h2; exact absurd rfl (hs.ne_next h1)
    · exact hs.single _ _ _ h1 h2
  · obtain ⟨⟨b, hb, hP⟩, hq'⟩ := hfree q hq
    have hqn : q ≠ pool.recs.next := Nat.ne_of_lt (Heap.lt_next hb)
    refine ⟨⟨b, by rw [Pool.alloc, Heap.get_alloc, if_neg hqn, hb], hP⟩, fun h' => ?_⟩
    rw [alloc_held]
    split
    · rintro ⟨⟩; exact hqn rfl
    · exact hq' h'
  · exact record_eq_some.2 ⟨pool.recs.next, by simp [alloc_held], by simp [Pool.alloc, Heap.get_alloc]⟩

theorem record_alloc (hs : Sound P pool) (hh : h' ≠ h) : (pool.alloc h new).record h' = pool.record h' := by
  unfold Pool.record
  rw [alloc_held, if_neg hh]
  cases hq : pool.held h' with
  | none => rfl
  | some q => simp [Pool.alloc, Heap.get_alloc, hs.ne_next hq]

/-- A holder without a record gets one off the free list or a new one, unless there is no memory. The
others keep theirs. -/
theorem take (hs : Sound P pool) (h : H) (mem : Bool) (new : α) :
    (mem = false ∧ pool.take h mem new = .ok none) ∨
      ∃ pool' a, pool.take h mem new = .ok (some pool') ∧ Sound P pool' ∧
        pool'.record h = some a ∧ (P a ∨ a = new) ∧
        ∀ h', h' ≠ h → pool'.record h' = pool.record h' ∧ pool'.held h' = pool.held h' := by
  unfold Pool.take
  cases hf : pool.free with
  | some p =>
    obtain ⟨hs', a, ha, hP⟩ := hs.lend (h := h) hf
    obtain ⟨q, hq, hqa⟩ := record_eq_some.1 ha
    rw [lend_held, if_pos rfl] at hq
    cases hq
    have hget : pool.recs.get p = some a := hqa
    refine .inr ⟨pool.lend h p, a, by simp [hget], hs', ha, .inl hP, fun h' hh' => ?_⟩
    have hheld : (pool.lend h p).held h' = pool.held h' := by rw [lend_held, if_neg hh']
    exact ⟨by rw [Pool.record, Pool.record, hheld]; rfl, hheld⟩
  | none =>
    cases mem with
    | false => exact .inl ⟨rfl, rfl⟩
    | true =>
      obtain ⟨hs', ha⟩ : Sound P (pool.alloc h new) ∧ (pool.alloc h new).record h = some new := hs.alloc
      exact .inr ⟨_, new, rfl, hs', ha, .inr rfl, fun h' hh' =>
        ⟨hs.record_alloc hh', by rw [alloc_held, if_neg hh']⟩⟩

/-- A holder loses its record, and the others keep theirs. -/
structure Lost (pool pool' : Pool H α) (h : H) : Prop where
  held : ∀ h', pool'.held h' = if h' = h then none else pool.held h'
  record : ∀ h', h' ≠ h → pool'.record h' = pool.record h'

theorem give (hs : Sound P pool) (ha : pool.record h = some a) (hP : P a) :
    ∃ pool', pool.give h = .ok pool' ∧ Sound P pool' ∧ Lost pool pool' h := by
  obtain ⟨p, hp, ha⟩ := record_eq_some.1 ha
  obtain ⟨l, hl, hn, hfree⟩ := hs.free
  have hpl : p ∉ l := fun hpl => (hfree p hpl).2 h hp
  refine ⟨pool.giveBack h p, by rw [Pool.give, hp, Exec.deref_some, Exec.ok_bind],
    ⟨fun h' q hq => ?_, fun h₁ h₂ q h1 h2 => ?_, p :: l, ⟨rfl, ?_⟩, List.nodup_cons.2 ⟨hpl, hn⟩, fun q hq => ?_⟩,
    giveBack_held, fun h' hh' => ?_⟩
  · rw [giveBack_held] at hq
    split at hq
    · cases hq
    · exact hs.live _ _ hq
  · rw [giveBack_held] at h1 h2
    split at h1
    · cases h1
    · split at h2
      · cases h2
      · exact hs.single _ _ _ h1 h2
  · have hnext : (pool.giveBack h p).next p = pool.free := by simp [Pool.giveBack]
    rw [hnext]
    refine hl.congr fun q hq => ?_
    have hqp : q ≠ p := by rintro rfl; exact hpl hq
    simp [Pool.giveBack, hqp]
  · refine ⟨?_, fun h' => ?_⟩
    · rcases List.mem_cons.1 hq with rfl | hq
      · exact ⟨a, ha, hP⟩
      · exact (hfree q hq).1
    · rw [giveBack_held]
      split
      · rintro ⟨⟩
      · intro hh'
        rcases List.mem_cons.1 hq with rfl | hq
        · exact ‹¬ h' = h› (hs.single _ _ _ hh' hp)
        · exact (hfree q hq).2 h' hh'
  · rw [Pool.record, Pool.record, giveBack_held, if_neg hh']
    rfl

theorem drop (hs : Sound P pool) (ha : pool.record h = some a) :
    ∃ pool', pool.drop h = .ok pool' ∧ Sound P pool' ∧ Lost pool pool' h := by
  obtain ⟨p, hp, ha⟩ := record_eq_some.1 ha
  obtain ⟨l, hl, hn, hfree⟩ := hs.free
  have hne : ∀ {h' q}, h' ≠ h → pool.held h' = some q → q ≠ p := fun hh' hq hqp => by
    subst hqp; exact hh' (hs.single _ _ _ hq hp)
  refine ⟨pool.dispose h p, by rw [Pool.drop, hp, Exec.deref_some, Exec.ok_bind],
    ⟨fun h' q hq => ?_, fun h₁ h₂ q h1 h2 => ?_, l, hl, hn, fun q hql => ?_⟩, dispose_held, fun h' hh' => ?_⟩
  · rw [dispose_held] at hq
    split at hq
    · cases hq
    · rw [Pool.dispose, Heap.get_free, if_neg (hne ‹_› hq)]
      exact hs.live _ _ hq
  · rw [dispose_held] at h1 h2
    split at h1
    · cases h1
    · split at h2
      · cases h2
      · exact hs.single _ _ _ h1 h2
  · have hqp : q ≠ p := by rintro rfl; exact (hfree q hql).2 h hp
    have hget : (pool.dispose h p).recs.get q = pool.recs.get q := by
      rw [Pool.dispose, Heap.get_free, if_neg hqp]
    refine ⟨hget ▸ (hfree q hql).1, fun h' => ?_⟩
    rw [dispose_held]
    split
    · rintro ⟨⟩
    · exact (hfree q hql).2 h'
  · rw [Pool.record, Pool.record, dispose_held, if_neg hh']
    cases hq : pool.held h' with
    | none => rfl
    | some q => simp [Pool.dispose, Heap.get_free, hne hh' hq]

end Sound

/-! ### No record is lost -/

theorem FreeList.unique {next : Nat → Option Nat} {free : Option Nat} {l l' : List Nat} (h : FreeList next free l)
    (h' : FreeList next free l') : l' = l := by
  induction l generalizing free l' with
  | nil =>
    rw [FreeList] at h
    cases l' with
    | nil => rfl
    | cons q l' => exact absurd (h.symm.trans h'.1) (by simp)
  | cons p l ih =>
    obtain ⟨hp, h⟩ := h
    cases l' with
    | nil => exact absurd (hp.symm.trans h') (by simp)
    | cons q l' =>
      obtain ⟨hq, h'⟩ := h'
      cases hp.symm.trans hq
      rw [ih h h']

/-- Every record has a holder or is on the free list. -/
def Placed (pool : Pool H α) : Prop :=
  ∀ p a, pool.recs.get p = some a →
    (∃ h, pool.held h = some p) ∨ ∃ l, FreeList pool.next pool.free l ∧ p ∈ l

theorem placed_empty : Placed ({} : Pool H α) := fun p a hp => by cases hp

namespace Placed

theorem modify (hp : pool.Placed) : (pool.modify h f).Placed := by
  unfold Pool.modify
  cases hh : pool.held h with
  | none => exact hp
  | some q =>
    intro p a ha
    have hget : (pool.recs.modify q f).get p = some a := ha
    rw [Heap.get_modify] at hget
    split at hget
    · obtain ⟨b, hb, -⟩ := Option.map_eq_some_iff.1 hget
      exact hp p b hb
    · exact hp p a hget

variable [DecidableEq H]

theorem take (hs : Sound P pool) (hp : pool.Placed) {mem : Bool} (hh : pool.held h = none)
    (he : pool.take h mem new = .ok (some pool')) : pool'.Placed := by
  unfold Pool.take at he
  cases hf : pool.free with
  | some p =>
    rw [hf] at he
    obtain ⟨_, -, he⟩ := Exec.bind_eq_ok.1 he
    cases he
    obtain ⟨l, hl, -, -⟩ := hs.free
    cases l with
    | nil => exact absurd (hf.symm.trans hl) (by simp)
    | cons q l =>
      have hlist := hl
      obtain ⟨hq, hl'⟩ := hl
      cases hf.symm.trans hq
      intro r a hr
      rcases hp r a hr with ⟨h', hr'⟩ | ⟨l', hl'', hr'⟩
      · have hne : h' ≠ h := by
          rintro rfl
          exact absurd (hh.symm.trans hr') (by simp)
        exact .inl ⟨h', by rw [lend_held, if_neg hne, hr']⟩
      · cases hlist.unique hl''
        rcases List.mem_cons.1 hr' with rfl | hr'
        · exact .inl ⟨h, by rw [lend_held, if_pos rfl]⟩
        · exact .inr ⟨l, hl', hr'⟩
  | none =>
    rw [hf] at he
    cases mem with
    | false => cases he
    | true =>
      cases he
      intro r a hr
      by_cases hn : r = pool.recs.next
      · exact .inl ⟨h, by rw [alloc_held, if_pos rfl, hn]⟩
      · have hr₀ : pool.recs.get r = some a := by
          rw [← hr]
          exact (by rw [Pool.alloc, Heap.get_alloc, if_neg hn])
        rcases hp r a hr₀ with ⟨h', hr'⟩ | hfree
        · have hne : h' ≠ h := by
            rintro rfl
            exact absurd (hh.symm.trans hr') (by simp)
          exact .inl ⟨h', by rw [alloc_held, if_neg hne, hr']⟩
        · exact .inr hfree

theorem give (hs : Sound P pool) (hp : pool.Placed) (he : pool.give h = .ok pool') : pool'.Placed := by
  unfold Pool.give at he
  obtain ⟨p, hh, he⟩ := Exec.bind_eq_ok.1 he
  rw [Exec.deref_eq_ok] at hh
  cases he
  obtain ⟨l, hl, -, hfree⟩ := hs.free
  have hpl : p ∉ l := fun hpl => (hfree p hpl).2 h hh
  have hlist : FreeList (pool.giveBack h p).next (pool.giveBack h p).free (p :: l) := by
    refine ⟨rfl, ?_⟩
    have hnext : (pool.giveBack h p).next p = pool.free := by simp [Pool.giveBack]
    rw [hnext]
    refine hl.congr fun q hq => ?_
    have hqp : q ≠ p := by rintro rfl; exact hpl hq
    simp [Pool.giveBack, hqp]
  intro r a hr
  rcases hp r a hr with ⟨h', hr'⟩ | ⟨l', hl', hr'⟩
  · by_cases hne : h' = h
    · rw [hne, hh] at hr'
      cases hr'
      exact .inr ⟨_, hlist, .head _⟩
    · exact .inl ⟨h', by rw [giveBack_held, if_neg hne, hr']⟩
  · cases hl.unique hl'
    exact .inr ⟨_, hlist, .tail _ hr'⟩

theorem drop (hp : pool.Placed) (he : pool.drop h = .ok pool') : pool'.Placed := by
  unfold Pool.drop at he
  obtain ⟨p, hh, he⟩ := Exec.bind_eq_ok.1 he
  rw [Exec.deref_eq_ok] at hh
  cases he
  intro r a hr
  rw [Pool.dispose, Heap.get_free] at hr
  split at hr
  · cases hr
  · rcases hp r a hr with ⟨h', hr'⟩ | hfree
    · have hne : h' ≠ h := by
        rintro rfl
        exact ‹¬ r = p› (Option.some.inj (hr'.symm.trans hh))
      exact .inl ⟨h', by rw [dispose_held, if_neg hne, hr']⟩
    · exact .inr hfree

end Placed

/-- Every record has one owner: a holder, or else the free list, where it is once and as `P` says. -/
def OwnedOnce (P : α → Prop) (pool : Pool H α) : Prop :=
  ∃ l, FreeList pool.next pool.free l ∧ l.Nodup ∧ ∀ p a, pool.recs.get p = some a →
    (p ∈ l ∧ P a ∧ ∀ h, pool.held h ≠ some p) ∨ (p ∉ l ∧ ∃! h, pool.held h = some p)

theorem Sound.ownedOnce (hs : Sound P pool) (hp : pool.Placed) : pool.OwnedOnce P := by
  obtain ⟨l, hl, hn, hfree⟩ := hs.free
  refine ⟨l, hl, hn, fun p a ha => ?_⟩
  rcases hp p a ha with ⟨h, hh⟩ | ⟨l', hl', hmem⟩
  · refine .inr ⟨fun hmem => (hfree p hmem).2 h hh, h, hh, fun h' hh' => hs.single h' h p hh' hh⟩
  · cases hl.unique hl'
    obtain ⟨⟨b, hb, hP⟩, hno⟩ := hfree p hmem
    cases hb.symm.trans ha
    exact .inl ⟨hmem, hP, hno⟩

end Pool

end Nas
