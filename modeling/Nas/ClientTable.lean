import Nas.Clients
import Mathlib.Order.Bounds.Basic

/-!
# The client table

`NextAvailableClient` and `CloseDownClient` of `dispatch.c` once more, now with the pointers of `clients`
and the memory that they point to. `Consistent` is what the three variables of the table are to say about
each other. A call that fails after it has allocated the client leaves a pointer to freed memory in the
table; `consistent_iff` is that nothing else goes wrong.
-/

namespace Nas.ClientTable
open Clients (Client CloseDownMode Slot maxClients lowerMax raiseFree lt_lowerMax raiseFree_spec)

structure ClientRec extends Client where
  index : Nat
deriving DecidableEq, Repr

/-- The table, and the clients that are allocated, by their addresses. The server's own client is the first
one of the table. -/
structure Table where
  clients : Nat → Option Nat := Function.update (fun _ => none) 0 (some 0)
  memory : Nat → Option ClientRec := Function.update (fun _ => none) 0 (some { index := 0 })
  currentMaxClients : Nat := 1
  nextFreeClientID : Nat := 1

/-- Where `NextAvailableClient` has no memory: for the client, for its resources, for its first request. -/
inductive Failure where
  | client
  | resources
  | request
deriving DecidableEq, Repr

namespace Table
variable (t : Table)

/-- What is found behind the pointers of the table. -/
def slot (i : Nat) : Slot :=
  match t.clients i with
  | none => .null
  | some p =>
    match t.memory p with
    | none => .freed
    | some r => .client r.toClient

/-- `clients[i] = client = xalloc(sizeof(ClientRec))` and `InitClient` -/
def initClient (i p : Nat) : Table :=
  { t with clients := Function.update t.clients i (some p), memory := Function.update t.memory p (some { index := i }) }

/-- `xfree` -/
def free (p : Nat) : Table := { t with memory := Function.update t.memory p none }

end Table

/-- `NextAvailableClient`, with what it returns. The allocator returns `p`, as far as nothing fails. -/
def nextAvailableClient (failure : Option Failure) (p : Nat) (t : Table) : Option Nat × Table :=
  let i := t.nextFreeClientID
  if i = maxClients then (none, t)
  else
    match failure with
    | some .client => (none, { t with clients := Function.update t.clients i none })
    | some .resources => (none, (t.initClient i p).free p)
    | some .request => (none, (t.initClient i p).free p)
    | none =>
      let t := t.initClient i p
      (some p, { t with
        currentMaxClients := if i = t.currentMaxClients then t.currentMaxClients + 1 else t.currentMaxClients
        nextFreeClientID := raiseFree t.slot (maxClients - i) i })

/-- The client `r` at `p` goes with its resources. -/
def removeClient (p : Nat) (r : ClientRec) (t : Table) : Table :=
  let t := { t with
    nextFreeClientID := if r.index < t.nextFreeClientID then r.index else t.nextFreeClientID
    clients := Function.update t.clients r.index none }
  t.free p

/-- `while (!clients[currentMaxClients - 1]) currentMaxClients--;` -/
def lowerCurrentMax (t : Table) : Table :=
  { t with currentMaxClients := lowerMax t.slot t.currentMaxClients }

/-- `CloseDownClient` -/
def closeDownClient (p : Nat) (t : Table) : Exec Table := do
  let r ← Exec.deref (t.memory p)
  let t :=
    if ¬ r.clientGone then
      let gone := { r with clientGone := true }
      if r.closeDownMode = .destroy then removeClient p gone t
      else { t with memory := Function.update t.memory p (some gone) }
    else removeClient p r t
  .ok (lowerCurrentMax t)

/-- `ProcAuSetCloseDownMode` -/
def setCloseDownMode (p : Nat) (mode : CloseDownMode) (t : Table) : Exec Table := do
  let r ← Exec.deref (t.memory p)
  .ok { t with memory := Function.update t.memory p (some { r with closeDownMode := mode }) }

inductive Op where
  | next (failure : Option Failure) (p : Nat)
  | close (i : Nat)
  | setMode (i : Nat) (mode : CloseDownMode)
deriving DecidableEq, Repr

def step (t : Table) : Op → Exec Table
  | .next failure p => .ok (nextAvailableClient failure p t).2
  | .close i => do closeDownClient (← Exec.deref (t.clients i)) t
  | .setMode i mode => do setCloseDownMode (← Exec.deref (t.clients i)) mode t

/-- The allocator returns memory that is not in use, and a client that is closed is one of the table, but not
the server's own. -/
def Given (t : Table) : Op → Prop
  | .next _ p => t.memory p = none
  | .close i => 1 ≤ i ∧ t.clients i ≠ none
  | .setMode i _ => 1 ≤ i ∧ t.clients i ≠ none

/-- Nothing fails once the client is allocated. -/
def AllocatedIsKept (t : Table) : Op → Prop
  | .next failure _ => t.nextFreeClientID < maxClients → failure = none ∨ failure = some .client
  | _ => True

/-- A `NextAvailableClient` that returns no client leaves the table as it was. -/
def NullKeeps (t : Table) : Op → Prop
  | .next failure p => (nextAvailableClient failure p t).1 = none →
      (nextAvailableClient failure p t).2.clients = t.clients ∧
        (nextAvailableClient failure p t).2.nextFreeClientID = t.nextFreeClientID ∧
        (nextAvailableClient failure p t).2.currentMaxClients = t.currentMaxClients
  | _ => True

instance (t : Table) : (r : Op) → Decidable (Given t r)
  | .next _ p => inferInstanceAs (Decidable (t.memory p = none))
  | .close i => inferInstanceAs (Decidable (1 ≤ i ∧ t.clients i ≠ none))
  | .setMode i _ => inferInstanceAs (Decidable (1 ≤ i ∧ t.clients i ≠ none))

instance (t : Table) : (r : Op) → Decidable (AllocatedIsKept t r)
  | .next failure _ =>
    inferInstanceAs (Decidable (t.nextFreeClientID < maxClients → failure = none ∨ failure = some .client))
  | .close _ => .isTrue trivial
  | .setMode _ _ => .isTrue trivial

/-- What the variables of the table say of each other. A table that is full has `maxClients` for its first
free place. -/
structure Consistent (t : Table) : Prop where
  points : ∀ i p, 1 ≤ i → t.clients i = some p → ∃ r, t.memory p = some r ∧ r.index = i
  free : IsLeast {i | 1 ≤ i ∧ (i < maxClients → t.clients i = none)} t.nextFreeClientID
  max : ∃ m, IsGreatest {i | t.clients i ≠ none} m ∧ t.currentMaxClients = m + 1

/-- A consistent table with the server's client, inside its array. -/
structure TableOk (t : Table) : Prop extends Consistent t where
  server : ∃ p r, t.clients 0 = some p ∧ t.memory p = some r ∧ r.index = 0
  inside : ∀ i, t.clients i ≠ none → i < maxClients

theorem slot_used (t : Table) (i : Nat) : (t.slot i).used = (t.clients i).isSome := by
  rw [Table.slot]
  rcases t.clients i with _ | p
  · rfl
  · dsimp only
    rcases t.memory p with _ | r <;> rfl

theorem used_iff {t : Table} {i : Nat} : (t.slot i).used = true ↔ t.clients i ≠ none := by
  rw [slot_used, Option.isSome_iff_ne_none]

/-- The last place below the bound is used. -/
theorem lowerMax_used {clients : Nat → Slot} {n : Nat} (h : 0 < lowerMax clients n) :
    (clients (lowerMax clients n - 1)).used = true := by
  induction n with
  | zero => cases h
  | succ n ih =>
    rw [lowerMax] at h ⊢
    split
    · assumption
    · rename_i hn
      rw [if_neg hn] at h
      exact ih h

variable {t t' : Table} {i j p : Nat} {r : ClientRec}

/-- The search from above finds the last client. -/
theorem lowerCurrentMax_max (h₀ : t.clients 0 ≠ none) (hle : ∀ i, t.clients i ≠ none → i < t.currentMaxClients) :
    ∃ m, IsGreatest {i | (lowerCurrentMax t).clients i ≠ none} m ∧ (lowerCurrentMax t).currentMaxClients = m + 1 := by
  have hlt : ∀ i, t.clients i ≠ none → i < lowerMax t.slot t.currentMaxClients := fun i hi =>
    lt_lowerMax (used_iff.2 hi) (hle i hi)
  have hpos := Nat.lt_of_le_of_lt (Nat.zero_le 0) (hlt 0 h₀)
  refine ⟨lowerMax t.slot t.currentMaxClients - 1, ⟨used_iff.1 (lowerMax_used hpos), fun i hi => ?_⟩, ?_⟩
  · have := hlt i hi
    omega
  · show lowerMax t.slot t.currentMaxClients = _
    omega

namespace TableOk

theorem pointed (h : TableOk t) (hp : t.clients i = some p) : ∃ r, t.memory p = some r ∧ r.index = i := by
  rcases Nat.eq_zero_or_pos i with rfl | hi
  · obtain ⟨q, r, hq, hr, hindex⟩ := h.server
    rw [hp, Option.some_inj] at hq
    subst hq
    exact ⟨r, hr, hindex⟩
  · exact h.points i p hi hp

/-- No client is in two places. -/
theorem injective (h : TableOk t) (hi : t.clients i = some p) (hj : t.clients j = some p) : i = j := by
  obtain ⟨r, hr, hri⟩ := h.pointed hi
  obtain ⟨r', hr', hrj⟩ := h.pointed hj
  rw [hr, Option.some_inj] at hr'
  subst hr'
  exact hri.symm.trans hrj

theorem below (h : TableOk t) (hi : t.clients i ≠ none) : i < t.currentMaxClients := by
  obtain ⟨m, hm, hmax⟩ := h.max
  have := hm.2 hi
  omega

/-- The first free place is at most the one behind the last client. -/
theorem free_le (h : TableOk t) : t.nextFreeClientID ≤ t.currentMaxClients := by
  obtain ⟨m, hm, hmax⟩ := h.max
  rw [hmax]
  refine h.free.2 ⟨by omega, fun _ => ?_⟩
  by_contra hne
  exact absurd (hm.2 hne) (by omega)

/-- A client changes, and keeps its index. -/
theorem setMemory (h : TableOk t) (hr : t.memory p = some r) {r' : ClientRec} (hindex : r'.index = r.index) :
    TableOk { t with memory := Function.update t.memory p (some r') } := by
  have hkeep : ∀ q i, (∃ r, t.memory q = some r ∧ r.index = i) →
      ∃ r, Function.update t.memory p (some r') q = some r ∧ r.index = i := by
    rintro q i ⟨r₁, hr₁, hi⟩
    by_cases hq : q = p
    · subst hq
      rw [hr, Option.some_inj] at hr₁
      subst hr₁
      exact ⟨r', Function.update_self .., hindex.trans hi⟩
    · exact ⟨r₁, by rw [Function.update_of_ne hq]; exact hr₁, hi⟩
  refine { points := fun i q hi hq => hkeep q i (h.points i q hi hq), free := h.free, max := h.max, server := ?_, inside := h.inside }
  obtain ⟨q, r₁, hq, hr₁, hi⟩ := h.server
  obtain ⟨r₂, hr₂, hi₂⟩ := hkeep q 0 ⟨r₁, hr₁, hi⟩
  exact ⟨q, r₂, hq, hr₂, hi₂⟩

/-- The client at `i` goes. -/
theorem remove (h : TableOk t) (hi : 1 ≤ i) (hp : t.clients i = some p) (hindex : r.index = i) :
    TableOk (lowerCurrentMax (removeClient p r t)) := by
  subst hindex
  have hclients : ∀ j, (removeClient p r t).clients j = if j = r.index then none else t.clients j := fun j =>
    Function.update_apply ..
  have hused : ∀ j, (removeClient p r t).clients j ≠ none → j ≠ r.index ∧ t.clients j ≠ none := by
    intro j hj
    rw [hclients] at hj
    split at hj
    · exact absurd rfl hj
    · exact ⟨by assumption, hj⟩
  have hother : ∀ j q, j ≠ r.index → t.clients j = some q → (removeClient p r t).memory q = t.memory q := by
    intro j q hj hq
    refine Function.update_of_ne (fun he => ?_) ..
    subst he
    exact hj (h.injective hq hp)
  have hzero : (removeClient p r t).clients 0 = t.clients 0 := by
    rw [hclients, if_neg (by omega)]
  obtain ⟨q, r₀, hq, hr₀, h₀⟩ := h.server
  refine { points := ?_, free := ?_, max := ?_, server := ?_, inside := ?_ }
  · intro j q hj hq
    have hj' := hused j (by rw [show (removeClient p r t).clients j = some q from hq]; simp)
    rw [show (lowerCurrentMax (removeClient p r t)).clients j = if j = r.index then none else t.clients j from hclients j,
      if_neg hj'.1] at hq
    obtain ⟨r', hr', hi'⟩ := h.points j q hj hq
    exact ⟨r', (hother j q hj'.1 hq).trans hr', hi'⟩
  · show IsLeast {i | 1 ≤ i ∧ (i < maxClients → (removeClient p r t).clients i = none)}
      (if r.index < t.nextFreeClientID then r.index else t.nextFreeClientID)
    constructor
    · split
      · exact ⟨hi, fun _ => by rw [hclients, if_pos rfl]⟩
      · refine ⟨h.free.1.1, fun hlt => ?_⟩
        rw [hclients]
        split
        · rfl
        · exact h.free.1.2 hlt
    · rintro j ⟨hj, hnone⟩
      by_cases hji : j = r.index
      · split <;> omega
      · have := h.free.2 ⟨hj, fun hlt => by rw [← hnone hlt, hclients, if_neg hji]⟩
        split <;> omega
  · refine lowerCurrentMax_max (by rw [hzero, hq]; simp) fun j hj => h.below (hused j hj).2
  · exact ⟨q, r₀, hzero.trans hq, (hother 0 q (by omega) hq).trans hr₀, h₀⟩
  · exact fun j hj => h.inside j (hused j hj).2

/-- A new client is entered in the first free place. -/
theorem next (h : TableOk t) (hlt : t.nextFreeClientID < maxClients) (hp : t.memory p = none) :
    TableOk (nextAvailableClient none p t).2 := by
  have hne : t.nextFreeClientID ≠ maxClients := Nat.ne_of_lt hlt
  have hfree : t.clients t.nextFreeClientID = none := h.free.1.2 hlt
  rw [nextAvailableClient, if_neg hne]
  dsimp only
  have hclients : ∀ j, (t.initClient t.nextFreeClientID p).clients j =
      if j = t.nextFreeClientID then some p else t.clients j := fun j => Function.update_apply ..
  -- what was in use is not the new memory
  have hmemory : ∀ q r, t.memory q = some r → (t.initClient t.nextFreeClientID p).memory q = some r := by
    intro q r hr
    refine (Function.update_of_ne (fun he => ?_) ..).trans hr
    subst he
    rw [hp] at hr
    cases hr
  have hpos : 1 ≤ t.nextFreeClientID := h.free.1.1
  obtain ⟨hge, hle, hall, hend⟩ := raiseFree_spec (t.initClient t.nextFreeClientID p).slot (maxClients - t.nextFreeClientID)
    t.nextFreeClientID
  refine { points := ?_, free := ⟨⟨hpos.trans hge, fun hlt' => ?_⟩, ?_⟩, max := ?_, server := ?_, inside := ?_ }
  · intro j q hj hq
    rw [show (t.initClient t.nextFreeClientID p).clients j = _ from hclients j] at hq
    split at hq
    · rename_i he
      cases hq
      exact ⟨{ index := t.nextFreeClientID }, Function.update_self .., he.symm⟩
    · obtain ⟨r, hr, hi⟩ := h.points j q hj hq
      exact ⟨r, hmemory q r hr, hi⟩
  · replace hlt' : raiseFree (t.initClient t.nextFreeClientID p).slot (maxClients - t.nextFreeClientID)
      t.nextFreeClientID < maxClients := hlt'
    have hu := hend (by omega)
    rw [slot_used] at hu
    exact Option.not_isSome_iff_eq_none.1 (by rw [hu]; simp)
  · rintro j ⟨hj, hnone⟩
    by_contra hlt'
    replace hlt' : j < raiseFree (t.initClient t.nextFreeClientID p).slot (maxClients - t.nextFreeClientID)
      t.nextFreeClientID := Nat.not_le.1 hlt'
    have hjmax : j < maxClients := by omega
    have hused : (t.initClient t.nextFreeClientID p).clients j ≠ none := by
      rcases Nat.lt_or_ge j t.nextFreeClientID with hlow | hhigh
      · rw [hclients, if_neg (Nat.ne_of_lt hlow)]
        exact fun hno => absurd (h.free.2 ⟨hj, fun _ => hno⟩) (by omega)
      · exact used_iff.1 (hall j hhigh hlt')
    exact hused (hnone hjmax)
  · obtain ⟨m, hm, hmax⟩ := h.max
    have hle := h.free_le
    by_cases hlast : t.nextFreeClientID = t.currentMaxClients
    · refine ⟨t.nextFreeClientID, ⟨by rw [Set.mem_ofPred_eq, hclients, if_pos rfl]; simp, fun j hj => ?_⟩, ?_⟩
      · rw [Set.mem_ofPred_eq, hclients] at hj
        split at hj
        · omega
        · have := h.below hj
          omega
      · show (if t.nextFreeClientID = t.currentMaxClients then t.currentMaxClients + 1 else t.currentMaxClients) = _
        rw [if_pos hlast, hlast]
    · refine ⟨m, ⟨?_, fun j hj => ?_⟩, ?_⟩
      · rw [Set.mem_ofPred_eq, hclients]
        split
        · simp
        · exact hm.1
      · rw [Set.mem_ofPred_eq, hclients] at hj
        split at hj
        · omega
        · exact hm.2 hj
      · show (if t.nextFreeClientID = t.currentMaxClients then t.currentMaxClients + 1 else t.currentMaxClients) = _
        rw [if_neg hlast, hmax]
  · obtain ⟨q, r₀, hq, hr₀, h₀⟩ := h.server
    exact ⟨q, r₀, by rw [hclients, if_neg (by omega)]; exact hq, hmemory q r₀ hr₀, h₀⟩
  · intro j hj
    rw [hclients] at hj
    split at hj
    · omega
    · exact h.inside j hj

end TableOk

/-- Of a call that fails later than at the client, the table keeps a pointer to freed memory. -/
theorem next_dangling (h : TableOk t) {failure : Failure} (hf : failure ≠ .client) (hlt : t.nextFreeClientID < maxClients) :
    ¬ Consistent (nextAvailableClient (some failure) p t).2 := by
  intro hc
  have hne : t.nextFreeClientID ≠ maxClients := Nat.ne_of_lt hlt
  have heq : (nextAvailableClient (some failure) p t).2 = (t.initClient t.nextFreeClientID p).free p := by
    unfold nextAvailableClient
    rw [if_neg hne]
    rcases failure with _ | _ | _
    · exact absurd rfl hf
    · rfl
    · rfl
  rw [heq] at hc
  obtain ⟨r, hr, -⟩ := hc.points t.nextFreeClientID p h.free.1.1 (Function.update_self ..)
  rw [show ((t.initClient t.nextFreeClientID p).free p).memory p = none from Function.update_self ..] at hr
  cases hr

/-- Without memory for the client nothing happens. -/
theorem next_noClient (h : TableOk t) : (nextAvailableClient (some .client) p t).2 = t := by
  rw [nextAvailableClient]
  split
  · rfl
  · rename_i hne
    have hfree : t.clients t.nextFreeClientID = none := by
      by_cases hlt : t.nextFreeClientID < maxClients
      · exact h.free.1.2 hlt
      · by_contra hused
        exact hlt (h.inside _ hused)
    show { t with clients := Function.update t.clients t.nextFreeClientID none } = t
    rw [← hfree, Function.update_eq_self]

theorem next_full (failure : Option Failure) (p : Nat) (h : ¬ t.nextFreeClientID < maxClients) (hok : TableOk t) :
    nextAvailableClient failure p t = (none, t) := by
  have hle : t.nextFreeClientID ≤ maxClients := hok.free.2 ⟨by decide, fun hlt => absurd hlt (lt_irrefl _)⟩
  unfold nextAvailableClient
  rw [if_pos (by omega)]

/-- One step. -/
theorem step_ok (h : TableOk t) (r : Op) (hgiven : Given t r) (hkept : AllocatedIsKept t r) (he : step t r = .ok t') :
    TableOk t' := by
  rcases r with ⟨failure, p⟩ | i | ⟨i, mode⟩
  · have he : (nextAvailableClient failure p t).2 = t' := Except.ok.inj he
    subst he
    by_cases hlt : t.nextFreeClientID < maxClients
    · rcases hkept hlt with rfl | rfl
      · exact h.next hlt hgiven
      · rw [next_noClient h]
        exact h
    · rw [next_full failure p hlt h]
      exact h
  · obtain ⟨hi, -⟩ := hgiven
    obtain ⟨p, hp, he⟩ := Exec.bind_eq_ok.1 he
    rw [Exec.deref_eq_ok] at hp
    obtain ⟨r, hr, he⟩ := Exec.bind_eq_ok.1 he
    rw [Exec.deref_eq_ok] at hr
    obtain ⟨r₁, hr₁, hindex⟩ := h.pointed hp
    rw [hr, Option.some_inj] at hr₁
    subst hr₁
    have he := Except.ok.inj he
    subst he
    split
    · split
      · exact h.remove hi hp hindex
      · have hset := h.setMemory hr (show ({ r with clientGone := true } : ClientRec).index = r.index from rfl)
        obtain ⟨q, r₀, hq, -⟩ := hset.server
        exact { hset with max := lowerCurrentMax_max (by rw [hq]; simp) fun j hj => hset.below hj }
    · exact h.remove hi hp hindex
  · obtain ⟨p, hp, he⟩ := Exec.bind_eq_ok.1 he
    obtain ⟨r, hr, he⟩ := Exec.bind_eq_ok.1 he
    rw [Exec.deref_eq_ok] at hr
    have he := Except.ok.inj he
    subst he
    exact h.setMemory hr rfl

theorem step_nullKeeps (h : TableOk t) (r : Op) (hkept : AllocatedIsKept t r) : NullKeeps t r := by
  rcases r with ⟨failure, p⟩ | i | ⟨i, mode⟩
  · intro hnull
    by_cases hlt : t.nextFreeClientID < maxClients
    · rcases hkept hlt with rfl | rfl
      · rw [nextAvailableClient, if_neg (Nat.ne_of_lt hlt)] at hnull
        cases hnull
      · rw [next_noClient h]
        exact ⟨rfl, rfl, rfl⟩
    · rw [next_full failure p hlt h]
      exact ⟨rfl, rfl, rfl⟩
  · trivial
  · trivial

theorem tableOk_init : TableOk {} := by
  have hnone : ∀ i, i ≠ 0 → ({} : Table).clients i = none := fun i hi => by
    show Function.update (fun _ => none) 0 (some 0) i = none
    rw [Function.update_of_ne hi]
  refine { points := ?_, free := ⟨⟨le_rfl, fun _ => rfl⟩, fun i hi => hi.1⟩, max := ?_,
           server := ⟨0, { index := 0 }, rfl, rfl, rfl⟩, inside := ?_ }
  · intro i p hi hp
    rw [hnone i (by omega)] at hp
    cases hp
  · refine ⟨0, ⟨Option.some_ne_none 0, fun i hi => ?_⟩, rfl⟩
    by_contra hlt
    exact hi (hnone i (by omega))
  · intro i hi
    by_contra hge
    refine hi (hnone i fun h => hge ?_)
    rw [h]
    decide

/-- The table is consistent throughout a run, and a call that returns no client leaves it as it was, exactly
if no call fails for the resources or the first request of a client that it has allocated. -/
theorem consistent_iff (l : List Op) (h : Each step Given l {}) :
    (Always step Consistent l {} ∧ Each step NullKeeps l {}) ↔ Each step AllocatedIsKept l {} := by
  have hbad : ∀ t r, TableOk t → Given t r → ¬ AllocatedIsKept t r → ∃ t', step t r = .ok t' ∧ ¬ Consistent t' := by
    intro t r ht _ hnot
    rcases r with ⟨failure, p⟩ | i | ⟨i, mode⟩
    · obtain ⟨hlt, hf⟩ := Classical.not_imp.1 hnot
      rcases failure with _ | f
      · exact absurd (.inl rfl) hf
      · exact ⟨_, rfl, next_dangling ht (fun hc => hf (.inr (congrArg some hc))) hlt⟩
    · exact absurd trivial hnot
    · exact absurd trivial hnot
  have halways := always_iff_each (fun t ht => TableOk.toConsistent ht) (fun t r t' ht hg hk he => step_ok ht r hg hk he)
    hbad tableOk_init h
  refine ⟨fun hc => halways.1 hc.1, fun hk => ⟨halways.2 hk, ?_⟩⟩
  exact Each.of_inv (I := TableOk) (fun t r t' ht hg hk he => step_ok ht r hg hk he)
    (fun t r ht _ hk => step_nullKeeps ht r hk) tableOk_init h hk

/-- Two clients come, the first one of them goes, and there is no memory for another one. -/
def comeAndGo : List Op := [.next none 1, .next none 2, .close 1, .next (some .client) 3, .next none 1]

theorem comeAndGo_consistent : Always step Consistent comeAndGo {} ∧ Each step NullKeeps comeAndGo {} :=
  (consistent_iff comeAndGo (by decide)).2 (by decide)

/-- There is no memory for the resources of the first client. -/
theorem noResources_dangling :
    Each step Given [.next (some .resources) 1] {} ∧ ¬ Always step Consistent [.next (some .resources) 1] {} :=
  ⟨by decide, fun h => next_dangling tableOk_init (by simp) (by decide) (h.2 _ rfl)⟩

end Nas.ClientTable
