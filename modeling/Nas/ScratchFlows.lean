import Nas.Exec
import Mathlib.Data.List.Nodup
import Mathlib.Algebra.Group.Nat.Defs

/-!
# Scratch flows

`AuGetScratchFlow` and `AuReleaseScratchFlow` keep up to three flows of a connection for later use, with a mark for each
and a counter of those in use. Beside a connection stand the flows that are handed out and not yet released. Whether a
`CreateFlow` request succeeds is part of the call; the ids are those of `_AuAllocID`.
-/

namespace Nas.ScratchFlows

def AU_MAX_SCRATCH_FLOWS : Nat := 3

/-- The part of an `AuServer` that ids are made from, as the server sets it up: the mask leaves out the bits of the client. -/
structure IdSpace where
  base : Nat
  mask : Nat
  shift : Nat
  mask_lt : mask < 0x10000000
  shift_le : shift ≤ 28
  base_lt : base + mask < 2 ^ 32

structure ScratchFlow where
  flow : Nat
  inuse : Bool
deriving DecidableEq, Repr

/-- A connection. `scratchFlows` are the flows of the pool, of which there are `total`. -/
structure AuServer where
  ids : IdSpace
  resourceId : Nat := 0
  scratchFlows : List ScratchFlow := []
  numInuse : Int := 0

/-- The next id, without the client's bits. -/
def AuServer.nextId (aud : AuServer) : Nat := aud.resourceId <<< aud.ids.shift % 2 ^ 32

/-- `_AuAllocID` -/
def auAllocID (aud : AuServer) : Nat × AuServer :=
  if aud.nextId ≤ aud.ids.mask then
    ((aud.ids.base + aud.nextId) % 2 ^ 32, { aud with resourceId := (aud.resourceId + 1) % 2 ^ 32 })
  else if aud.nextId ≠ 0x10000000 then (0x10000000, { aud with resourceId := 0x10000000 >>> aud.ids.shift })
  else (0x10000000, aud)

/-- `AuCreateFlow`; `AuNone` is 0. -/
def auCreateFlow (created : Bool) (aud : AuServer) : Nat × AuServer :=
  let (flow, aud) := auAllocID aud
  (if created then flow else 0, aud)

/-- The first flow that is not in use is marked. -/
def takeFree : List ScratchFlow → Option (Nat × List ScratchFlow)
  | [] => none
  | e :: l =>
    if e.inuse then (takeFree l).map fun (flow, l) => (flow, e :: l) else some (e.flow, { e with inuse := true } :: l)

def auGetScratchFlow (created : Bool) (aud : AuServer) : Exec (Nat × AuServer) :=
  if aud.numInuse = AU_MAX_SCRATCH_FLOWS then .ok (auCreateFlow created aud)
  else match takeFree aud.scratchFlows with
    | some (flow, scratchFlows) => .ok (flow, { aud with scratchFlows, numInuse := aud.numInuse + 1 })
    | none =>
      let (flow, aud) := auCreateFlow created aud
      if flow ≠ 0 then
        -- there is no room behind the last entry
        if aud.scratchFlows.length < AU_MAX_SCRATCH_FLOWS then
          .ok (flow, { aud with scratchFlows := aud.scratchFlows ++ [⟨flow, true⟩], numInuse := aud.numInuse + 1 })
        else .error .fault
      else .ok (flow, aud)

/-- The mark of a flow is taken away, if it is in the pool. -/
def giveBack (flow : Nat) : List ScratchFlow → Option (List ScratchFlow)
  | [] => none
  | e :: l => if e.flow = flow then some ({ e with inuse := false } :: l) else (giveBack flow l).map (e :: ·)

/-- A flow that is not in the pool is destroyed. -/
def auReleaseScratchFlow (flow : Nat) (aud : AuServer) : AuServer :=
  match giveBack flow aud.scratchFlows with
  | some scratchFlows => { aud with scratchFlows, numInuse := aud.numInuse - 1 }
  | none => aud

/-! ### The connection and its user -/

/-- A connection with the flows that are handed out and not yet released. -/
structure State where
  aud : AuServer
  out : List Nat := []

inductive Call where
  | auGetScratchFlow (created : Bool)
  | auReleaseScratchFlow (flow : Nat)
deriving DecidableEq, Repr

def step (s : State) : Call → Exec State
  | .auGetScratchFlow created => do
    let (flow, aud) ← auGetScratchFlow created s.aud
    return { aud, out := if flow = 0 then s.out else flow :: s.out }
  | .auReleaseScratchFlow flow => .ok { aud := auReleaseScratchFlow flow s.aud, out := s.out.erase flow }

/-- What the pool is for: no flow is handed out twice, the counter counts the marks, and there is room. -/
structure Sound (s : State) : Prop where
  distinct : s.out.Nodup
  count : s.aud.numInuse = s.aud.scratchFlows.countP (·.inuse)
  total : s.aud.scratchFlows.length ≤ AU_MAX_SCRATCH_FLOWS

/-- No flow of the pool is released that is not in use, and the id that stands for all when the ids are used up is not
handed out again. -/
def Good (s : State) : Call → Prop
  | .auGetScratchFlow created =>
    created → (∀ e ∈ s.aud.scratchFlows, e.inuse) → s.aud.nextId ≤ s.aud.ids.mask ∨ 0x10000000 ∉ s.out
  | .auReleaseScratchFlow flow => ∀ e ∈ s.aud.scratchFlows, e.flow = flow → e.inuse

/-! ### The ids -/

variable {aud : AuServer} {created : Bool} {flow : Nat} {l l' : List ScratchFlow} {s s' : State}

@[simp] theorem auCreateFlow_scratchFlows : (auCreateFlow created aud).2.scratchFlows = aud.scratchFlows := by
  unfold auCreateFlow auAllocID
  dsimp only
  split
  · rfl
  · split <;> rfl

@[simp] theorem auCreateFlow_numInuse : (auCreateFlow created aud).2.numInuse = aud.numInuse := by
  unfold auCreateFlow auAllocID
  dsimp only
  split
  · rfl
  · split <;> rfl

@[simp] theorem auCreateFlow_ids : (auCreateFlow created aud).2.ids = aud.ids := by
  unfold auCreateFlow auAllocID
  dsimp only
  split
  · rfl
  · split <;> rfl

/-- The ids are given in turn: `flows` are of those that were given before, as long as any are left. -/
structure Numbered (aud : AuServer) (flows : List Nat) : Prop where
  small : aud.resourceId <<< aud.ids.shift < 2 ^ 32
  given : aud.nextId ≤ aud.ids.mask → ∀ f ∈ flows, ∃ k < aud.resourceId, f = aud.ids.base + k <<< aud.ids.shift

theorem Numbered.nextId_eq {flows : List Nat} (h : Numbered aud flows) : aud.nextId = aud.resourceId <<< aud.ids.shift :=
  Nat.mod_eq_of_lt h.small

theorem Numbered.mono {flows flows' : List Nat} (h : Numbered aud flows) (hsub : ∀ f ∈ flows', f ∈ flows) :
    Numbered aud flows' :=
  ⟨h.small, fun hleft f hf => h.given hleft f (hsub f hf)⟩

/-- An id that is left is new. -/
theorem Numbered.fresh {flows : List Nat} (h : Numbered aud flows) (hleft : aud.nextId ≤ aud.ids.mask) :
    (auCreateFlow true aud).1 ∉ flows := by
  intro hmem
  obtain ⟨k, hk, hflow⟩ := h.given hleft _ hmem
  have hbase := aud.ids.base_lt
  unfold auCreateFlow auAllocID at hflow
  rw [if_pos hleft] at hflow
  dsimp only at hflow
  rw [if_pos rfl, Nat.mod_eq_of_lt (by omega), h.nextId_eq] at hflow
  have hlt : k <<< aud.ids.shift < aud.resourceId <<< aud.ids.shift := by
    rw [Nat.shiftLeft_eq, Nat.shiftLeft_eq]
    exact Nat.mul_lt_mul_of_pos_right hk (Nat.two_pow_pos _)
  omega

/-- Behind the last id there is none left. -/
theorem shift_back {n : Nat} (h : n ≤ 28) : 0x10000000 >>> n <<< n = 0x10000000 := by
  rw [Nat.shiftLeft_eq, Nat.shiftRight_eq_div_pow]
  exact Nat.div_mul_cancel (Nat.pow_dvd_pow 2 h)

theorem Numbered.create {flows : List Nat} (h : Numbered aud flows) (created : Bool) :
    Numbered (auCreateFlow created aud).2 ((auCreateFlow true aud).1 :: flows) := by
  have hnext := h.nextId_eq
  have hmask := aud.ids.mask_lt
  have hbase := aud.ids.base_lt
  by_cases hleft : aud.nextId ≤ aud.ids.mask
  · have hpow : 2 ^ aud.ids.shift ≤ 2 ^ 28 := Nat.pow_le_pow_right (by decide) aud.ids.shift_le
    have hone : 0 < 2 ^ aud.ids.shift := Nat.two_pow_pos _
    rw [hnext, Nat.shiftLeft_eq] at hleft
    have hid : aud.resourceId ≤ aud.resourceId * 2 ^ aud.ids.shift := Nat.le_mul_of_pos_right _ hone
    have hstep : (auCreateFlow created aud).2 = { aud with resourceId := aud.resourceId + 1 } := by
      unfold auCreateFlow auAllocID
      rw [if_pos (by rw [hnext, Nat.shiftLeft_eq]; exact hleft)]
      dsimp only
      rw [Nat.mod_eq_of_lt (by omega)]
    have hnew : (auCreateFlow true aud).1 = aud.ids.base + aud.resourceId <<< aud.ids.shift := by
      unfold auCreateFlow auAllocID
      rw [if_pos (by rw [hnext, Nat.shiftLeft_eq]; exact hleft)]
      dsimp only
      rw [if_pos rfl, hnext, Nat.shiftLeft_eq, Nat.mod_eq_of_lt (by omega)]
    rw [hstep]
    refine ⟨?_, ?_⟩
    · dsimp only
      rw [Nat.shiftLeft_eq, Nat.add_mul]
      omega
    · intro _ f hf
      rcases List.mem_cons.1 hf with rfl | hf
      · exact ⟨aud.resourceId, Nat.lt_succ_self _, hnew⟩
      · obtain ⟨k, hk, hflow⟩ := h.given (by rw [hnext, Nat.shiftLeft_eq]; exact hleft) f hf
        exact ⟨k, Nat.lt_succ_of_lt hk, hflow⟩
  · have hlast : (auCreateFlow created aud).2.resourceId <<< aud.ids.shift = 0x10000000 := by
      unfold auCreateFlow auAllocID
      rw [if_neg hleft]
      dsimp only
      split
      · exact shift_back aud.ids.shift_le
      · rename_i hid
        rw [← hnext]
        exact not_not.1 hid
    refine ⟨?_, ?_⟩
    · rw [auCreateFlow_ids, hlast]
      decide
    · intro hleft'
      exfalso
      unfold AuServer.nextId at hleft'
      rw [auCreateFlow_ids, hlast] at hleft'
      omega

/-! ### The pool -/

theorem takeFree_some (h : takeFree l = some (flow, l')) :
    ∃ a b, l = a ++ ⟨flow, false⟩ :: b ∧ l' = a ++ ⟨flow, true⟩ :: b := by
  induction l generalizing l' with
  | nil => cases h
  | cons e l ih =>
    unfold takeFree at h
    by_cases he : e.inuse
    · rw [if_pos he] at h
      obtain ⟨⟨f, m⟩, hm, hfm⟩ := Option.map_eq_some_iff.1 h
      cases hfm
      obtain ⟨a, b, hl, hm'⟩ := ih hm
      exact ⟨e :: a, b, by rw [hl, List.cons_append], by rw [hm', List.cons_append]⟩
    · rw [if_neg he] at h
      cases h
      have hfree : e.inuse = false := by simpa using he
      refine ⟨[], l, ?_, rfl⟩
      rw [List.nil_append, ← hfree]

theorem takeFree_none : takeFree l = none ↔ ∀ e ∈ l, e.inuse := by
  induction l with
  | nil => simp [takeFree]
  | cons e l ih =>
    unfold takeFree
    by_cases he : e.inuse
    · simp [he, ih]
    · simp [he]

theorem giveBack_some (h : giveBack flow l = some l') : ∃ a b u, l = a ++ ⟨flow, u⟩ :: b ∧ l' = a ++ ⟨flow, false⟩ :: b := by
  induction l generalizing l' with
  | nil => cases h
  | cons e l ih =>
    unfold giveBack at h
    by_cases he : e.flow = flow
    · rw [if_pos he] at h
      cases h
      exact ⟨[], l, e.inuse, by rw [List.nil_append, ← he], by rw [List.nil_append, ← he]⟩
    · rw [if_neg he] at h
      obtain ⟨m, hm, hm'⟩ := Option.map_eq_some_iff.1 h
      obtain ⟨a, b, u, hl, hmb⟩ := ih hm
      exact ⟨e :: a, b, u, by rw [hl, List.cons_append], by rw [← hm', hmb, List.cons_append]⟩

theorem giveBack_none : giveBack flow l = none ↔ ∀ e ∈ l, e.flow ≠ flow := by
  induction l with
  | nil => simp [giveBack]
  | cons e l ih =>
    unfold giveBack
    by_cases he : e.flow = flow
    · simp [he]
    · simp [he, ih]

/-- The flows that a connection's ids were given to, as far as they are still known. -/
def State.flows (s : State) : List Nat := s.out ++ s.aud.scratchFlows.map (·.flow)

/-- Beside `Sound`: a flow of the pool is handed out just when it is marked. -/
structure Inv (s : State) : Prop extends Sound s where
  pool : (s.aud.scratchFlows.map (·.flow)).Nodup
  marked : ∀ e ∈ s.aud.scratchFlows, e.inuse ↔ e.flow ∈ s.out
  nonzero : ∀ e ∈ s.aud.scratchFlows, e.flow ≠ 0
  numbered : Numbered s.aud s.flows

theorem Inv.all_of_full (hI : Inv s) (h : s.aud.numInuse = AU_MAX_SCRATCH_FLOWS) : ∀ e ∈ s.aud.scratchFlows, e.inuse := by
  have htotal := hI.total
  have hcount := hI.count
  have hle : s.aud.scratchFlows.countP (·.inuse) ≤ s.aud.scratchFlows.length := List.countP_le_length
  refine (List.countP_eq_length (p := fun e : ScratchFlow => e.inuse)).1 ?_
  omega

/-- An entry whose mark changes, with the rest of the pool. -/
theorem nodup_mark {a b : List ScratchFlow} {u v : Bool} :
    ((a ++ ⟨flow, u⟩ :: b).map (·.flow)) = ((a ++ ⟨flow, v⟩ :: b).map (·.flow)) := by
  simp

theorem others_ne {a b : List ScratchFlow} {u : Bool} (h : ((a ++ ⟨flow, u⟩ :: b).map (·.flow)).Nodup) :
    ∀ e, e ∈ a ∨ e ∈ b → e.flow ≠ flow := by
  intro e he hflow
  rw [List.map_append, List.map_cons, List.nodup_middle, List.nodup_cons, ← List.map_append] at h
  have hmem := List.mem_map_of_mem (f := ScratchFlow.flow) (List.mem_append.2 he)
  rw [hflow] at hmem
  exact h.1 hmem

/-- A flow of the pool is taken. -/
theorem Inv.take {a b : List ScratchFlow} (hI : Inv s) (h : s.aud.scratchFlows = a ++ ⟨flow, false⟩ :: b) : Inv {
      aud := { s.aud with scratchFlows := a ++ ⟨flow, true⟩ :: b, numInuse := s.aud.numInuse + 1 }, out := flow :: s.out } := by
  obtain ⟨⟨hdistinct, hcount, htotal⟩, hpool, hmarked, hnonzero, hnumbered⟩ := hI
  rw [h] at hcount htotal hpool hmarked hnonzero
  have hothers := others_ne hpool
  have hfree : flow ∉ s.out := by
    have := hmarked ⟨flow, false⟩ (by simp)
    simpa using this
  refine ⟨⟨List.nodup_cons.2 ⟨hfree, hdistinct⟩, ?_, ?_⟩, ?_, ?_, ?_, ?_⟩
  · rw [hcount]
    simp [List.countP_append]
    omega
  · simpa using htotal
  · rwa [nodup_mark (v := false)]
  · intro e he
    rcases List.mem_append.1 he with he | he
    · have := hmarked e (by simp [he])
      simp [this, hothers e (.inl he)]
    · rcases List.mem_cons.1 he with rfl | he
      · simp
      · have := hmarked e (by simp [he])
        simp [this, hothers e (.inr he)]
  · intro e he
    rcases List.mem_append.1 he with he | he
    · exact hnonzero e (by simp [he])
    · rcases List.mem_cons.1 he with rfl | he
      · exact hnonzero ⟨flow, false⟩ (by simp)
      · exact hnonzero e (by simp [he])
  · unfold State.flows at *
    rw [h] at hnumbered
    refine ⟨hnumbered.small, fun hleft f hf => hnumbered.given hleft f ?_⟩
    simp only [List.map_append, List.map_cons, List.cons_append, List.mem_cons, List.mem_append] at hf ⊢
    tauto

theorem auCreateFlow_last (h : ¬ aud.nextId ≤ aud.ids.mask) : (auCreateFlow true aud).1 = 0x10000000 := by
  unfold auCreateFlow auAllocID
  rw [if_neg h]
  dsimp only
  rw [if_pos rfl]
  split <;> rfl

/-- Where all flows of the pool are handed out, a new one is none of them. -/
theorem Inv.new (hI : Inv s) (hall : ∀ e ∈ s.aud.scratchFlows, e.inuse)
    (hgood : s.aud.nextId ≤ s.aud.ids.mask ∨ 0x10000000 ∉ s.out) : (auCreateFlow true s.aud).1 ∉ s.flows := by
  have hsub : ∀ f ∈ s.flows, f ∈ s.out := by
    intro f hf
    rcases List.mem_append.1 hf with hf | hf
    · exact hf
    · obtain ⟨e, he, rfl⟩ := List.mem_map.1 hf
      exact (hI.marked e he).1 (hall e he)
  by_cases hleft : s.aud.nextId ≤ s.aud.ids.mask
  · exact hI.numbered.fresh hleft
  · rw [auCreateFlow_last hleft]
    exact fun hmem => hgood.elim hleft fun h => h (hsub _ hmem)

/-- A request that fails only uses up an id. -/
theorem Inv.failed (hI : Inv s) : Inv { s with aud := (auCreateFlow created s.aud).2 } := by
  obtain ⟨⟨hdistinct, hcount, htotal⟩, hpool, hmarked, hnonzero, hnumbered⟩ := hI
  refine ⟨⟨hdistinct, by simpa using hcount, by simpa using htotal⟩, by simpa using hpool, by simpa using hmarked,
    by simpa using hnonzero, ?_⟩
  refine (hnumbered.create created).mono fun f hf => List.mem_cons_of_mem _ ?_
  unfold State.flows at hf ⊢
  simpa using hf

/-- A new flow is handed out beside the pool. -/
theorem Inv.beside (hI : Inv s) (hnew : (auCreateFlow true s.aud).1 ∉ s.flows) :
    Inv { aud := (auCreateFlow true s.aud).2, out := (auCreateFlow true s.aud).1 :: s.out } := by
  obtain ⟨⟨hdistinct, hcount, htotal⟩, hpool, hmarked, hnonzero, hnumbered⟩ := hI
  unfold State.flows at hnew
  rw [List.mem_append, not_or] at hnew
  refine ⟨⟨List.nodup_cons.2 ⟨hnew.1, hdistinct⟩, by simpa using hcount, by simpa using htotal⟩, by simpa using hpool, ?_,
    by simpa using hnonzero, ?_⟩
  · intro e he
    rw [auCreateFlow_scratchFlows] at he
    have hne : e.flow ≠ (auCreateFlow true s.aud).1 := fun h => hnew.2 (h ▸ List.mem_map_of_mem (f := ScratchFlow.flow) he)
    simp [hmarked e he, hne]
  · refine (hnumbered.create true).mono fun f hf => ?_
    unfold State.flows at hf ⊢
    rw [auCreateFlow_scratchFlows] at hf
    simpa using hf

/-- A new flow is handed out and put into the pool. -/
theorem Inv.push (hI : Inv s) (hlt : s.aud.scratchFlows.length < AU_MAX_SCRATCH_FLOWS)
    (hne : (auCreateFlow true s.aud).1 ≠ 0) (hnew : (auCreateFlow true s.aud).1 ∉ s.flows) : Inv {
      aud := { (auCreateFlow true s.aud).2 with
        scratchFlows := s.aud.scratchFlows ++ [⟨(auCreateFlow true s.aud).1, true⟩], numInuse := s.aud.numInuse + 1 }
      out := (auCreateFlow true s.aud).1 :: s.out } := by
  have hbeside := hI.beside hnew
  obtain ⟨⟨hdistinct, hcount, htotal⟩, hpool, hmarked, hnonzero, hnumbered⟩ := hbeside
  rw [auCreateFlow_scratchFlows] at hcount htotal hpool hmarked hnonzero
  rw [auCreateFlow_numInuse] at hcount
  unfold State.flows at hnew hnumbered
  rw [List.mem_append, not_or] at hnew
  refine ⟨⟨hdistinct, ?_, ?_⟩, ?_, ?_, ?_, ?_⟩
  · rw [hcount]
    simp [List.countP_append]
  · rw [List.length_append, List.length_singleton]
    omega
  · rw [List.map_append, List.nodup_append]
    refine ⟨hpool, by simp, ?_⟩
    intro f hf g hg hfg
    rw [List.map_cons, List.map_nil, List.mem_singleton] at hg
    rw [hfg, hg] at hf
    exact hnew.2 hf
  · intro e he
    rcases List.mem_append.1 he with he | he
    · exact hmarked e he
    · rw [List.mem_singleton.1 he]
      simp
  · intro e he
    rcases List.mem_append.1 he with he | he
    · exact hnonzero e he
    · rw [List.mem_singleton.1 he]
      exact hne
  · refine ⟨hnumbered.small, fun hleft f hf => hnumbered.given hleft f ?_⟩
    unfold State.flows at hf
    rw [auCreateFlow_scratchFlows]
    simp only [List.map_append, List.map_cons, List.map_nil, List.cons_append, List.mem_cons, List.mem_append,
      List.not_mem_nil, or_false] at hf ⊢
    tauto

/-- A flow of the pool that is in use is released. -/
theorem Inv.back {a b : List ScratchFlow} (hI : Inv s) (h : s.aud.scratchFlows = a ++ ⟨flow, true⟩ :: b) : Inv {
      aud := { s.aud with scratchFlows := a ++ ⟨flow, false⟩ :: b, numInuse := s.aud.numInuse - 1 }
      out := s.out.erase flow } := by
  obtain ⟨⟨hdistinct, hcount, htotal⟩, hpool, hmarked, hnonzero, hnumbered⟩ := hI
  rw [h] at hcount htotal hpool hmarked hnonzero
  have hothers := others_ne hpool
  refine ⟨⟨hdistinct.erase _, ?_, ?_⟩, ?_, ?_, ?_, ?_⟩
  · rw [hcount]
    simp [List.countP_append]
    omega
  · simpa using htotal
  · rwa [nodup_mark (v := true)]
  · intro e he
    rcases List.mem_append.1 he with he | he
    · rw [List.mem_erase_of_ne (hothers e (.inl he))]
      exact hmarked e (by simp [he])
    · rcases List.mem_cons.1 he with rfl | he
      · simp [hdistinct.mem_erase_iff]
      · rw [List.mem_erase_of_ne (hothers e (.inr he))]
        exact hmarked e (by simp [he])
  · intro e he
    rcases List.mem_append.1 he with he | he
    · exact hnonzero e (by simp [he])
    · rcases List.mem_cons.1 he with rfl | he
      · exact hnonzero ⟨flow, true⟩ (by simp)
      · exact hnonzero e (by simp [he])
  · unfold State.flows at *
    rw [h] at hnumbered
    refine ⟨hnumbered.small, fun hleft f hf => hnumbered.given hleft f ?_⟩
    rcases List.mem_append.1 hf with hf | hf
    · exact List.mem_append_left _ (List.mem_of_mem_erase hf)
    · rw [nodup_mark (v := true)] at hf
      exact List.mem_append_right _ hf

/-- A flow that is not in the pool is released. -/
theorem Inv.away (hI : Inv s) (h : ∀ e ∈ s.aud.scratchFlows, e.flow ≠ flow) : Inv { s with out := s.out.erase flow } := by
  obtain ⟨⟨hdistinct, hcount, htotal⟩, hpool, hmarked, hnonzero, hnumbered⟩ := hI
  refine ⟨⟨hdistinct.erase _, hcount, htotal⟩, hpool, ?_, hnonzero, ?_⟩
  · intro e he
    rw [hmarked e he, List.mem_erase_of_ne (h e he)]
  · refine hnumbered.mono fun f hf => ?_
    rcases List.mem_append.1 hf with hf | hf
    · exact List.mem_append_left _ (List.mem_of_mem_erase hf)
    · exact List.mem_append_right _ hf

/-! ### Runs -/

/-- What a get does: it takes a flow of the pool that is not in use, or makes a new one if there is none. -/
theorem get_eq (hI : Inv s) : step s (.auGetScratchFlow created) =
    match takeFree s.aud.scratchFlows with
    | some (flow, scratchFlows) =>
      .ok { aud := { s.aud with scratchFlows, numInuse := s.aud.numInuse + 1 }, out := flow :: s.out }
    | none =>
      if (auCreateFlow created s.aud).1 = 0 then .ok { s with aud := (auCreateFlow created s.aud).2 }
      else if s.aud.scratchFlows.length < AU_MAX_SCRATCH_FLOWS then .ok {
        aud := { (auCreateFlow created s.aud).2 with
          scratchFlows := s.aud.scratchFlows ++ [⟨(auCreateFlow created s.aud).1, true⟩], numInuse := s.aud.numInuse + 1 }
        out := (auCreateFlow created s.aud).1 :: s.out }
      else .ok { aud := (auCreateFlow created s.aud).2, out := (auCreateFlow created s.aud).1 :: s.out } := by
  have hcount := hI.count
  have htotal := hI.total
  unfold step auGetScratchFlow
  rcases htake : takeFree s.aud.scratchFlows with _ | ⟨flow, scratchFlows⟩
  · have hall := takeFree_none.1 htake
    have hlength : s.aud.scratchFlows.countP (·.inuse) = s.aud.scratchFlows.length := List.countP_eq_length.2 hall
    by_cases hfull : s.aud.numInuse = AU_MAX_SCRATCH_FLOWS
    · have hroom : ¬ s.aud.scratchFlows.length < AU_MAX_SCRATCH_FLOWS := by omega
      dsimp only
      rw [if_pos hfull, if_neg hroom]
      by_cases hzero : (auCreateFlow created s.aud).1 = 0
      · rw [if_pos hzero, Exec.ok_bind, if_pos hzero]
        rfl
      · rw [if_neg hzero, Exec.ok_bind, if_neg hzero]
        rfl
    · have hroom : s.aud.scratchFlows.length < AU_MAX_SCRATCH_FLOWS := by omega
      dsimp only
      rw [if_neg hfull, auCreateFlow_scratchFlows, auCreateFlow_numInuse, if_pos hroom, if_pos hroom]
      by_cases hzero : (auCreateFlow created s.aud).1 = 0
      · rw [if_neg (not_not.2 hzero), if_pos hzero, Exec.ok_bind]
        dsimp only
        rw [if_pos hzero]
        rfl
      · rw [if_pos hzero, if_neg hzero, Exec.ok_bind]
        dsimp only
        rw [if_neg hzero]
        rfl
  · obtain ⟨a, b, hl, -⟩ := takeFree_some htake
    have hfull : s.aud.numInuse ≠ AU_MAX_SCRATCH_FLOWS := by
      intro h
      have := hI.all_of_full h ⟨flow, false⟩ (by simp [hl])
      cases this
    have hne : flow ≠ 0 := hI.nonzero ⟨flow, false⟩ (by simp [hl])
    dsimp only
    rw [if_neg hfull, Exec.ok_bind]
    dsimp only
    rw [if_neg hne]
    rfl

theorem Inv.step_good {c : Call} (hI : Inv s) (hgood : Good s c) : ∃ s', step s c = .ok s' ∧ Inv s' := by
  cases c with
  | auGetScratchFlow created =>
    rw [get_eq hI]
    rcases htake : takeFree s.aud.scratchFlows with _ | ⟨flow, scratchFlows⟩
    · have hall := takeFree_none.1 htake
      dsimp only
      by_cases hzero : (auCreateFlow created s.aud).1 = 0
      · rw [if_pos hzero]
        exact ⟨_, rfl, hI.failed⟩
      · rw [if_neg hzero]
        -- a request that fails gives no flow
        have hcreated : created = true := by
          by_contra hfalse
          refine hzero ?_
          unfold auCreateFlow
          exact if_neg hfalse
        subst hcreated
        have hnew := hI.new hall (hgood rfl hall)
        split
        · exact ⟨_, rfl, hI.push ‹_› hzero hnew⟩
        · exact ⟨_, rfl, hI.beside hnew⟩
    · obtain ⟨a, b, hl, hl'⟩ := takeFree_some htake
      dsimp only
      rw [hl']
      exact ⟨_, rfl, hI.take hl⟩
  | auReleaseScratchFlow flow =>
    refine ⟨_, rfl, ?_⟩
    unfold auReleaseScratchFlow
    rcases hback : giveBack flow s.aud.scratchFlows with _ | l
    · exact hI.away (giveBack_none.1 hback)
    · obtain ⟨a, b, u, hl, hl'⟩ := giveBack_some hback
      have hu : u = true := hgood ⟨flow, u⟩ (by simp [hl]) rfl
      rw [hu] at hl
      dsimp only
      rw [hl']
      exact hI.back hl

/-- The other calls break the counter, or hand the last id out once more. -/
theorem Inv.step_bad {c : Call} (hI : Inv s) (hbad : ¬ Good s c) (h : step s c = .ok s') : ¬ Sound s' := by
  intro hsound
  cases c with
  | auGetScratchFlow created =>
    unfold Good at hbad
    push Not at hbad
    obtain ⟨hcreated, hall, hleft, hout⟩ := hbad
    subst hcreated
    have hlast := auCreateFlow_last (Nat.not_le.2 hleft)
    have hnone : takeFree s.aud.scratchFlows = none := takeFree_none.2 hall
    rw [get_eq hI, hnone, hlast] at h
    dsimp only at h
    rw [if_neg (by decide)] at h
    have hdistinct := hsound.distinct
    split at h <;>
    · cases h
      exact (List.nodup_cons.1 hdistinct).1 hout
  | auReleaseScratchFlow flow =>
    unfold Good at hbad
    push Not at hbad
    obtain ⟨e, he, hflow, hfree⟩ := hbad
    cases h
    have hcount := hsound.count
    have hbefore := hI.count
    unfold auReleaseScratchFlow at hcount
    rcases hback : giveBack flow s.aud.scratchFlows with _ | l
    · exact giveBack_none.1 hback e he hflow
    · obtain ⟨a, b, u, hl, hl'⟩ := giveBack_some hback
      have hpool := hI.pool
      rw [hl] at he hbefore hpool
      -- the entry that is found is the one that is free
      have hu : u = false := by
        rcases List.mem_append.1 he with he | he
        · exact absurd hflow (others_ne hpool e (.inl he))
        · rcases List.mem_cons.1 he with rfl | he
          · simpa using hfree
          · exact absurd hflow (others_ne hpool e (.inr he))
      rw [hback] at hcount
      dsimp only at hcount
      rw [hl', hbefore, hu] at hcount
      omega

/-- A connection as it is opened. -/
def opened (ids : IdSpace) : State := { aud := { ids } }

theorem inv_opened (ids : IdSpace) : Inv (opened ids) := by
  refine ⟨⟨List.nodup_nil, rfl, Nat.zero_le _⟩, List.nodup_nil, ?_, ?_, ?_, ?_⟩
  · intro e he
    cases he
  · intro e he
    cases he
  · show 0 <<< ids.shift < 2 ^ 32
    rw [Nat.zero_shiftLeft]
    decide
  · intro _ f hf
    cases hf

/-- The pool is sound throughout just when no flow of the pool is released that is not in use. -/
theorem sound_iff_good (ids : IdSpace) (calls : List Call) :
    Throughout step Sound calls (opened ids) ↔ Each step Good calls (opened ids) :=
  throughout_iff_each (fun _ hI => hI.toSound) (fun _ _ hI hgood => hI.step_good hgood)
    (fun _ _ _ hI hbad h => hI.step_bad hbad h) (inv_opened ids)

/-- The ids of a client of the server. -/
def someIds : IdSpace := ⟨0x400000, 0x3FFFFF, 0, by decide, by decide, by decide⟩

/-- A flow is released twice. -/
theorem released_twice : ¬ Throughout step Sound
    [.auGetScratchFlow true, .auReleaseScratchFlow 0x400000, .auReleaseScratchFlow 0x400000] (opened someIds) := by
  rintro ⟨-, s₁, h₁, -, s₂, h₂, -, s₃, h₃, hsound⟩
  cases h₁
  cases h₂
  cases h₃
  exact absurd hsound.count (by decide)

end Nas.ScratchFlows
