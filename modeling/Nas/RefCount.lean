import Nas.CompileCount
import Nas.TableCount

/-!
# Reference counts of components

A component belongs to its records in the table and to the compiled inputs and outputs that lead to it
(`AuFreeComponent`, `freeCompiledFlow`, `compileInputs`, `AuCompileFlow`). `Accounts` is the invariant of the server
that its counts are right, and `reference_counts` says what it means for any run.

`AddResource` for an id of a client that is not in use leaves the new bucket without an owner, though it deletes it
when there is no memory. That is what such runs must not do.
-/

namespace Nas

/-! ### Owners -/

/-- How many compiled inputs and outputs lead to a component. -/
def flowOwners (flows : Heap ServerFlow) (p : ComponentPtr) : Nat :=
  ∑ q ∈ Finset.range flows.next, ((flows.get q).map fun f => f.compiled.owned.count p).getD 0

/-- How many owners a component has. -/
def Server.owners (s : Server) (p : ComponentPtr) : Nat := s.clientTable.owners p + flowOwners s.flows p

/-- How many minibuffers of its own an element in use has. -/
def Server.minibufsOf (s : Server) (ep : ElementPtr) : Nat :=
  ((s.flows.get ep.flow).map fun f =>
    if f.block = ep.block then ((f.els[ep.num]?).map (·.wiring.minibufs)).getD 0 else 0).getD 0

/-- Components live as long as they have owners, and minibuffers as long as their elements are in use. -/
structure Accounted (s : Server) : Prop where
  counted : ∀ p c, s.comps p = some c → c.refCnt + 1 = s.owners p
  freed : ∀ p, s.comps p = none → s.owners p = 0
  /-- a bucket element's minibuffer is allocated once, and freed once, when the element is not in use any more -/
  minibufs : ∀ ep, s.allocatedMinibufs.count ep ≤ 1 ∧
    s.allocatedMinibufs.count ep = s.freedMinibufs.count ep + s.minibufsOf ep

/-! ### What matters of a flow -/

structure Frame where
  block : Nat
  elements : Option (List Wiring)
  outputs : List Outline

def Flow.frame (f : ServerFlow) : Frame :=
  ⟨f.block, f.elements.map (List.map (·.wiring)), f.compiled.outputs.map (·.outline)⟩

namespace Flow
variable {p : FlowPtr} {f f' : ServerFlow}

/-- The elements and the compiled outputs of a flow fit. -/
structure Ok (p : FlowPtr) (f : ServerFlow) : Prop where
  idle : f.elements = none → f.compiled.outputs = []
  wired : Wired p f.block (f.els.map (·.wiring)) f.compiled.outputs

theorem frame_block (h : f'.frame = f.frame) : f'.block = f.block := congrArg Frame.block h

theorem frame_outputs (h : f'.frame = f.frame) :
    f'.compiled.outputs.map (·.outline) = f.compiled.outputs.map (·.outline) := congrArg Frame.outputs h

theorem frame_isSome (h : f'.frame = f.frame) : f'.elements.isSome = f.elements.isSome := by
  have := congrArg (fun x : Frame => x.elements.isSome) h
  simpa [frame] using this

theorem frame_els (h : f'.frame = f.frame) : f'.els.map (·.wiring) = f.els.map (·.wiring) := by
  have key (f : ServerFlow) : f.els.map (·.wiring) = f.frame.elements.getD [] := by
    rw [els, frame]
    rcases f.elements with - | l
    · rfl
    · rfl
  rw [key, key, h]

theorem frame_owned (h : f'.frame = f.frame) : f'.compiled.owned = f.compiled.owned := owned_outline (frame_outputs h)

theorem frame_fixed (f : ServerFlow) : f.fixed.frame = f.frame := by
  rcases hels : f.elements with - | els
  · simp [frame, fixed, hels]
  · simp only [frame, fixed, hels, Option.map_some, List.map_map]
    rfl

theorem Ok.of_frame (h : Ok p f) (hframe : f'.frame = f.frame) : Ok p f' where
  idle hnone := by
    have hsome := frame_isSome hframe
    rw [hnone] at hsome
    have hnil := h.idle (by simpa using hsome.symm)
    have houtputs := frame_outputs hframe
    rw [hnil] at houtputs
    simpa using houtputs
  wired := by
    rw [frame_block hframe, frame_els hframe]
    exact h.wired.outline (frame_outputs hframe)

end Flow

/-! ### The invariant -/

/-- An element of a block in use. -/
def Server.InUse (s : Server) (ep : ElementPtr) : Prop :=
  ∃ f, s.flows.get ep.flow = some f ∧ f.elements.isSome ∧ f.block = ep.block

structure Minibufs (s : Server) : Prop where
  balance : ∀ ep, s.allocatedMinibufs.count ep = s.freedMinibufs.count ep + s.minibufsOf ep
  once : ∀ ep, s.allocatedMinibufs.count ep ≤ 1
  inUse : ∀ ep, s.InUse ep → s.freedMinibufs.count ep = 0
  block : ∀ p f, s.flows.get p = some f → f.elements.isSome → f.block < s.nextBlock
  future : ∀ ep, s.nextBlock ≤ ep.block → s.allocatedMinibufs.count ep = 0

structure Accounts (hand : List ComponentPtr) (s : Server) : Prop where
  ledger : Ledger Component.refCnt s.comps fun p => hand.count p + s.owners p
  fresh : ∀ p, s.nextComponent ≤ p → s.comps p = none
  table : s.clientTable.Wf
  flows : ∀ p f, s.flows.get p = some f → f.Ok p
  minibufs : Minibufs s

/-- The flows are the same, as far as it matters. -/
structure SameFrames (s s' : Server) : Prop where
  get : ∀ p, (s'.flows.get p).map Flow.frame = (s.flows.get p).map Flow.frame
  next : s'.flows.next = s.flows.next
  allocated : s'.allocatedMinibufs = s.allocatedMinibufs
  freed : s'.freedMinibufs = s.freedMinibufs
  nextBlock : s'.nextBlock = s.nextBlock

namespace SameFrames
variable {s s' : Server} {p : FlowPtr} {f : ServerFlow}

theorem flow (h : SameFrames s s') (hf : s'.flows.get p = some f) : ∃ f₀, s.flows.get p = some f₀ ∧ f.frame = f₀.frame := by
  have := h.get p
  rw [hf] at this
  obtain ⟨f₀, hf₀, heq⟩ := Option.map_eq_some_iff.1 this.symm
  exact ⟨f₀, hf₀, heq.symm⟩

theorem flowOwners (h : SameFrames s s') (q : ComponentPtr) : flowOwners s'.flows q = flowOwners s.flows q := by
  unfold Nas.flowOwners
  rw [h.next]
  refine Finset.sum_congr rfl fun p _ => ?_
  rcases hf : s'.flows.get p with - | f
  · have := h.get p
    rw [hf] at this
    rw [Option.map_eq_none_iff.1 this.symm]
  · obtain ⟨f₀, hf₀, hframe⟩ := h.flow hf
    rw [hf₀, Option.map_some, Option.map_some, Flow.frame_owned hframe]

theorem minibufsOf (h : SameFrames s s') (ep : ElementPtr) : s'.minibufsOf ep = s.minibufsOf ep := by
  unfold Server.minibufsOf
  rcases hf : s'.flows.get ep.flow with - | f
  · have := h.get ep.flow
    rw [hf] at this
    rw [Option.map_eq_none_iff.1 this.symm]
  · obtain ⟨f₀, hf₀, hframe⟩ := h.flow hf
    have hels : (f.els[ep.num]?).map (·.wiring) = (f₀.els[ep.num]?).map (·.wiring) := by
      rw [← List.getElem?_map, ← List.getElem?_map, Flow.frame_els hframe]
    have hminibufs := congrArg (Option.map Wiring.minibufs) hels
    rw [Option.map_map, Option.map_map] at hminibufs
    have hminibufs : (f.els[ep.num]?).map (·.wiring.minibufs) = (f₀.els[ep.num]?).map (·.wiring.minibufs) := hminibufs
    rw [hf₀, Option.map_some, Option.map_some, Flow.frame_block hframe, hminibufs]

theorem minibufs (h : SameFrames s s') (hs : Minibufs s) : Minibufs s' where
  balance ep := by
    rw [h.allocated, h.freed, h.minibufsOf]
    exact hs.balance ep
  once ep := by
    rw [h.allocated]
    exact hs.once ep
  inUse ep huse := by
    obtain ⟨f, hf, hsome, hblock⟩ := huse
    obtain ⟨f₀, hf₀, hframe⟩ := h.flow hf
    rw [h.freed]
    exact hs.inUse ep ⟨f₀, hf₀, by rw [← Flow.frame_isSome hframe]; exact hsome,
      by rw [← Flow.frame_block hframe]; exact hblock⟩
  block p f hf hsome := by
    obtain ⟨f₀, hf₀, hframe⟩ := h.flow hf
    rw [h.nextBlock, Flow.frame_block hframe]
    exact hs.block p f₀ hf₀ (by rw [← Flow.frame_isSome hframe]; exact hsome)
  future ep hep := by
    rw [h.allocated]
    exact hs.future ep (by rw [← h.nextBlock]; exact hep)

theorem refl (s : Server) : SameFrames s s := ⟨fun _ => rfl, rfl, rfl, rfl, rfl⟩

theorem modify {g : ServerFlow → ServerFlow} (hflows : s'.flows = s.flows.modify p g)
    (hg : ∀ f, s.flows.get p = some f → (g f).frame = f.frame) (hallocated : s'.allocatedMinibufs = s.allocatedMinibufs)
    (hfreed : s'.freedMinibufs = s.freedMinibufs) (hblock : s'.nextBlock = s.nextBlock) : SameFrames s s' := by
  refine ⟨fun q => ?_, ?_, hallocated, hfreed, hblock⟩
  · rw [hflows, Heap.get_modify]
    split
    · rename_i hq
      subst hq
      rcases hf : s.flows.get q with - | f
      · rfl
      · rw [Option.map_some, Option.map_some, Option.map_some, hg f hf]
    · rfl
  · rw [hflows]
    rfl

end SameFrames

namespace Accounts
variable {h h' : List ComponentPtr} {s s' : Server} {p : FlowPtr} {f : ServerFlow}

/-- The flows and the counts are the same, and what the table lost is at hand. -/
theorem same (hs : Accounts h s) (hframes : SameFrames s s')
    (hcomps : ∀ q, (s'.comps q).map Component.refCnt = (s.comps q).map Component.refCnt)
    (hnext : s'.nextComponent = s.nextComponent) (htable : s'.clientTable.Wf)
    (howners : ∀ q, h'.count q + s'.clientTable.owners q = h.count q + s.clientTable.owners q) : Accounts h' s' where
  ledger := hs.ledger.congr hcomps fun q => by
    have := howners q
    rw [Server.owners, Server.owners, hframes.flowOwners]
    omega
  fresh q hq := by
    have := hcomps q
    rw [hs.fresh q (by rw [← hnext]; exact hq)] at this
    exact Option.map_eq_none_iff.1 this
  table := htable
  flows q f hf := by
    obtain ⟨f₀, hf₀, hframe⟩ := hframes.flow hf
    exact (hs.flows q f₀ hf₀).of_frame hframe
  minibufs := hframes.minibufs hs.minibufs

end Accounts

/-! ### Owners in flows -/

section
variable {flows : Heap ServerFlow} {p : FlowPtr} {f : ServerFlow} {g : ServerFlow → ServerFlow}

theorem flowOwners_modify (hf : flows.get p = some f) (q : ComponentPtr) :
    flowOwners (flows.modify p g) q + f.compiled.owned.count q = flowOwners flows q + (g f).compiled.owned.count q := by
  have hsum := sum_modify (fun k => ((flows.get k).map fun f => f.compiled.owned.count q).getD 0)
    (fun k => (((flows.modify p g).get k).map fun f => f.compiled.owned.count q).getD 0) (Heap.lt_next hf) fun k hk => by
      rw [Heap.get_modify, if_neg hk]
  rw [Heap.get_modify_self, hf] at hsum
  exact hsum

theorem flowOwners_free (hf : flows.get p = some f) (q : ComponentPtr) :
    flowOwners (flows.free p) q + f.compiled.owned.count q = flowOwners flows q := by
  have hsum := sum_modify (fun k => ((flows.get k).map fun f => f.compiled.owned.count q).getD 0)
    (fun k => (((flows.free p).get k).map fun f => f.compiled.owned.count q).getD 0) (Heap.lt_next hf) fun k hk => by
      rw [Heap.get_free, if_neg hk]
  rw [Heap.get_free, if_pos rfl, hf] at hsum
  exact hsum

theorem flowOwners_alloc (hnil : f.compiled.outputs = []) (q : ComponentPtr) :
    flowOwners (flows.alloc f) q = flowOwners flows q := by
  have howned : f.compiled.owned.count q = 0 := by rw [CompiledFlow.owned, hnil]; rfl
  unfold flowOwners
  rw [Heap.alloc_next, Finset.sum_range_succ, Heap.get_alloc, if_pos rfl, Option.map_some, Option.getD_some, howned,
    Nat.add_zero]
  refine Finset.sum_congr rfl fun k hk => ?_
  rw [Heap.get_alloc, if_neg (Nat.ne_of_lt (Finset.mem_range.1 hk))]

end

/-! ### Giving back -/

/-- The server less its components and their lists. -/
def Server.rest (s : Server) : Server :=
  { s with comps := fun _ => none, compLinks := fun _ => {}, auBuckets := none, auDevices := none }

section
variable {s s' : Server} {p : ComponentPtr} {own : ComponentPtr → Nat}

theorem unlinkComponent_rest {c : Component} (he : unlinkComponent p c s = .ok s') :
    s'.comps = s.comps ∧ s'.rest = s.rest := by
  unfold unlinkComponent at he
  split at he
  · obtain ⟨l, -, he⟩ := Exec.bind_eq_ok.1 he
    cases he
    exact ⟨rfl, rfl⟩
  · split at he
    · obtain ⟨l, -, he⟩ := Exec.bind_eq_ok.1 he
      cases he
      exact ⟨rfl, rfl⟩
    · cases he
      exact ⟨rfl, rfl⟩

theorem auFreeComponent_cases (he : auFreeComponent p s = .ok s') : s'.rest = s.rest ∧ ∃ c, s.comps p = some c ∧
    s'.comps = Function.update s.comps p (if c.refCnt = 0 then none else some { c with refCnt := c.refCnt - 1 }) := by
  obtain ⟨c, hc, he⟩ := Exec.bind_eq_ok.1 he
  rw [Exec.deref_eq_ok] at hc
  split at he
  · rename_i hne
    cases he
    exact ⟨rfl, c, hc, by rw [if_neg hne]; rfl⟩
  · rename_i hzero
    obtain ⟨t, ht, he⟩ := Exec.bind_eq_ok.1 he
    cases he
    obtain ⟨hcomps, hrest⟩ := unlinkComponent_rest ht
    exact ⟨hrest, c, hc, by rw [if_pos (not_not.1 hzero), hcomps]⟩

theorem auFreeComponent_ledger (h : Ledger Component.refCnt s.comps fun q => own q + if q = p then 1 else 0)
    (he : auFreeComponent p s = .ok s') :
    s'.rest = s.rest ∧ Ledger Component.refCnt s'.comps own ∧ ∀ q, s.comps q = none → s'.comps q = none := by
  obtain ⟨hrest, c, hc, hcomps⟩ := auFreeComponent_cases he
  refine ⟨hrest, ?_, fun q hq => ?_⟩
  · rw [hcomps]
    exact h.release hc (fun _ => rfl) rfl
  · have hne : q ≠ p := fun heq => by
      rw [← heq, hq] at hc
      cases hc
    rw [hcomps, Function.update_of_ne hne, hq]

theorem freeCompiledFlow_eq (cmp : CompiledFlow AuFixedPoint) (s : Server) :
    freeCompiledFlow cmp s = cmp.owned.foldlM (fun s p => auFreeComponent p s) s := by
  rw [CompiledFlow.owned, Exec.foldlM_flatMap, freeCompiledFlow]
  congr 1
  funext s output
  rw [CompiledOutput.owned, List.foldlM_append, List.foldlM_map]
  congr 1
  funext s
  rw [List.foldlM_cons]
  simp

theorem freeAll_ledger {ps : List ComponentPtr} (h : Ledger Component.refCnt s.comps fun q => own q + ps.count q)
    (he : ps.foldlM (fun s p => auFreeComponent p s) s = .ok s') :
    s'.rest = s.rest ∧ Ledger Component.refCnt s'.comps own ∧ ∀ q, s.comps q = none → s'.comps q = none := by
  induction ps generalizing s with
  | nil =>
    cases he
    exact ⟨rfl, h.congr (fun _ => rfl) fun q => rfl, fun _ hq => hq⟩
  | cons p ps ih =>
    obtain ⟨t, ht, he⟩ := Exec.foldlM_cons_eq_ok.1 he
    have hp : Ledger Component.refCnt s.comps fun q => (own q + ps.count q) + if q = p then 1 else 0 := by
      refine h.congr (fun _ => rfl) fun q => ?_
      by_cases hq : q = p
      · subst hq
        rw [if_pos rfl, List.count_cons_self, Nat.add_assoc]
      · rw [if_neg hq, List.count_cons_of_ne (Ne.symm hq), Nat.add_zero]
    obtain ⟨hrest, hledger, hnone⟩ := auFreeComponent_ledger hp ht
    obtain ⟨hrest', hledger', hnone'⟩ := ih hledger he
    exact ⟨hrest'.trans hrest, hledger', fun q hq => hnone' q (hnone q hq)⟩

end

/-! ### Minibuffers over a change of one flow -/

section
variable {s s' : Server} {p : FlowPtr} {f : ServerFlow} {g : ServerFlow → ServerFlow}

theorem minibufsOf_some {ep : ElementPtr} (hf : s.flows.get ep.flow = some f) : s.minibufsOf ep =
    if f.block = ep.block then ((f.els[ep.num]?).map (·.wiring.minibufs)).getD 0 else 0 := by
  rw [Server.minibufsOf, hf]
  rfl

theorem minibufsOf_none {ep : ElementPtr} (hf : s.flows.get ep.flow = none) : s.minibufsOf ep = 0 := by
  rw [Server.minibufsOf, hf]
  rfl

theorem minibufsOf_noElements {ep : ElementPtr} (hf : s.flows.get ep.flow = some f) (hnone : f.elements = none) :
    s.minibufsOf ep = 0 := by
  rw [minibufsOf_some hf, Flow.els, hnone]
  simp

theorem minibufsOf_other (hflows : s'.flows = s.flows.modify p g) {ep : ElementPtr} (hne : ep.flow ≠ p) :
    s'.minibufsOf ep = s.minibufsOf ep := by
  rw [Server.minibufsOf, Server.minibufsOf, hflows, Heap.get_modify, if_neg hne]

/-- What is freed with the elements of a flow is what they have. -/
theorem released_count (hf : s.flows.get p = some f) (hok : f.Ok p) (ep : ElementPtr) :
    (releasedMinibufs f.els f.compiled).count ep = if ep.flow = p then s.minibufsOf ep else 0 := by
  by_cases hep : ep.flow = p ∧ ep.block = f.block
  · obtain ⟨q, b, i⟩ := ep
    obtain ⟨rfl, rfl⟩ := hep
    rw [if_pos rfl, minibufsOf_some hf, if_pos rfl]
    exact releasedMinibufs_count hok.wired i
  · have hzero : (releasedMinibufs f.els f.compiled).count ep = 0 := by
      refine List.count_eq_zero.2 fun hmem => hep ?_
      obtain ⟨i, rfl⟩ := releasedMinibufs_others hok.wired hmem
      exact ⟨rfl, rfl⟩
    rw [hzero]
    split
    · rename_i hp
      subst hp
      rw [minibufsOf_some hf, if_neg fun heq => hep ⟨rfl, heq.symm⟩]
    · rfl

theorem Minibufs.emptied (hs : Minibufs s) (hf : s.flows.get p = some f) (hok : f.Ok p)
    (hflows : s'.flows = s.flows.modify p Flow.dropElements) (hallocated : s'.allocatedMinibufs = s.allocatedMinibufs)
    (hfreed : s'.freedMinibufs = s.freedMinibufs ++ releasedMinibufs f.els f.compiled)
    (hblock : s'.nextBlock = s.nextBlock) : Minibufs s' where
  balance ep := by
    rw [hallocated, hfreed, List.count_append, released_count hf hok, hs.balance ep]
    by_cases hep : ep.flow = p
    · subst hep
      have hdropped : s'.flows.get ep.flow = some f.dropElements := by rw [hflows, Heap.get_modify_self, hf]; rfl
      rw [if_pos rfl, minibufsOf_noElements hdropped rfl, Nat.add_zero]
    · rw [if_neg hep, minibufsOf_other hflows hep, Nat.add_zero]
  once ep := by
    rw [hallocated]
    exact hs.once ep
  inUse ep huse := by
    obtain ⟨f', hf', hsome, hb⟩ := huse
    by_cases hep : ep.flow = p
    · rw [hep, hflows, Heap.get_modify_self, hf] at hf'
      cases hf'
      cases hsome
    · rw [hflows, Heap.get_modify, if_neg hep] at hf'
      rw [hfreed, List.count_append, released_count hf hok, if_neg hep, hs.inUse ep ⟨f', hf', hsome, hb⟩]
  block q f' hf' hsome := by
    rw [hblock]
    rw [hflows, Heap.get_modify] at hf'
    split at hf'
    · obtain ⟨f₀, -, rfl⟩ := Option.map_eq_some_iff.1 hf'
      cases hsome
    · exact hs.block q f' hf' hsome
  future ep hep := by
    rw [hallocated]
    exact hs.future ep (by rw [← hblock]; exact hep)

/-- A new block of elements without components. -/
theorem Minibufs.installed (hs : Minibufs s) (hf : s.flows.get p = some f) (hnone : f.elements = none)
    {clocked : Bool} {varLen : Nat} {els : List ServerElement} (hels : ∀ e ∈ els, e.component = none)
    (hflows : s'.flows = s.flows.modify p (·.install clocked s.nextBlock varLen els))
    (hallocated : s'.allocatedMinibufs = s.allocatedMinibufs) (hfreed : s'.freedMinibufs = s.freedMinibufs)
    (hblock : s'.nextBlock = s.nextBlock + 1) : Minibufs s' where
  balance ep := by
    rw [hallocated, hfreed, hs.balance ep]
    by_cases hep : ep.flow = p
    · subst hep
      have hinstalled : s'.flows.get ep.flow = some (f.install clocked s.nextBlock varLen els) := by
        rw [hflows, Heap.get_modify_self, hf]
        rfl
      rw [minibufsOf_noElements hf hnone, minibufsOf_some hinstalled]
      have hzero : ((((f.install clocked s.nextBlock varLen els).els[ep.num]?).map (·.wiring.minibufs)).getD 0) = 0 := by
        show (((els[ep.num]?).map (·.wiring.minibufs)).getD 0) = 0
        rcases hel : els[ep.num]? with - | e
        · rfl
        · have hw : e.wiring.component = none := hels e (List.mem_of_getElem? hel)
          simp [Wiring.minibufs, Wiring.attached, hw]
      rw [hzero, ite_self]
    · rw [minibufsOf_other hflows hep]
  once ep := by
    rw [hallocated]
    exact hs.once ep
  inUse ep huse := by
    obtain ⟨f', hf', hsome, hb⟩ := huse
    rw [hfreed]
    by_cases hep : ep.flow = p
    · rw [hep, hflows, Heap.get_modify_self, hf] at hf'
      cases hf'
      have hzero := hs.future ep (Nat.le_of_eq hb)
      have := hs.balance ep
      omega
    · rw [hflows, Heap.get_modify, if_neg hep] at hf'
      exact hs.inUse ep ⟨f', hf', hsome, hb⟩
  block q f' hf' hsome := by
    rw [hblock]
    rw [hflows, Heap.get_modify] at hf'
    split at hf'
    · rename_i hq
      subst hq
      rw [hf] at hf'
      cases hf'
      exact Nat.lt_succ_self _
    · exact Nat.lt_succ_of_lt (hs.block q f' hf' hsome)
  future ep hep := by
    rw [hallocated]
    exact hs.future ep (by omega)

/-- A new flow, without elements. -/
theorem Minibufs.created (hs : Minibufs s) {id : AuID} (hflows : s'.flows = s.flows.alloc { flowId := id })
    (hallocated : s'.allocatedMinibufs = s.allocatedMinibufs) (hfreed : s'.freedMinibufs = s.freedMinibufs)
    (hblock : s'.nextBlock = s.nextBlock) : Minibufs s' where
  balance ep := by
    rw [hallocated, hfreed, hs.balance ep]
    by_cases hep : ep.flow = s.flows.next
    · have hnew : s'.flows.get ep.flow = some { flowId := id } := by rw [hflows, Heap.get_alloc, if_pos hep]
      rw [minibufsOf_noElements hnew rfl, minibufsOf_none (s.flows.fresh _ (Nat.le_of_eq hep.symm))]
    · have hsame : s'.minibufsOf ep = s.minibufsOf ep := by
        rw [Server.minibufsOf, Server.minibufsOf, hflows, Heap.get_alloc, if_neg hep]
      rw [hsame]
  once ep := by
    rw [hallocated]
    exact hs.once ep
  inUse ep huse := by
    obtain ⟨f', hf', hsome, hb⟩ := huse
    rw [hfreed]
    rw [hflows, Heap.get_alloc] at hf'
    split at hf'
    · cases hf'
      cases hsome
    · exact hs.inUse ep ⟨f', hf', hsome, hb⟩
  block q f' hf' hsome := by
    rw [hblock]
    rw [hflows, Heap.get_alloc] at hf'
    split at hf'
    · cases hf'
      cases hsome
    · exact hs.block q f' hf' hsome
  future ep hep := by
    rw [hallocated]
    exact hs.future ep (by rw [← hblock]; exact hep)

/-- A flow without elements goes. -/
theorem Minibufs.freed (hs : Minibufs s) (hf : s.flows.get p = some f) (hnone : f.elements = none)
    (hflows : s'.flows = s.flows.free p) (hallocated : s'.allocatedMinibufs = s.allocatedMinibufs)
    (hfreed : s'.freedMinibufs = s.freedMinibufs) (hblock : s'.nextBlock = s.nextBlock) : Minibufs s' where
  balance ep := by
    rw [hallocated, hfreed, hs.balance ep]
    by_cases hep : ep.flow = p
    · subst hep
      have hgone : s'.flows.get ep.flow = none := by rw [hflows, Heap.get_free, if_pos rfl]
      rw [minibufsOf_noElements hf hnone, minibufsOf_none hgone]
    · have hsame : s'.minibufsOf ep = s.minibufsOf ep := by
        rw [Server.minibufsOf, Server.minibufsOf, hflows, Heap.get_free, if_neg hep]
      rw [hsame]
  once ep := by
    rw [hallocated]
    exact hs.once ep
  inUse ep huse := by
    obtain ⟨f', hf', hsome, hb⟩ := huse
    rw [hfreed]
    rw [hflows, Heap.get_free] at hf'
    split at hf'
    · cases hf'
    · exact hs.inUse ep ⟨f', hf', hsome, hb⟩
  block q f' hf' hsome := by
    rw [hblock]
    rw [hflows, Heap.get_free] at hf'
    split at hf'
    · cases hf'
    · exact hs.block q f' hf' hsome
  future ep hep := by
    rw [hallocated]
    exact hs.future ep (by rw [← hblock]; exact hep)

/-- The elements of a block got their components. -/
theorem Minibufs.compiled (hs : Minibufs s) (hf : s.flows.get p = some f) (hsome : f.elements.isSome)
    (hnone : ∀ e ∈ f.els, e.component = none) {st : Compiling AuFixedPoint}
    (hminibufs : ∀ i, st.minibufs.count i = ((st.elements[i]?).map (·.wiring.minibufs)).getD 0)
    (hflows : s'.flows = s.flows.modify p (·.setCompiled st))
    (hallocated : s'.allocatedMinibufs = s.allocatedMinibufs ++ st.minibufs.map fun i => ⟨p, f.block, i⟩)
    (hfreed : s'.freedMinibufs = s.freedMinibufs) (hblock : s'.nextBlock = s.nextBlock) : Minibufs s' := by
  have hcount (ep : ElementPtr) : s'.allocatedMinibufs.count ep = s.allocatedMinibufs.count ep +
      if ep.flow = p ∧ ep.block = f.block then st.minibufs.count ep.num else 0 := by
    rw [hallocated, List.count_append]
    congr 1
    by_cases hep : ep.flow = p ∧ ep.block = f.block
    · obtain ⟨q, b, i⟩ := ep
      obtain ⟨rfl, rfl⟩ := hep
      rw [if_pos ⟨rfl, rfl⟩]
      exact List.count_map_of_injective _ _ (fun i j hij => congrArg ElementPtr.num hij) _
    · rw [if_neg hep]
      refine List.count_eq_zero.2 fun hmem => hep ?_
      obtain ⟨i, -, rfl⟩ := List.mem_map.1 hmem
      exact ⟨rfl, rfl⟩
  have hbefore (i : Nat) : s.minibufsOf ⟨p, f.block, i⟩ = 0 := by
    rw [minibufsOf_some hf, if_pos rfl]
    rcases hel : f.els[i]? with - | e
    · rfl
    · have hw : e.wiring.component = none := hnone e (List.mem_of_getElem? hel)
      simp [Wiring.minibufs, Wiring.attached, hw]
  have hcompiled : s'.flows.get p = some (f.setCompiled st) := by rw [hflows, Heap.get_modify_self, hf]; rfl
  have hels : (f.setCompiled st).els = st.elements := by
    obtain ⟨els, hels⟩ := Option.isSome_iff_exists.1 hsome
    rw [Flow.els, Flow.setCompiled, hels]
    rfl
  refine ⟨fun ep => ?_, fun ep => ?_, fun ep huse => ?_, fun q f' hf' hsome' => ?_, fun ep hep => ?_⟩
  · rw [hcount, hfreed, hs.balance ep]
    by_cases hep : ep.flow = p
    · obtain ⟨q, b, i⟩ := ep
      subst hep
      rw [minibufsOf_some hcompiled, hels]
      by_cases hb : b = f.block
      · subst hb
        rw [if_pos ⟨rfl, rfl⟩, hbefore, hminibufs]
        rw [if_pos (show (f.setCompiled st).block = f.block from rfl), Nat.add_zero]
      · rw [if_neg fun h => hb h.2, minibufsOf_some hf, if_neg fun h : f.block = b => hb h.symm,
          if_neg fun h : (f.setCompiled st).block = b => hb (show b = f.block from h.symm), Nat.add_zero]
    · rw [if_neg fun h => hep h.1, minibufsOf_other hflows hep, Nat.add_zero]
  · rw [hcount]
    split
    · rename_i hep
      obtain ⟨q, b, i⟩ := ep
      obtain ⟨rfl, rfl⟩ := hep
      have hfree := hs.inUse ⟨q, f.block, i⟩ ⟨f, hf, hsome, rfl⟩
      have hbal := hs.balance ⟨q, f.block, i⟩
      have hle : st.minibufs.count i ≤ 1 := by
        rw [hminibufs]
        rcases st.elements[i]? with - | e
        · exact Nat.zero_le 1
        · simp only [Option.map_some, Option.getD_some, Wiring.minibufs, Wiring.attached]
          split
          · split
            · exact Nat.le_refl 1
            · exact Nat.zero_le 1
          · exact Nat.zero_le 1
      rw [hbefore i] at hbal
      dsimp only
      omega
    · exact hs.once ep
  · obtain ⟨f', hf', hsome', hb⟩ := huse
    rw [hfreed]
    rw [hflows, Heap.get_modify] at hf'
    split at hf'
    · rename_i hep
      rw [hep, hf] at hf'
      cases hf'
      exact hs.inUse ep ⟨f, hep ▸ hf, hsome, hb⟩
    · exact hs.inUse ep ⟨f', hf', hsome', hb⟩
  · rw [hblock]
    rw [hflows, Heap.get_modify] at hf'
    split at hf'
    · rename_i hq
      subst hq
      rw [hf] at hf'
      cases hf'
      exact hs.block q f hf hsome
    · exact hs.block q f' hf' hsome'
  · rw [hcount, hs.future ep (by rw [← hblock]; exact hep), if_neg, Nat.zero_add]
    rintro ⟨-, hb⟩
    have := hs.block p f hf hsome
    omega

end

/-! ### The rule -/

theorem Component.still_refCnt {c c' : Component} (h : c'.still = c.still) : c'.refCnt = c.refCnt :=
  congrArg (·.refCnt) h

theorem AuElement.setParameters_wiring (v : Nat → Nat) (el : ServerElement) :
    ({ el with raw := el.raw.setParameters v, parmsChanged := true } : ServerElement).wiring = el.wiring := by
  cases hraw : el.raw <;>
    simp [FlowElement.wiring, hraw, AuElement.setParameters, AuElement.isImport, AuElement.isExport,
      AuElement.isImportBucket, AuElement.isExportBucket]

theorem accounts_compiled {hand : List ComponentPtr} {env : Env} {s s' : Server} {p : FlowPtr} {f : ServerFlow}
    {status : AuStatus} (hs : Accounts hand s) (hf : s.flows.get p = some f) (hnil : f.compiled.outputs = [])
    (he : compileFlow env p s = .ok (status, s')) : Accounts hand s' := by
  obtain ⟨f', hf', he⟩ := Exec.bind_eq_ok.1 he
  rw [Server.flow, Exec.deref_eq_ok] at hf'
  obtain rfl : f = f' := Option.some.inj (hf.symm.trans hf')
  obtain ⟨⟨status₁, st⟩, hst, he⟩ := Exec.bind_eq_ok.1 he
  cases he
  have hok := hs.flows p f hf
  have hwired : Wired p f.block (f.els.map (·.wiring)) [] := hnil ▸ hok.wired
  have hnone (e : ServerElement) (hel : e ∈ f.els) : e.component = none :=
    hwired.component_none (List.mem_map_of_mem hel)
  have hwiring (i : Nat) : (((f.els[i]?).map (·.wiring.minibufs)).getD 0) = 0 := by
    rcases hel : f.els[i]? with - | e
    · rfl
    · have hw : e.wiring.component = none := hnone e (List.mem_of_getElem? hel)
      simp [Wiring.minibufs, Wiring.attached, hw]
  have hlookup (id : AuID) (q : ComponentPtr) (hq : (s.compileEnv env p f).lookup id = some q) :
      hand.count q + s.owners q ≠ 0 := by
    have := ClientTable.owners_of_lookup hq
    unfold Server.owners
    omega
  have hstart : Counted (s.compileEnv env p f) (fun q => hand.count q + s.owners q) 0
      { elements := f.els, comps := s.comps, nextComponent := s.nextComponent, allocs := 0, outputs := []
        inputs := [] } [] :=
    { ledger := hs.ledger
      fresh := hs.fresh
      wired := hwired
      unmarked := fun e hel _ => hnone e hel
      ahead := fun i e _ hel _ => hnone e (List.mem_of_getElem? hel)
      minibufs := fun i => by rw [hwiring]; rfl }
  obtain ⟨n, hcounted⟩ := (countRule hlookup).keeps_auCompileFlow hstart hst
  rcases hels : f.elements with - | els
  · -- without elements nothing happens
    have helsNil : f.els = [] := by rw [Flow.els, hels]; rfl
    rw [auCompileFlow, helsNil] at hst
    cases hst
    refine hs.same (.modify rfl (fun f₀ hf₀ => ?_) ?_ rfl rfl) (fun _ => rfl) rfl hs.table fun _ => rfl
    · obtain rfl : f = f₀ := Option.some.inj (hf.symm.trans hf₀)
      simp [Flow.frame, Flow.setCompiled, hels, hnil]
    · exact List.append_nil _
  · have hsome : f.elements.isSome := by rw [hels]; rfl
    refine
      { ledger := hcounted.ledger.congr (fun _ => rfl) fun q => ?_
        fresh := hcounted.fresh
        table := hs.table
        flows := fun q f₁ hf₁ => ?_
        minibufs := hs.minibufs.compiled hf hsome hnone hcounted.minibufs rfl rfl rfl rfl }
    · have hmodify := flowOwners_modify (g := (·.setCompiled st)) hf q
      have hold : f.compiled.owned.count q = 0 := by rw [CompiledFlow.owned, hnil]; rfl
      have hnew : (f.setCompiled st).compiled.owned = (⟨st.outputs⟩ : CompiledFlow AuFixedPoint).owned := rfl
      rw [hold, hnew] at hmodify
      unfold Server.owners
      dsimp only
      omega
    · dsimp only at hf₁
      rw [Heap.get_modify] at hf₁
      split at hf₁
      · rename_i hq
        subst hq
        rw [hf, Option.map_some] at hf₁
        obtain rfl : f.setCompiled st = f₁ := Option.some.inj hf₁
        refine ⟨fun h => ?_, ?_⟩
        · rw [Flow.setCompiled, hels] at h
          cases h
        · have hels' : (f.setCompiled st).els = st.elements := by
            rw [Flow.els, Flow.setCompiled, hels]
            rfl
          rw [hels']
          exact hcounted.wired
      · exact hs.flows q f₁ hf₁

theorem accounts_rule : Rule Accounts where
  idle hs hf hnone := (hs.flows _ _ hf).idle hnone
  static {h s s'} hs hst := by
    have hframe (p : FlowPtr) : (s'.flows.get p).map Flow.frame = (s.flows.get p).map Flow.frame := by
      have := congrArg (Option.map Flow.frame) (hst.flows p)
      rw [Option.map_map, Option.map_map] at this
      rwa [show Flow.frame ∘ Flow.fixed = Flow.frame from funext Flow.frame_fixed] at this
    have hcomps (q : ComponentPtr) : (s'.comps q).map Component.refCnt = (s.comps q).map Component.refCnt := by
      have := congrArg (Option.map Component.refCnt) (hst.comps q)
      rwa [Option.map_map, Option.map_map] at this
    have hfixed := hst.fixed
    refine hs.same ⟨hframe, hst.next, congrArg (·.allocatedMinibufs) hfixed, congrArg (·.freedMinibufs) hfixed,
      hst.nextBlock⟩ hcomps (congrArg (·.nextComponent) hfixed) ?_ fun q => ?_
    · rw [hst.clientTable]
      exact hs.table
    · rw [hst.clientTable]
  unlinked {h s s'} hs hlinks := by
    have hflows : s'.flows = s.flows := congrArg (·.flows) hlinks
    have htable : s'.clientTable = s.clientTable := congrArg (·.clientTable) hlinks
    have hcomps : s'.comps = s.comps := congrArg (·.comps) hlinks
    refine hs.same ⟨fun p => by rw [hflows], by rw [hflows], congrArg (·.allocatedMinibufs) hlinks,
      congrArg (·.freedMinibufs) hlinks, congrArg (·.nextBlock) hlinks⟩ (fun q => by rw [hcomps])
      (congrArg (·.nextComponent) hlinks) ?_ fun q => ?_
    · rw [htable]
      exact hs.table
    · rw [htable]
  connected hs hnone := hs.same ⟨fun _ => rfl, rfl, rfl, rfl, rfl⟩ (fun _ => rfl) rfl
    (hs.table.update .init fun _ _ => ClientResource.owners_init _) fun q => by
      rw [ClientTable.owners_connect hnone]
  created {h s id links} hs := by
    refine
      { ledger := hs.ledger.congr (fun _ => rfl) fun q => ?_
        fresh := hs.fresh
        table := hs.table
        flows := fun p f hf => ?_
        minibufs := ?_ }
    · unfold Server.owners
      dsimp only
      rw [flowOwners_alloc rfl]
    · dsimp only at hf
      rw [Heap.get_alloc] at hf
      split at hf
      · cases hf
        exact ⟨fun _ => rfl, .nil fun _ hw => by cases hw⟩
      · exact hs.flows p f hf
    · exact hs.minibufs.created rfl rfl rfl rfl
  grown hs hc := hs.same ⟨fun _ => rfl, rfl, rfl, rfl, rfl⟩ (fun _ => rfl) rfl
    (hs.table.update ((hs.table.client _ _ hc).grow _) fun hge p => by
      rw [(hs.table.client _ _ hc).owners_grow, hs.table.stranger _ _ hc hge]) fun q => by
      rw [ClientTable.owners_grow hs.table hc]
  added {h s c r mem} hs hc := by
    have hwf := (hs.table.client _ _ hc).grow mem
    refine hs.same ⟨fun _ => rfl, rfl, rfl, rfl, rfl⟩ (fun _ => rfl) rfl (hs.table.update (hwf.modifyChain _ _ _) fun hge =>
      absurd (ClientTable.clientId_lt r.id) (Nat.not_lt.2 hge)) fun q => ?_
    rw [ClientTable.owners_add hs.table hc, List.count_append]
    omega
  taken {h s id} hs := hs.same ⟨fun _ => rfl, rfl, rfl, rfl, rfl⟩ (fun _ => rfl) rfl (hs.table.take id) fun q => by
    have := ClientTable.owners_take s.clientTable id q
    rw [List.count_append]
    dsimp only
    omega
  closed {h s client} hs := hs.same ⟨fun _ => rfl, rfl, rfl, rfl, rfl⟩ (fun _ => rfl) rfl (hs.table.remove client) fun q => by
    have := ClientTable.owners_close hs.table client q
    rw [List.count_append]
    dsimp only
    omega
  givenBack {h s s' p} hs he := by
    have hledger : Ledger Component.refCnt s.comps fun q => (h.count q + s.owners q) + if q = p then 1 else 0 := by
      refine hs.ledger.congr (fun _ => rfl) fun q => ?_
      by_cases hq : q = p
      · subst hq
        rw [if_pos rfl, List.count_cons_self]
        omega
      · rw [if_neg hq, List.count_cons_of_ne (Ne.symm hq), Nat.add_zero]
    obtain ⟨hrest, hledger', hnone⟩ := auFreeComponent_ledger hledger he
    have hflows : s'.flows = s.flows := congrArg (·.flows) hrest
    have htable : s'.clientTable = s.clientTable := congrArg (·.clientTable) hrest
    have hframes : SameFrames s s' := ⟨fun p => by rw [hflows], by rw [hflows],
      congrArg (·.allocatedMinibufs) hrest, congrArg (·.freedMinibufs) hrest, congrArg (·.nextBlock) hrest⟩
    have hnext : s'.nextComponent = s.nextComponent := congrArg (·.nextComponent) hrest
    exact
      { ledger := hledger'.congr (fun _ => rfl) fun q => by rw [Server.owners, Server.owners, htable, hflows]
        fresh := fun q hq => hnone q (hs.fresh q (by rw [← hnext]; exact hq))
        table := by rw [htable]; exact hs.table
        flows := fun q f hf => hs.flows q f (by rw [← hflows]; exact hf)
        minibufs := hframes.minibufs hs.minibufs }
  emptied {h s s' p f} hs hf he := by
    rw [freeCompiledFlow_eq] at he
    have hledger : Ledger Component.refCnt s.comps fun q =>
        (h.count q + (s.clientTable.owners q + flowOwners (s.flows.modify p Flow.dropElements) q)) +
          f.compiled.owned.count q := by
      refine hs.ledger.congr (fun _ => rfl) fun q => ?_
      have hmodify := flowOwners_modify (g := Flow.dropElements) hf q
      have hzero : f.dropElements.compiled.owned.count q = 0 := rfl
      unfold Server.owners
      omega
    obtain ⟨hrest, hledger', hnone⟩ := freeAll_ledger hledger he
    have hflows : s'.flows = s.flows := congrArg (·.flows) hrest
    have htable : s'.clientTable = s.clientTable := congrArg (·.clientTable) hrest
    have hallocated : s'.allocatedMinibufs = s.allocatedMinibufs := congrArg (·.allocatedMinibufs) hrest
    have hfreed : s'.freedMinibufs = s.freedMinibufs := congrArg (·.freedMinibufs) hrest
    have hblock : s'.nextBlock = s.nextBlock := congrArg (·.nextBlock) hrest
    have hnext : s'.nextComponent = s.nextComponent := congrArg (·.nextComponent) hrest
    refine
      { ledger := hledger'.congr (fun _ => rfl) fun q => ?_
        fresh := fun q hq => hnone q (hs.fresh q (by rw [← hnext]; exact hq))
        table := by dsimp only; rw [htable]; exact hs.table
        flows := fun q f' hf' => ?_
        minibufs := hs.minibufs.emptied hf (hs.flows p f hf) (by dsimp only; rw [hflows]) hallocated
          (by dsimp only; rw [hfreed]) hblock }
    · unfold Server.owners
      dsimp only
      rw [htable, hflows]
    · dsimp only at hf'
      rw [hflows, Heap.get_modify] at hf'
      split at hf'
      · obtain ⟨f₀, -, rfl⟩ := Option.map_eq_some_iff.1 hf'
        exact ⟨fun _ => rfl, .nil fun _ hw => by cases hw⟩
      · exact hs.flows q f' hf'
  freed {h s p f} hs hf hnone := by
    have hnil := (hs.flows p f hf).idle hnone
    refine
      { ledger := hs.ledger.congr (fun _ => rfl) fun q => ?_
        fresh := hs.fresh
        table := hs.table
        flows := fun q f' hf' => ?_
        minibufs := ?_ }
    · have hfree := flowOwners_free hf q
      have hold : f.compiled.owned.count q = 0 := by rw [CompiledFlow.owned, hnil]; rfl
      unfold Server.owners
      dsimp only
      omega
    · dsimp only at hf'
      rw [Heap.get_free] at hf'
      split at hf'
      · cases hf'
      · exact hs.flows q f' hf'
    · exact hs.minibufs.freed hf hnone rfl rfl rfl rfl
  installed {h s p f clocked els raws} hs hf hnone hfresh := by
    have hnil := (hs.flows p f hf).idle hnone
    have hcomponent (e : ServerElement) (he : e ∈ els) : e.component = none := (hfresh.compiled e he).2.1
    refine
      { ledger := hs.ledger.congr (fun _ => rfl) fun q => ?_
        fresh := hs.fresh
        table := hs.table
        flows := fun q f' hf' => ?_
        minibufs := hs.minibufs.installed hf hnone hcomponent rfl rfl rfl rfl }
    · have hmodify := flowOwners_modify (g := (·.install clocked s.nextBlock (raws.map (·.varLen)).sum els)) hf q
      have hsame : (f.install clocked s.nextBlock (raws.map (·.varLen)).sum els).compiled = f.compiled := rfl
      rw [hsame] at hmodify
      unfold Server.owners
      dsimp only
      omega
    · dsimp only at hf'
      rw [Heap.get_modify] at hf'
      split at hf'
      · rename_i hq
        subst hq
        rw [hf, Option.map_some] at hf'
        obtain rfl : f.install clocked s.nextBlock (raws.map (·.varLen)).sum els = f' := Option.some.inj hf'
        refine ⟨fun h => (by cases h), ?_⟩
        have hinstalled : (f.install clocked s.nextBlock (raws.map (·.varLen)).sum els).compiled.outputs = [] := hnil
        rw [hinstalled]
        refine .nil fun w hw => ?_
        obtain ⟨e, he, rfl⟩ := List.mem_map.1 hw
        exact ⟨hcomponent e he, (hfresh.compiled e he).2.2⟩
      · exact hs.flows q f' hf'
  compiled hs hf hnil he := accounts_compiled hs hf hnil he
  recompiled {h s p f f' fuel status} hs hf he := by
    obtain ⟨⟨status₁, outputs⟩, houtputs, he⟩ := Exec.bind_eq_ok.1 he
    cases he
    refine hs.same (.modify rfl (fun f₀ hf₀ => ?_) rfl rfl rfl) (fun _ => rfl) rfl hs.table fun _ => rfl
    obtain rfl : f = f₀ := Option.some.inj (hf.symm.trans hf₀)
    rw [Flow.frame, Flow.frame, recompileOutputs_outline houtputs]
  parameters {h s p i el v} hs hel := by
    refine hs.same (.modify rfl (fun f hf => ?_) rfl rfl rfl) (fun _ => rfl) rfl hs.table fun _ => rfl
    rw [Server.element, hf] at hel
    rcases hels : f.elements with - | els
    · simp [Flow.frame, Flow.setElement, hels]
    · have hi : els[i]? = some el := by simpa [Flow.els, hels] using hel
      have hwiring := map_set_self hi (AuElement.setParameters_wiring v el)
      simp only [Flow.frame, Flow.setElement, hels, Option.map_some, hwiring]
  noted {h s p g} hs hg := by
    refine hs.same (.modify rfl (fun f _ => ?_) rfl rfl rfl) (fun _ => rfl) rfl hs.table fun _ => rfl
    obtain ⟨trivial, needsRecompile, count, heq⟩ := hg f
    rw [heq]
    rfl
  bucket {h s env a} hs := by
    have hnone := hs.fresh s.nextComponent (Nat.le_refl _)
    refine
      { ledger := hs.ledger.create hnone rfl fun q => ?_
        fresh := fun q hq => ?_
        table := hs.table
        flows := hs.flows
        minibufs := ⟨hs.minibufs.balance, hs.minibufs.once, hs.minibufs.inUse, hs.minibufs.block, hs.minibufs.future⟩ }
    · by_cases hq : q = s.nextComponent
      · subst hq
        rw [if_pos rfl, List.count_cons_self]
        show h.count _ + 1 + s.owners _ = _
        omega
      · rw [if_neg hq, List.count_cons_of_ne (Ne.symm hq), Nat.add_zero]
        rfl
    · have hlt : s.nextComponent < q := hq
      dsimp only
      rw [Function.update_of_ne (Nat.ne_of_gt hlt)]
      exact hs.fresh q (Nat.le_of_lt hlt)
  contents {h s p c c'} hs hc hstill := by
    refine hs.same ⟨fun _ => rfl, rfl, rfl, rfl, rfl⟩ (fun q => ?_) rfl hs.table fun _ => rfl
    dsimp only [Server.setComponent]
    by_cases hq : q = p
    · subst hq
      rw [Function.update_self, hc, Option.map_some, Option.map_some, Component.still_refCnt hstill]
    · rw [Function.update_of_ne hq]

/-! ### Runs -/

/-- A server as it starts: each device has its record, and there are no flows. -/
structure Started (s : Server) : Prop where
  flows : ∀ p, s.flows.get p = none
  table : s.clientTable.Wf
  fresh : ∀ p, s.nextComponent ≤ p → s.comps p = none
  device : ∀ p c, s.comps p = some c → c.refCnt = 0 ∧ s.clientTable.owners p = 1
  noDevice : ∀ p, s.comps p = none → s.clientTable.owners p = 0
  allocatedMinibufs : s.allocatedMinibufs = []
  freedMinibufs : s.freedMinibufs = []

section
variable {s s₀ : Server}

theorem flowOwners_none {flows : Heap ServerFlow} (h : ∀ p, flows.get p = none) (q : ComponentPtr) :
    flowOwners flows q = 0 := by
  refine Finset.sum_eq_zero fun p _ => ?_
  rw [h p]
  rfl

theorem Started.accounts (h : Started s) : Accounts [] s where
  ledger p := by
    dsimp only [Server.owners]
    rw [flowOwners_none h.flows, List.count_nil, Nat.zero_add, Nat.add_zero]
    rcases hc : s.comps p with - | c
    · exact h.noDevice p hc
    · obtain ⟨hrefCnt, howners⟩ := h.device p c hc
      rw [howners, Option.map_some, Option.getD_some, hrefCnt]
  fresh := h.fresh
  table := h.table
  flows p f hf := by
    rw [h.flows p] at hf
    cases hf
  minibufs := by
    refine ⟨fun ep => ?_, fun ep => ?_, fun ep huse => ?_, fun p f hf => ?_, fun ep _ => ?_⟩
    · rw [h.allocatedMinibufs, h.freedMinibufs, minibufsOf_none (h.flows _), Nat.add_zero]
    · rw [h.allocatedMinibufs]
      exact Nat.zero_le 1
    · rw [h.freedMinibufs]
      rfl
    · rw [h.flows p] at hf
      cases hf
    · rw [h.allocatedMinibufs]
      rfl

/-- In every run in which buckets are made for clients in use, a component has one owner more than its count says,
it is there as long as it has owners, and each minibuffer is freed once. -/
theorem reference_counts (hs₀ : Started s₀) (h : Reach step (fun s i => Rule.KnownClient s i.2) s₀ s) : Accounted s := by
  have hs : Accounts [] s := accounts_rule.reach_known hs₀.accounts h
  have howners (p : ComponentPtr) : s.owners p = ((s.comps p).map fun c => c.refCnt + 1).getD 0 := by
    have hledger : ([] : List ComponentPtr).count p + s.owners p = _ := hs.ledger p
    rwa [List.count_nil, Nat.zero_add] at hledger
  refine ⟨fun p c hc => ?_, fun p hp => ?_, fun ep => ⟨hs.minibufs.once ep, hs.minibufs.balance ep⟩⟩
  · rw [howners, hc]
    rfl
  · rw [howners, hp]
    rfl

end

/-- Attributes of a bucket of a client, with its id. -/
def bucketRequest (client : Nat) : Env × Input :=
  (⟨false, 4, 4, fun _ => true, fun _ _ => true⟩,
    .request (.createBucket (client * 2 ^ 22) true true ⟨client * 2 ^ 22, 0, 1, 1, 8000, 4, 0⟩))

def connectRequest (client : Nat) : Env × Input :=
  (⟨false, 4, 4, fun _ => true, fun _ _ => true⟩, .request (.connect client))

theorem started_empty : Started {} where
  flows _ := rfl
  table := ⟨fun _ _ hc => (by cases hc), fun _ _ hc => (by cases hc)⟩
  fresh _ _ := rfl
  device _ _ hc := by cases hc
  noDevice _ _ := Finset.sum_eq_zero fun _ _ => rfl
  allocatedMinibufs := rfl
  freedMinibufs := rfl

/-- A client that makes a bucket of its own. -/
theorem ownBucket_counted : ∃ (s : Server) (c : Component), s.comps 0 = some c ∧ c.refCnt + 1 = s.owners 0 := by
  have h₀ : Reach step (fun s i => Rule.KnownClient s i.2) {} {} := .init
  have h₁ := h₀.step (connectRequest 1) (fun _ _ _ _ hi => by cases hi) rfl
  have hrun : ∃ s, step { clientTable := Function.update (fun _ => none) 1 (some initClientResources) }
      (bucketRequest 1) = .ok s ∧ (s.comps 0).isSome := ⟨_, rfl, rfl⟩
  obtain ⟨s, hs, hsome⟩ := hrun
  have h₂ := h₁.step (bucketRequest 1) (fun _ _ _ _ hi => by cases hi; rfl) hs
  obtain ⟨c, hc⟩ := Option.isSome_iff_exists.1 hsome
  exact ⟨s, c, hc, (reference_counts started_empty h₂).counted 0 c hc⟩

/-- A bucket with an id of a client that is not in use is there without an owner. -/
theorem strangersBucket_not_counted : ¬ ∀ s₀ s, Started s₀ → Reach step (fun _ _ => True) s₀ s → Accounted s := by
  intro h
  have hrun : ∃ s c, step {} (bucketRequest 5) = .ok s ∧ s.comps 0 = some c ∧ s.clientTable = (fun _ => none) ∧
      s.flows = .empty := ⟨_, _, rfl, rfl, rfl, rfl⟩
  obtain ⟨s, c, hs, hc, htable, hflows⟩ := hrun
  have hcounted := (h {} s started_empty (.step _ .init trivial hs)).counted 0 c hc
  have hrecords : s.clientTable.owners 0 = 0 := by
    rw [htable]
    exact Finset.sum_eq_zero fun _ _ => rfl
  have hinputs : flowOwners s.flows 0 = 0 := by
    rw [hflows]
    exact flowOwners_none (fun _ => rfl) 0
  unfold Server.owners at hcounted
  omega

end Nas
