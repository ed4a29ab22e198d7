import Nas.RefCount
import Nas.TrackBounds

/-!
# The tracks of flows over runs

A component keeps its number of tracks as long as there is one, and a flow the tracks of its compiled inputs as long
as it has the same elements (`Since`). So what `auCompileFlow_inBounds_iff` says of a flow that was just compiled
holds for every tick until the next `SetElements`.
-/

namespace Nas

/-- What `accumulateOutput` takes from an output and its inputs besides the constants. -/
def CompiledOutput.tracks {K : Type} (o : CompiledOutput K) :
    ComponentPtr × List (ComponentPtr × Nat × List Nat × List Nat) :=
  (o.component, o.inputs.map fun input => (input.component, input.numTracks, input.inTrack, input.outTrack))

/-! ### Components -/

section
variable {comps comps' : ComponentPtr → Option Component} {s s' : Server} {p : ComponentPtr}

/-- Where there are components before and after, they have the same tracks. -/
def KeepsTracks (comps comps' : ComponentPtr → Option Component) : Prop :=
  ∀ p m n, tracksAt comps p = some m → tracksAt comps' p = some n → n = m

theorem KeepsTracks.of_eq (h : ∀ p, tracksAt comps' p = tracksAt comps p) : KeepsTracks comps comps' := by
  intro p m n hm hn
  rw [h, hm] at hn
  exact (Option.some.inj hn).symm

theorem tracksAt_map {g : Component → Component} (hg : ∀ c, (g c).numTracks = c.numTracks)
    (h : (comps' p).map g = (comps p).map g) : tracksAt comps' p = tracksAt comps p := by
  have hmap := congrArg (Option.map (·.numTracks)) h
  rw [Option.map_map, Option.map_map, show (·.numTracks) ∘ g = (·.numTracks) from funext hg] at hmap
  exact hmap

theorem tracksAt_isSome {c : Component} (hc : comps p = some c) : tracksAt comps p = some c.numTracks := by
  rw [tracksAt, hc]
  rfl

/-- What is left of components that are given back. -/
def Survives (comps comps' : ComponentPtr → Option Component) : Prop :=
  ∀ p, comps' p = none ∨ tracksAt comps' p = tracksAt comps p

theorem Survives.keeps (h : Survives comps comps') : KeepsTracks comps comps' := by
  intro p m n hm hn
  rcases h p with hnone | heq
  · rw [tracksAt, hnone] at hn
    cases hn
  · rw [heq, hm] at hn
    exact (Option.some.inj hn).symm

theorem auFreeComponent_survives (he : auFreeComponent p s = .ok s') : Survives s.comps s'.comps := by
  obtain ⟨-, c, hc, hcomps⟩ := auFreeComponent_cases he
  intro q
  rw [hcomps]
  by_cases hq : q = p
  · subst hq
    rw [Function.update_self]
    split
    · exact .inl rfl
    · exact .inr (by rw [tracksAt, tracksAt, Function.update_self, hc]; rfl)
  · exact .inr (by rw [tracksAt, tracksAt, Function.update_of_ne hq])

theorem freeCompiledFlow_survives {cmp : CompiledFlow AuFixedPoint} (he : freeCompiledFlow cmp s = .ok s') :
    Survives s.comps s'.comps ∧ s'.rest = s.rest := by
  rw [freeCompiledFlow_eq] at he
  refine Exec.foldlM_rel (R := fun s s' : Server => Survives s.comps s'.comps ∧ s'.rest = s.rest)
    (fun _ => ⟨fun _ => .inr rfl, rfl⟩) (fun a b c hab hbc => ⟨fun q => ?_, hbc.2.trans hab.2⟩)
    (fun p _ s s' he => ⟨auFreeComponent_survives he, (auFreeComponent_cases he).1⟩) he
  rcases hbc.1 q with hnone | hq
  · exact .inl hnone
  · rcases hab.1 q with hnone | hq'
    · left
      rw [tracksAt, tracksAt, hnone] at hq
      exact Option.map_eq_none_iff.1 hq
    · exact .inr (hq.trans hq')

end

/-! ### References that are lost -/

section
variable {h h' : List ComponentPtr} {s s' : Server} {p : FlowPtr} {f : ServerFlow} {q : ComponentPtr}

theorem Accounts.perm (hperm : h.Perm h') (hs : Accounts h s) : Accounts h' s where
  ledger := hs.ledger.congr (fun _ => rfl) fun q => by rw [hperm.count_eq]
  fresh := hs.fresh
  table := hs.table
  flows := hs.flows
  minibufs := hs.minibufs

theorem Accounts.live (hs : Accounts h s) (hq : s.owners q ≠ 0) : (s.comps q).isSome := by
  obtain ⟨c, hc, -⟩ := hs.ledger.live (p := q) (by omega)
  rw [hc]
  rfl

/-- What is looked up is there. -/
theorem Accounts.live_lookup (hs : Accounts h s) {id : AuID} (hq : lookupIDByType s.clientTable id .auComponentType = some q) :
    (s.comps q).isSome := by
  refine hs.live ?_
  have := ClientTable.owners_of_lookup hq
  unfold Server.owners
  omega

/-- What a flow is compiled to is there. -/
theorem Accounts.live_owned (hs : Accounts h s) (hf : s.flows.get p = some f) (hq : q ∈ f.compiled.owned) :
    (s.comps q).isSome := by
  refine hs.live ?_
  have hle := le_sum (fun k => ((s.flows.get k).map fun f => f.compiled.owned.count q).getD 0) (Heap.lt_next hf)
  rw [hf] at hle
  have hpos : 0 < f.compiled.owned.count q := List.count_pos_iff.2 hq
  have hflow : f.compiled.owned.count q ≤ flowOwners s.flows q := hle
  unfold Server.owners
  omega

theorem owned_tracks (cmp : CompiledFlow AuFixedPoint) :
    cmp.owned = (cmp.outputs.map (·.tracks)).flatMap fun t => t.2.map Prod.fst ++ [t.1] := by
  rw [CompiledFlow.owned, List.flatMap_map]
  refine List.flatMap_congr fun o _ => ?_
  rw [CompiledOutput.owned, CompiledOutput.tracks, List.map_map]
  rfl

/-- Whether outputs are in bounds is a matter of their tracks and of the components they lead to. -/
theorem inBounds_congr {cmp cmp' : CompiledFlow AuFixedPoint} {comps comps' : ComponentPtr → Option Component}
    (htracks : cmp'.outputs.map (·.tracks) = cmp.outputs.map (·.tracks))
    (hcomps : ∀ q ∈ cmp.owned, tracksAt comps' q = tracksAt comps q) :
    (∀ o ∈ cmp'.outputs, o.InBounds comps') ↔ ∀ o ∈ cmp.outputs, o.InBounds comps := by
  -- said of the tracks alone
  have key (comps : ComponentPtr → Option Component) (cmp : CompiledFlow AuFixedPoint) :
      (∀ o ∈ cmp.outputs, o.InBounds comps) ↔ ∀ t ∈ cmp.outputs.map (·.tracks), ∀ x ∈ t.2, ∃ nIn nOut,
        tracksAt comps x.1 = some nIn ∧ tracksAt comps t.1 = some nOut ∧ x.2.1 = x.2.2.1.length ∧
          TracksInBounds nIn nOut x.2.2.1 x.2.2.2 := by
    simp only [List.forall_mem_map]
    refine forall₂_congr fun o _ => ?_
    simp only [CompiledOutput.tracks, List.forall_mem_map]
    rfl
  rw [key, key, htracks]
  refine forall₂_congr fun t ht => forall₂_congr fun x hx => ?_
  have howned (q : ComponentPtr) (hq : q ∈ t.2.map Prod.fst ++ [t.1]) : tracksAt comps' q = tracksAt comps q := by
    refine hcomps q ?_
    rw [owned_tracks]
    exact List.mem_flatMap.2 ⟨t, ht, hq⟩
  rw [howned x.1 (List.mem_append_left _ (List.mem_map_of_mem hx)), howned t.1 (by simp)]

end

/-! ### Since the elements were set -/

/-- The flow has the tracks it had in `s₁`, if it still has those elements. -/
structure Since (s₁ : Server) (p : FlowPtr) (f₁ : ServerFlow) (h : List ComponentPtr) (s : Server) : Prop where
  accounts : Accounts h s
  block : f₁.block < s.nextBlock
  flow : ∀ f, s.flows.get p = some f → f.elements.isSome → f.block = f₁.block →
    f.compiled.outputs.map (·.tracks) = f₁.compiled.outputs.map (·.tracks) ∧
      (f₁.compiled.outputs = [] → ∀ e ∈ f.els, e.raw.isExport = false) ∧
      ∀ q ∈ f₁.compiled.owned, tracksAt s.comps q = tracksAt s₁.comps q

namespace Since
variable {s₁ s s' : Server} {p : FlowPtr} {f₁ : ServerFlow} {h h' : List ComponentPtr}

/-- A part of a step that neither compiles the flow nor gives it other elements. -/
theorem survive (hs : Since s₁ p f₁ h s) (haccounts : Accounts h' s') (hblock : s.nextBlock ≤ s'.nextBlock)
    (hcomps : ∀ q, (s.comps q).isSome → s'.comps q = none ∨ tracksAt s'.comps q = tracksAt s.comps q)
    (hflow : ∀ f', s'.flows.get p = some f' → f'.elements.isSome → f'.block = f₁.block →
      ∃ f, s.flows.get p = some f ∧ f.elements.isSome ∧ f.block = f₁.block ∧
        f'.compiled.outputs.map (·.tracks) = f.compiled.outputs.map (·.tracks) ∧
        f'.els.map (·.raw.isExport) = f.els.map (·.raw.isExport)) :
    Since s₁ p f₁ h' s' where
  accounts := haccounts
  block := Nat.lt_of_lt_of_le hs.block hblock
  flow f' hf' hsome' hblock' := by
    obtain ⟨f, hf, hsome, hfblock, houtputs, hexports⟩ := hflow f' hf' hsome' hblock'
    obtain ⟨htracks, hidle, hcomps₁⟩ := hs.flow f hf hsome hfblock
    refine ⟨houtputs.trans htracks, fun hnil e' he' => ?_, fun q hq => ?_⟩
    · have hmem : e'.raw.isExport ∈ f.els.map (·.raw.isExport) := by
        rw [← hexports]
        exact List.mem_map_of_mem he'
      obtain ⟨e, he, heq⟩ := List.mem_map.1 hmem
      rw [← heq]
      exact hidle hnil e he
    · have hq' : q ∈ f'.compiled.owned := by
        rw [owned_tracks, houtputs, htracks, ← owned_tracks]
        exact hq
      have hqs : q ∈ f.compiled.owned := by
        rw [owned_tracks, htracks, ← owned_tracks]
        exact hq
      rcases hcomps q (hs.accounts.live_owned hf hqs) with hnone | heq
      · have hlive := haccounts.live_owned hf' hq'
        rw [hnone] at hlive
        cases hlive
      · rw [heq, hcomps₁ q hq]

/-- The flows stay. -/
theorem sameFlows (hs : Since s₁ p f₁ h s) (haccounts : Accounts h' s') (hflows : s'.flows = s.flows)
    (hblock : s'.nextBlock = s.nextBlock)
    (hcomps : ∀ q, (s.comps q).isSome → s'.comps q = none ∨ tracksAt s'.comps q = tracksAt s.comps q) :
    Since s₁ p f₁ h' s' := by
  refine hs.survive haccounts (Nat.le_of_eq hblock.symm) hcomps fun f hf hsome hfblock => ?_
  rw [hflows] at hf
  exact ⟨f, hf, hsome, hfblock, rfl, rfl⟩

/-- One flow changes. -/
theorem modified {p' : FlowPtr} {g : ServerFlow → ServerFlow} (hs : Since s₁ p f₁ h s) (haccounts : Accounts h' s')
    (hflows : s'.flows = s.flows.modify p' g) (hblock : s.nextBlock ≤ s'.nextBlock)
    (hcomps : ∀ q, (s.comps q).isSome → s'.comps q = none ∨ tracksAt s'.comps q = tracksAt s.comps q)
    (hg : ∀ f, s.flows.get p' = some f → p' = p → (g f).elements.isSome → (g f).block = f₁.block →
      f.elements.isSome ∧ f.block = f₁.block ∧
        (g f).compiled.outputs.map (·.tracks) = f.compiled.outputs.map (·.tracks) ∧
        (g f).els.map (·.raw.isExport) = f.els.map (·.raw.isExport)) :
    Since s₁ p f₁ h' s' := by
  refine hs.survive haccounts hblock hcomps fun f' hf' hsome' hblock' => ?_
  rw [hflows, Heap.get_modify] at hf'
  split at hf'
  · rename_i hp
    subst hp
    obtain ⟨f, hf, rfl⟩ := Option.map_eq_some_iff.1 hf'
    obtain ⟨hsome, hfblock, houtputs, hexports⟩ := hg f hf rfl hsome' hblock'
    exact ⟨f, hf, hsome, hfblock, houtputs, hexports⟩
  · exact ⟨f', hf', hsome', hblock', rfl, rfl⟩

end Since

/-! ### Compiling -/

/-- Without exports there is nothing to compile. -/
theorem compileOutputs_idle {K : Type} {env : CompileEnv K} {fuel : Nat} {is : List Nat} {st st' : Compiling K}
    {status : AuStatus} (h : ∀ e ∈ st.elements, e.raw.isExport = false)
    (he : compileOutputs env fuel is st = .ok (status, st')) : st' = st := by
  induction is generalizing st with
  | nil =>
    cases he
    rfl
  | cons i is ih =>
    obtain ⟨⟨status₁, st₁⟩, h₁, he⟩ := Exec.bind_eq_ok.1 he
    obtain ⟨e, hel, h₁⟩ := Exec.bind_eq_ok.1 h₁
    rw [Exec.deref_eq_ok] at hel
    rw [if_pos (by rw [h e (List.mem_of_getElem? hel)]; decide)] at h₁
    cases h₁
    exact ih h he

section
variable {h : List ComponentPtr} {env : Env} {s s' : Server} {p : FlowPtr} {f : ServerFlow} {status : AuStatus}

/-- What a compilation leaves of the tracks. -/
theorem compileFlow_tracks (hs : Accounts h s) (hf : s.flows.get p = some f) (hnil : f.compiled.outputs = [])
    (he : compileFlow env p s = .ok (status, s')) :
    ∃ st : Compiling AuFixedPoint, s'.flows = s.flows.modify p (·.setCompiled st) ∧ s'.nextBlock = s.nextBlock ∧
      st.elements.map (·.raw) = f.els.map (·.raw) ∧
      ((∀ e ∈ f.els, e.raw.isExport = false) → st.outputs = []) ∧
      (∀ q n, tracksAt s.comps q = some n → tracksAt s'.comps q = some n) ∧
      (status = .auSuccess → (st.outputs = [] → ∀ e ∈ f.els, e.raw.isExport = false) ∧
        ((∀ o ∈ st.outputs, o.InBounds s'.comps) ↔
          TracksFit (s.compileEnv env p f) s.comps (f.els.map (·.raw)))) := by
  obtain ⟨f', hf', he⟩ := Exec.bind_eq_ok.1 he
  rw [Server.flow, Exec.deref_eq_ok] at hf'
  obtain rfl : f = f' := Option.some.inj (hf.symm.trans hf')
  obtain ⟨⟨status₁, st⟩, hst, he⟩ := Exec.bind_eq_ok.1 he
  cases he
  have hwired : Wired p f.block (f.els.map (·.wiring)) [] := hnil ▸ (hs.flows p f hf).wired
  have hnone (e : ServerElement) (hel : e ∈ f.els) : e.component = none :=
    hwired.component_none (List.mem_map_of_mem hel)
  have hlive (id : AuID) (q : ComponentPtr) (hq : (s.compileEnv env p f).lookup id = some q) : (s.comps q).isSome :=
    hs.live_lookup hq
  have hstart : Tracked (s.compileEnv env p f) s.comps (f.els.map (·.raw))
      { elements := f.els, comps := s.comps, nextComponent := s.nextComponent, allocs := 0, outputs := []
        inputs := [] } [] :=
    { nodes := rfl
      kept := fun _ _ hq => hq
      fresh := hs.fresh
      element := fun e hel q hq => by
        rw [hnone e hel] at hq
        cases hq
      output := by simp
      input := by simp }
  obtain ⟨n, htracked⟩ := (tracksRule hlive).keeps_auCompileFlow hstart hst
  refine ⟨st, rfl, rfl, htracked.nodes, fun hidle => ?_, htracked.kept, fun hsuccess => ?_⟩
  · rw [compileOutputs_idle hidle hst]
  · subst hsuccess
    exact ⟨auCompileFlow_idle hst, auCompileFlow_inBounds_iff hlive hs.fresh hnone hst⟩

end

theorem Flow.els_setCompiled {K : Type} {f : Flow K} {st : Compiling K} (h : f.elements.isSome) :
    (f.setCompiled st).els = st.elements := by
  obtain ⟨els, hels⟩ := Option.isSome_iff_exists.1 h
  rw [Flow.els, Flow.setCompiled, hels]
  rfl

theorem recompileOutputs_tracks {K : Type} {arith : Arith K} {els : List (FlowElement K)} {fuel n : Nat}
    {status : AuStatus} {outputs outputs' : List (CompiledOutput K)}
    (he : recompileOutputs arith els fuel n outputs = .ok (status, outputs')) :
    outputs'.map (·.tracks) = outputs.map (·.tracks) :=
  recompileOutputs_map (g := fun input => (input.component, input.numTracks, input.inTrack, input.outTrack))
    (fun _ _ _ => rfl) (fun p _ inputs => (p, inputs)) he

theorem AuElement.setParameters_isExport (v : Nat → Nat) (el : AuElement AuFixedPoint) :
    (el.setParameters v).isExport = el.isExport := by
  cases el <;> rfl

theorem since_rule {s₁ : Server} {p : FlowPtr} {f₁ : ServerFlow} : Rule (Since s₁ p f₁) where
  idle hs hf hnone := accounts_rule.idle hs.accounts hf hnone
  static {h s s'} hs hst := by
    have hcomps (q : ComponentPtr) : tracksAt s'.comps q = tracksAt s.comps q :=
      tracksAt_map (g := Component.fixed) (fun _ => rfl) (hst.comps q)
    refine hs.survive (accounts_rule.static hs.accounts hst) (Nat.le_of_eq hst.nextBlock.symm) (fun q _ => .inr (hcomps q))
      fun f' hf' hsome' hblock' => ?_
    have hfixed := hst.flows p
    rw [hf'] at hfixed
    obtain ⟨f, hf, heq⟩ := Option.map_eq_some_iff.1 hfixed.symm
    have hels : f'.els.map (·.raw.isExport) = f.els.map (·.raw.isExport) := by
      have := congrArg (List.map (·.raw.isExport)) (Flow.fixed_els heq.symm)
      rwa [List.map_map, List.map_map] at this
    exact ⟨f, hf, by rw [← Flow.fixed_isSome heq.symm]; exact hsome', by rw [← Flow.fixed_block heq.symm]; exact hblock',
      by rw [Flow.fixed_compiled heq.symm], hels⟩
  unlinked {h s s'} hs hlinks := hs.sameFlows (accounts_rule.unlinked hs.accounts hlinks) (congrArg (·.flows) hlinks)
    (congrArg (·.nextBlock) hlinks) fun q _ => .inr (by rw [show s'.comps = s.comps from congrArg (·.comps) hlinks])
  connected hs hnone := hs.sameFlows (accounts_rule.connected hs.accounts hnone) rfl rfl fun _ _ => .inr rfl
  created {h s id links} hs := by
    refine hs.survive (accounts_rule.created hs.accounts) (Nat.le_refl _) (fun _ _ => .inr rfl)
      fun f' hf' hsome' hblock' => ?_
    dsimp only at hf'
    rw [Heap.get_alloc] at hf'
    split at hf'
    · cases hf'
      cases hsome'
    · exact ⟨f', hf', hsome', hblock', rfl, rfl⟩
  grown hs hc := hs.sameFlows (accounts_rule.grown hs.accounts hc) rfl rfl fun _ _ => .inr rfl
  added hs hc := hs.sameFlows (accounts_rule.added hs.accounts hc) rfl rfl fun _ _ => .inr rfl
  taken hs := hs.sameFlows (accounts_rule.taken hs.accounts) rfl rfl fun _ _ => .inr rfl
  closed hs := hs.sameFlows (accounts_rule.closed hs.accounts) rfl rfl fun _ _ => .inr rfl
  givenBack hs he :=
    have hrest := (auFreeComponent_cases he).1
    hs.sameFlows (accounts_rule.givenBack hs.accounts he) (congrArg (·.flows) hrest) (congrArg (·.nextBlock) hrest)
      fun q _ => auFreeComponent_survives he q
  emptied {h s s' p' f} hs hf he := by
    obtain ⟨hsurvives, hrest⟩ := freeCompiledFlow_survives he
    have hflows : s'.flows.modify p' Flow.dropElements = s.flows.modify p' Flow.dropElements := by
      rw [show s'.flows = s.flows from congrArg (·.flows) hrest]
    exact hs.modified (accounts_rule.emptied hs.accounts hf he) hflows
      (Nat.le_of_eq (congrArg (·.nextBlock) hrest).symm) (fun q _ => hsurvives q) fun f₀ _ _ hsome _ => by cases hsome
  freed {h s p' f} hs hf hnone := by
    refine hs.survive (accounts_rule.freed hs.accounts hf hnone) (Nat.le_refl _) (fun _ _ => .inr rfl)
      fun f' hf' hsome' hblock' => ?_
    dsimp only at hf'
    rw [Heap.get_free] at hf'
    split at hf'
    · cases hf'
    · exact ⟨f', hf', hsome', hblock', rfl, rfl⟩
  installed {h s p' f clocked els raws} hs hf hnone hfresh := by
    refine hs.modified (accounts_rule.installed hs.accounts hf hnone hfresh) rfl (Nat.le_succ _) (fun _ _ => .inr rfl)
      fun f₀ _ _ _ hblock => ?_
    -- the block is a new one
    have hlt := hs.block
    have heq : s.nextBlock = f₁.block := hblock
    omega
  compiled {h env s s' p' f status} hs hf hnil he := by
    obtain ⟨st, hflows, hblock, hraws, hidle, hkept, -⟩ := compileFlow_tracks hs.accounts hf hnil he
    refine hs.modified (accounts_rule.compiled hs.accounts hf hnil he) hflows (Nat.le_of_eq hblock.symm)
      (fun q hq => .inr ?_) fun f₀ hf₀ hp hsome' hblock' => ?_
    · obtain ⟨c, hc⟩ := Option.isSome_iff_exists.1 hq
      rw [tracksAt_isSome hc]
      exact hkept q _ (tracksAt_isSome hc)
    · subst hp
      obtain rfl : f = f₀ := Option.some.inj (hf.symm.trans hf₀)
      have hsome : f.elements.isSome := by
        unfold Flow.setCompiled at hsome'
        simpa using hsome'
      obtain ⟨htracks, hexports, -⟩ := hs.flow f hf hsome hblock'
      rw [hnil] at htracks
      have hnil₁ : f₁.compiled.outputs = [] := by simpa using htracks.symm
      have hcompiled : (f.setCompiled st).compiled.outputs = [] := hidle (hexports hnil₁)
      refine ⟨hsome, hblock', by rw [hcompiled, hnil], ?_⟩
      have := congrArg (List.map AuElement.isExport) hraws
      rw [List.map_map, List.map_map] at this
      rw [Flow.els_setCompiled hsome]
      exact this
  recompiled {h s p' f f' fuel status} hs hf he := by
    have haccounts := accounts_rule.recompiled hs.accounts hf he
    obtain ⟨⟨status₁, outputs⟩, houtputs, he⟩ := Exec.bind_eq_ok.1 he
    cases he
    refine hs.modified haccounts rfl (Nat.le_refl _) (fun _ _ => .inr rfl) fun f₀ hf₀ _ hsome hblock => ?_
    obtain rfl : f = f₀ := Option.some.inj (hf.symm.trans hf₀)
    exact ⟨hsome, hblock, recompileOutputs_tracks houtputs, rfl⟩
  parameters {h s p' i el v} hs hel := by
    refine hs.modified (accounts_rule.parameters hs.accounts hel) rfl (Nat.le_refl _) (fun _ _ => .inr rfl)
      fun f hf _ hsome' hblock' => ?_
    have hsome : f.elements.isSome := by
      unfold Flow.setElement at hsome'
      simpa using hsome'
    refine ⟨hsome, hblock', rfl, ?_⟩
    obtain ⟨els, hels⟩ := Option.isSome_iff_exists.1 hsome
    rw [Server.element, hf] at hel
    have hi : els[i]? = some el := by simpa [Flow.els, hels] using hel
    have hset : (f.setElement i { el with raw := el.raw.setParameters v, parmsChanged := true }).els =
        els.set i { el with raw := el.raw.setParameters v, parmsChanged := true } := by
      rw [Flow.els, Flow.setElement, hels]
      rfl
    rw [hset, Flow.els, hels]
    exact map_set_self (f := fun e : ServerElement => e.raw.isExport) hi (AuElement.setParameters_isExport v el.raw)
  noted {h s p' g} hs hg := by
    refine hs.modified (accounts_rule.noted hs.accounts hg) rfl (Nat.le_refl _) (fun _ _ => .inr rfl)
      fun f _ _ hsome hblock => ?_
    obtain ⟨trivial, needsRecompile, count, heq⟩ := hg f
    rw [heq] at hsome hblock ⊢
    exact ⟨hsome, hblock, rfl, rfl⟩
  bucket {h s env a} hs := by
    refine hs.sameFlows (accounts_rule.bucket hs.accounts) rfl rfl fun q hq => .inr ?_
    have hne : q ≠ s.nextComponent := fun heq => by
      rw [heq, hs.accounts.fresh _ (Nat.le_refl _)] at hq
      cases hq
    dsimp only
    rw [tracksAt, tracksAt, Function.update_of_ne hne]
  contents {h s q c c'} hs hc hstill := by
    refine hs.sameFlows (accounts_rule.contents hs.accounts hc hstill) rfl rfl fun q' _ => .inr ?_
    refine tracksAt_map (g := Component.still) (fun _ => rfl) ?_
    dsimp only [Server.setComponent]
    by_cases hq : q' = q
    · subst hq
      rw [Function.update_self, hc, Option.map_some, Option.map_some, hstill]
    · rw [Function.update_of_ne hq]

/-! ### Setting elements -/

section
variable {env : Env} {s s' : Server} {p : FlowPtr}

theorem stopFlow_survives (he : stopFlow env p s = .ok s') :
    Survives s.comps s'.comps ∧ s'.clientTable = s.clientTable := by
  obtain ⟨f, -, he⟩ := Exec.bind_eq_ok.1 he
  split at he
  · obtain ⟨⟨b, t⟩, hchange, he⟩ := Exec.bind_eq_ok.1 he
    cases he
    have hst := changeElementState_static hchange
    exact ⟨fun q => .inr (tracksAt_map (g := Component.fixed) (fun _ => rfl) (hst.comps q)), hst.clientTable⟩
  · cases he
    exact ⟨fun _ => .inr rfl, rfl⟩

theorem setList_rest (clocked : Bool) (l : (FlowPtr → Links FlowPtr) × Option FlowPtr) :
    (s.setList clocked l).comps = s.comps ∧ (s.setList clocked l).clientTable = s.clientTable ∧
      (s.setList clocked l).flows = s.flows := by
  unfold Server.setList
  split <;> exact ⟨rfl, rfl, rfl⟩

theorem auFreeFlowElements_survives (he : auFreeFlowElements env p s = .ok s') :
    Survives s.comps s'.comps ∧ s'.clientTable = s.clientTable := by
  simp only [auFreeFlowElements, Server.unlinkFlow, Exec.bind_eq_ok, Except.ok.injEq] at he
  obtain ⟨s₁, h₁, s₂, ⟨f₁, -, l, -, rfl⟩, f, -, s₃, h₃, rfl⟩ := he
  obtain ⟨hstop, hstopTable⟩ := stopFlow_survives h₁
  obtain ⟨hlistComps, hlistTable, -⟩ := setList_rest (s := s₁) f₁.clocked l
  obtain ⟨hsurvives, hrest⟩ := freeCompiledFlow_survives h₃
  have htable : s₃.clientTable = (s₁.setList f₁.clocked l).clientTable := congrArg (·.clientTable) hrest
  refine ⟨fun q => ?_, by dsimp only; rw [htable, hlistTable, hstopTable]⟩
  rcases hsurvives q with hnone | hq
  · exact .inl hnone
  · rcases hstop q with hnone | hq'
    · left
      rw [hlistComps, tracksAt, tracksAt, hnone] at hq
      exact Option.map_eq_none_iff.1 hq
    · exact .inr (by rw [hq, hlistComps, hq'])

/-- The condition only looks at the components that ids lead to. -/
theorem TracksFit.congr {K : Type} {env env' : CompileEnv K} {comps comps' : ComponentPtr → Option Component}
    {raws : List (AuElement K)} (hlookup : env'.lookup = env.lookup) (hsamples : env'.auMinibufSamples = env.auMinibufSamples)
    (hcomps : ∀ id q, env.lookup id = some q → tracksAt comps' q = tracksAt comps q) :
    TracksFit env' comps' raws ↔ TracksFit env comps raws := by
  have hbind (id : AuID) : (env.lookup id).bind (tracksAt comps') = (env.lookup id).bind (tracksAt comps) := by
    rcases hid : env.lookup id with - | q
    · rfl
    · exact hcomps id q hid
  have htracks (el : AuElement K) : el.tracks env' comps' = el.tracks env comps := by
    unfold AuElement.tracks
    rw [hsamples]
    split
    · rfl
    · rw [hlookup, hbind]
    · rw [hlookup, hbind]
    · rfl
  unfold TracksFit
  simp only [htracks]

theorem mapM_error {α β : Type} {l : List α} {g : α → Except AuStatus β} {status : AuStatus}
    (he : l.mapM g = .error status) : ∃ a ∈ l, g a = .error status := by
  induction l with
  | nil => cases he
  | cons a l ih =>
    rw [List.mapM_cons] at he
    rcases ha : g a with status' | b
    · rw [ha] at he
      cases he
      exact ⟨a, List.mem_cons_self, ha⟩
    · rw [ha] at he
      rcases hl : l.mapM g with status' | bs
      · rw [hl] at he
        cases he
        obtain ⟨a', ha', heq⟩ := ih hl
        exact ⟨a', List.mem_cons_of_mem _ ha', heq⟩
      · rw [hl] at he
        cases he

theorem initElements_error {lookup : AuID → Option FlowPtr} {client : Nat} {els : List (AuElement AuFixedPoint)}
    {status : AuStatus} (he : initElements lookup client p els = .error status) : status ≠ .auSuccess := by
  obtain ⟨⟨el, i⟩, -, he⟩ := mapM_error he
  rcases hactions : storeActions lookup p els.length el with status' | actions
  · simp only [hactions, bind, Except.bind] at he
    cases he
    unfold storeActions at hactions
    split at hactions
    · cases hactions
    · obtain ⟨a, -, ha⟩ := mapM_error hactions
      unfold storeAction at ha
      dsimp only at ha
      grind
  · simp only [hactions, bind, Except.bind] at he
    cases he

/-- Elements that were set. -/
structure ElementsSet (env : Env) (r : SetElementsRequest) (s s' : Server) (p : FlowPtr) (f f' : ServerFlow) : Prop where
  lookup : lookupIDByType s.clientTable r.flow .auFlowType = some p
  before : s.flows.get p = some f
  after : s'.flows.get p = some f'
  isSome : f'.elements.isSome
  block : f'.block < s'.nextBlock
  idle : f'.compiled.outputs = [] → ∀ e ∈ f'.els, e.raw.isExport = false
  inBounds : (∀ o ∈ f'.compiled.outputs, o.InBounds s'.comps) ↔ TracksFit (s.compileEnv env p f) s.comps r.elements

/-- What a `SetElements` that succeeds does. -/
theorem procAuSetElements_success {r : SetElementsRequest} {l : List ComponentPtr} (hs : Accounts l s)
    (he : procAuSetElements env r s = .ok (.auSuccess, s')) : ∃ p f f', ElementsSet env r s s' p f f' := by
  unfold procAuSetElements at he
  split at he
  · cases he
  · rename_i p hp
    split at he
    · cases he
    · split at he
      · cases he
      · obtain ⟨f, hf, he⟩ := Exec.bind_eq_ok.1 he
        rw [Server.flow, Exec.deref_eq_ok] at hf
        obtain ⟨s₁, h₁, he⟩ := Exec.bind_eq_ok.1 he
        -- the old elements are gone
        have hempty : Accounts l s₁ ∧ (∃ f₁, s₁.flows.get p = some f₁ ∧ f₁.elements = none) ∧
            Survives s.comps s₁.comps ∧ s₁.clientTable = s.clientTable := by
          split at h₁
          · exact ⟨accounts_rule.keeps_auFreeFlowElements hs h₁, auFreeFlowElements_get h₁, auFreeFlowElements_survives h₁⟩
          · rename_i hnone
            cases h₁
            exact ⟨hs, ⟨f, hf, by simpa using hnone⟩, fun _ => .inr rfl, rfl⟩
        obtain ⟨hs₁, ⟨f₁, hf₁, hnone₁⟩, hsurvives, htable₁⟩ := hempty
        unfold installElements at he
        split at he
        · cases he
        · dsimp only at he
          split at he
          · rename_i status hstatus
            obtain ⟨t, -, he⟩ := Exec.bind_eq_ok.1 he
            cases he
            exact absurd rfl (initElements_error hstatus)
          · rename_i els hels
            have hfresh := Rule.initElements_fresh hels
            obtain ⟨s₂, h₂, he₂⟩ := Exec.bind_eq_ok.1 he
            obtain ⟨⟨status, s₃⟩, h₃, he₃⟩ := Exec.bind_eq_ok.1 he₂
            have hinstalled : Accounts l { s₁ with
                flows := s₁.flows.modify p
                  (·.install r.clocked s₁.nextBlock (r.elements.map (·.varLen)).sum els)
                nextBlock := s₁.nextBlock + 1 } := accounts_rule.installed hs₁ hf₁ hnone₁ hfresh
            obtain ⟨hs₂, hflows₂⟩ := accounts_rule.keeps_linkFlow hinstalled h₂
            obtain ⟨f₂, -, h₂⟩ := Exec.bind_eq_ok.1 h₂
            obtain ⟨links, -, h₂⟩ := Exec.bind_eq_ok.1 h₂
            cases h₂
            split at he₃
            · rename_i hstatus
              obtain rfl : status = .auSuccess := hstatus
              simp only [Except.ok.injEq, Prod.mk.injEq, true_and] at he₃
              subst he₃
              obtain ⟨hcomps₂, htable₂, -⟩ := setList_rest (s := { s₁ with
                flows := s₁.flows.modify p
                  (·.install r.clocked s₁.nextBlock (r.elements.map (·.varLen)).sum els)
                nextBlock := s₁.nextBlock + 1 }) f₂.clocked links
              have hidle₁ : f₁.compiled.outputs = [] := accounts_rule.idle hs₁ hf₁ hnone₁
              have hf₂ := (congrArg (Heap.get · p) hflows₂).trans (Heap.get_modify_self ..)
              rw [hf₁] at hf₂
              obtain ⟨st, hflows, hblock, hraws, -, -, hcompiled⟩ := compileFlow_tracks hs₂ hf₂ hidle₁ h₃
              obtain ⟨hidle, hbounds⟩ := hcompiled rfl
              have hf₃ : s₃.flows.get p = some ((f₁.install r.clocked s₁.nextBlock (r.elements.map (·.varLen)).sum
                  els).setCompiled st) := by
                rw [hflows, Heap.get_modify_self, hf₂]
                rfl
              have hels (e : ServerElement) (hel : e ∈ st.elements) : ∃ e₀ ∈ els, e₀.raw = e.raw := by
                have hmem := List.mem_map_of_mem (f := (·.raw)) hel
                rw [hraws] at hmem
                exact List.mem_map.1 hmem
              have hcomps (id : AuID) (q : ComponentPtr)
                  (hq : lookupIDByType s.clientTable id .auComponentType = some q) :
                  tracksAt s₁.comps q = tracksAt s.comps q := by
                rcases hsurvives q with hnone | heq
                · have hlive := hs₁.live_lookup (by rw [htable₁]; exact hq)
                  rw [hnone] at hlive
                  cases hlive
                · exact heq
              refine ⟨p, f, _, hp, hf, by rw [Heap.get_modify_self, hf₃]; rfl, rfl, ?_, fun hnil e hel => ?_, ?_⟩
              · refine Nat.lt_of_lt_of_eq (Nat.lt_succ_self s₁.nextBlock) ?_
                exact (Eq.trans hblock (by unfold Server.setList; split <;> rfl)).symm
              · obtain ⟨e₀, he₀, hraw⟩ := hels e hel
                rw [← hraw]
                exact hidle hnil e₀ he₀
              · refine hbounds.trans ?_
                rw [show (f₁.install r.clocked s₁.nextBlock (r.elements.map (·.varLen)).sum els).els.map (·.raw) =
                  r.elements from hfresh.raws, hcomps₂]
                refine TracksFit.congr ?_ rfl hcomps
                funext id
                show lookupIDByType _ id .auComponentType = lookupIDByType s.clientTable id .auComponentType
                rw [htable₂, htable₁]
            · rename_i hne
              obtain ⟨t, -, he₄⟩ := Exec.bind_eq_ok.1 he₃
              cases he₄
              exact absurd rfl hne

end

/-- In every run, as long as a flow has the elements of a `SetElements` that succeeded, what `accumulateOutput`
accesses is within bounds just when the selections of tracks fit the components. -/
theorem setElements_inBounds_iff {env : Env} {r : SetElementsRequest} {s₀ s s' : Server} (hs₀ : Started s₀)
    (hreach : Reach step (fun _ _ => True) s₀ s) (he : procAuSetElements env r s = .ok (.auSuccess, s')) :
    ∃ p f f', lookupIDByType s.clientTable r.flow .auFlowType = some p ∧ s.flows.get p = some f ∧
      s'.flows.get p = some f' ∧ ∀ s'' f'', Reach step (fun _ _ => True) s' s'' → s''.flows.get p = some f'' →
        f''.elements.isSome → f''.block = f'.block →
          ((∀ o ∈ f''.compiled.outputs, o.InBounds s''.comps) ↔
            TracksFit (s.compileEnv env p f) s.comps r.elements) := by
  obtain ⟨l, hs⟩ : ∃ l, Accounts ([] ++ l) s :=
    accounts_rule.leaky.reach (Rule.leak Accounts.perm) ⟨[], hs₀.accounts⟩ hreach
  obtain ⟨p, f, f', hset⟩ := procAuSetElements_success hs he
  have hs' : Accounts ([] ++ l) s' := accounts_rule.keeps_setElements hs he
  refine ⟨p, f, f', hset.lookup, hset.before, hset.after, fun s'' f'' hreach' hf'' hsome hblock => ?_⟩
  have hstart : Since s' p f' ([] ++ l) s' :=
    { accounts := hs'
      block := hset.block
      flow := fun f₁ hf₁ _ _ => by
        obtain rfl : f' = f₁ := Option.some.inj (hset.after.symm.trans hf₁)
        exact ⟨rfl, hset.idle, fun _ _ => rfl⟩ }
  obtain ⟨l', hsince⟩ : ∃ l', Since s' p f' ([] ++ l') s'' :=
    since_rule.leaky.reach (Rule.leak fun hperm h => ⟨h.accounts.perm hperm, h.block, h.flow⟩) ⟨l, hstart⟩ hreach'
  obtain ⟨htracks, -, hcomps⟩ := hsince.flow f'' hf'' hsome hblock
  rw [← hset.inBounds]
  exact inBounds_congr htracks hcomps

/-! ### A port straight into another -/

/-- A mono port that is exported, without a selection of tracks. -/
def straightElements (numTracks : Nat) : SetElementsRequest where
  client := 1
  flow := 2 ^ 22
  clocked := true
  len := 48
  elements := [.importClient ⟨8000, 1, 1, false, 8, 2, []⟩, .exportClient ⟨8000, 0, 1, numTracks, false, 8, 6, []⟩]

def straightEnv : Env where
  auAverageFlows := false
  auMinibufSamples := 4
  fuel := 4
  mem _ := true
  processMem _ _ := true

/-- The flow for the elements is there. -/
def straightRun : List (Env × Input) :=
  [(straightEnv, .request (.connect 1)), (straightEnv, .request (.createFlow (2 ^ 22)))]

theorem straightElements_tracks (s : Server) (p : FlowPtr) (f : ServerFlow) : ∀ el ∈ (straightElements 1).elements,
    el.tracks (s.compileEnv straightEnv p f) s.comps = some 1 := by
  simp [straightElements, AuElement.tracks, AuElement.source, portSource, createPort, Server.compileEnv, straightEnv,
    auNativeBytesPerSample, sizeofFormat, sizeofComponentRec, pad4u]

/-- Into a mono port all of its samples go to their places. -/
theorem straightMono_inBounds : ∃ (s : Server) (p : FlowPtr) (f : ServerFlow), s.flows.get p = some f ∧
    f.compiled.outputs.map (·.tracks) = [(0, [(1, 0, [], [])])] ∧ ∀ o ∈ f.compiled.outputs, o.InBounds s.comps := by
  have hrun : (do
      let s ← List.foldlM step {} straightRun
      let x ← procAuSetElements straightEnv (straightElements 1) s
      let p ← Exec.deref (lookupIDByType s.clientTable (2 ^ 22) .auFlowType)
      let f ← x.2.flow p
      .ok (x.1, f.compiled.outputs.map CompiledOutput.tracks, f.elements.isSome)) =
        .ok (AuStatus.auSuccess, [((0 : ComponentPtr), [((1 : ComponentPtr), 0, [], [])])], true) := rfl
  obtain ⟨s, hs, hrun⟩ := Exec.bind_eq_ok.1 hrun
  obtain ⟨⟨status, s'⟩, he, hrun⟩ := Exec.bind_eq_ok.1 hrun
  obtain ⟨p, hp, hrun⟩ := Exec.bind_eq_ok.1 hrun
  obtain ⟨f, hf, hrun⟩ := Exec.bind_eq_ok.1 hrun
  simp only [Except.ok.injEq, Prod.mk.injEq] at hrun
  obtain ⟨rfl, htracks, hsome⟩ := hrun
  rw [Exec.deref_eq_ok] at hp
  rw [Server.flow, Exec.deref_eq_ok] at hf
  obtain ⟨q, f₀, f', hq, hf₀, hf', hiff⟩ := setElements_inBounds_iff started_empty (.run hs) he
  obtain rfl : p = q := Option.some.inj (hp.symm.trans hq)
  obtain rfl : f = f' := Option.some.inj (hf.symm.trans hf')
  refine ⟨s', p, f, hf, htracks, (hiff s' f .init hf hsome rfl).2 ?_⟩
  intro i e hi hexport d hfeeds el nIn nOut hel hnIn hnOut
  have hcases : i = 1 ∧ e = .exportClient ⟨8000, 0, 1, 1, false, 8, 6, []⟩ := by
    rcases i with - | - | i
    · cases hi
      cases hexport
    · cases hi
      exact ⟨rfl, rfl⟩
    · cases hi
  obtain ⟨rfl, rfl⟩ := hcases
  cases hfeeds with
  | arrived _ _ =>
    rw [straightElements_tracks s p f₀ el (List.mem_of_getElem? hel)] at hnIn
    rw [straightElements_tracks s p f₀ _ (List.mem_of_getElem? hi)] at hnOut
    cases hnIn
    cases hnOut
    exact ⟨by simp, by simp [TrackCall.outTracks], fun _ => rfl⟩
  | step hel' hc _ =>
    cases hel'
    cases hc

/-- Into a stereo port it runs over the end of the import's samples. -/
theorem straightStereo_not_inBounds : ¬ ∀ (s₀ s s' : Server) (env : Env) (r : SetElementsRequest) (p : FlowPtr)
    (f : ServerFlow), Started s₀ → Reach step (fun _ _ => True) s₀ s →
      procAuSetElements env r s = .ok (.auSuccess, s') → lookupIDByType s.clientTable r.flow .auFlowType = some p →
        s'.flows.get p = some f → ∀ o ∈ f.compiled.outputs, o.InBounds s'.comps := by
  intro h
  have hrun : (do
      let s ← List.foldlM step {} straightRun
      let x ← procAuSetElements straightEnv (straightElements 2) s
      let p ← Exec.deref (lookupIDByType s.clientTable (2 ^ 22) .auFlowType)
      let f ← x.2.flow p
      .ok (x.1, f.compiled.outputs.map CompiledOutput.tracks, tracksAt x.2.comps 1, tracksAt x.2.comps 0)) =
        .ok (AuStatus.auSuccess, [((0 : ComponentPtr), [((1 : ComponentPtr), 0, [], [])])], some 1, some 2) := rfl
  obtain ⟨s, hs, hrun⟩ := Exec.bind_eq_ok.1 hrun
  obtain ⟨⟨status, s'⟩, he, hrun⟩ := Exec.bind_eq_ok.1 hrun
  obtain ⟨p, hp, hrun⟩ := Exec.bind_eq_ok.1 hrun
  obtain ⟨f, hf, hrun⟩ := Exec.bind_eq_ok.1 hrun
  simp only [Except.ok.injEq, Prod.mk.injEq] at hrun
  obtain ⟨rfl, htracks, hIn, hOut⟩ := hrun
  rw [Exec.deref_eq_ok] at hp
  rw [Server.flow, Exec.deref_eq_ok] at hf
  have hbounds := h {} s s' _ _ p f started_empty (.run hs) he hp hf
  obtain ⟨o, ho⟩ := List.length_eq_one_iff.1 (show f.compiled.outputs.length = 1 by
    rw [← List.length_map (f := CompiledOutput.tracks), htracks]
    rfl)
  rw [ho] at htracks hbounds
  simp only [CompiledOutput.tracks, List.map_cons, List.map_nil, List.cons.injEq, Prod.mk.injEq, and_true] at htracks
  obtain ⟨ho₁, hinputs⟩ := htracks
  obtain ⟨input, hinput, hin⟩ := List.map_eq_singleton_iff.1 hinputs
  simp only [Prod.mk.injEq] at hin
  obtain ⟨nIn, nOut, hnIn, hnOut, -, hfit⟩ := hbounds o (by simp) input (by rw [hinput]; simp)
  rw [hin.1, hIn] at hnIn
  rw [ho₁, hOut] at hnOut
  have hsame := hfit.direct hin.2.2.1
  cases hnIn
  cases hnOut
  cases hsame

end Nas
