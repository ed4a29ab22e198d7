import Nas.Dispatch
import Nas.StateChange

/-!
# An invariant rule for the server

What a step does to the server is made of a few parts: changes of state, lists that are linked anew, records put
into the table and taken out, components given back, a flow that is emptied or compiled. `Rule I` says that `I` is
kept by each of them, and `Rule.step` that it is kept by every step then.

`I hand s` is about the server between two parts: `hand` are the components a handler has a reference to that is
in no record at the moment.
-/

namespace Nas

/-- A change of nothing but the list links. -/
def Server.unlinked (s : Server) : Server :=
  { s with
    links := fun _ => {}, auClockedFlows := none, auUnclockedFlows := none
    compLinks := fun _ => {}, auBuckets := none, auDevices := none }

/-- A component less its contents. -/
def Component.still (c : Component) : Component := { c.fixed with data := [], destroyed := false }

/-- The reference a record of the table is. -/
def Resource.reference (r : Resource) : List ComponentPtr :=
  match r.type with
  | .auComponentType => [r.value]
  | .auFlowType => []

/-- The elements of a request as they are stored. -/
structure FreshElements (raws : List (AuElement AuFixedPoint)) (els : List ServerElement) : Prop where
  raws : els.map (·.raw) = raws
  compiled : ∀ e ∈ els, e.compiled = false ∧ e.component = none ∧ e.refCnt = 0

/-- The parts. -/
structure Rule (I : List ComponentPtr → Server → Prop) : Prop where
  idle {h s p f} : I h s → s.flows.get p = some f → f.elements = none → f.compiled.outputs = []
  static {h s s'} : I h s → SameStatic s s' → I h s'
  unlinked {h s s'} : I h s → s'.unlinked = s.unlinked → I h s'
  connected {h s client} : I h s → s.clientTable client = none →
    I h { s with clientTable := Function.update s.clientTable client (some initClientResources) }
  created {h s id links} : I h s → I h { s with flows := s.flows.alloc { flowId := id }, links }
  grown {h s client c mem} : I h s → s.clientTable client = some c →
    I h { s with clientTable := Function.update s.clientTable client (some (c.grow mem)) }
  added {h s c r mem} : I (r.reference ++ h) s → s.clientTable (clientId r.id) = some c →
    I h { s with clientTable := Function.update s.clientTable (clientId r.id) (some ((c.grow mem).add r)) }
  taken {h s id} : I h s →
    I ((takeResource s.clientTable id).1.flatMap Resource.reference ++ h)
      { s with clientTable := (takeResource s.clientTable id).2 }
  closed {h s client} : I h s →
    I ((takeClientResources s.clientTable client).1.flatMap Resource.reference ++ h)
      { s with clientTable := (takeClientResources s.clientTable client).2 }
  givenBack {h s s' p} : I (p :: h) s → auFreeComponent p s = .ok s' → I h s'
  emptied {h s s' p f} : I h s → s.flows.get p = some f → freeCompiledFlow f.compiled s = .ok s' →
    I h { s' with
      flows := s'.flows.modify p Flow.dropElements
      freedMinibufs := s'.freedMinibufs ++ releasedMinibufs f.els f.compiled }
  freed {h s p f} : I h s → s.flows.get p = some f → f.elements = none → I h { s with flows := s.flows.free p }
  installed {h s p f clocked els raws} : I h s → s.flows.get p = some f → f.elements = none → FreshElements raws els →
    I h { s with
      flows := s.flows.modify p (·.install clocked s.nextBlock (raws.map (·.varLen)).sum els)
      nextBlock := s.nextBlock + 1 }
  compiled {h env s s' p f status} : I h s → s.flows.get p = some f → f.compiled.outputs = [] →
    compileFlow env p s = .ok (status, s') → I h s'
  recompiled {h s p f f' fuel status} : I h s → s.flows.get p = some f →
    recompileFlow auFixedPoint fuel f = .ok (status, f') →
    I h { s with flows := s.flows.modify p fun f => { f with compiled := f'.compiled } }
  parameters {h s p i el v} : I h s → s.element p i = some el →
    I h (s.setElement p i { el with raw := el.raw.setParameters v, parmsChanged := true })
  noted {h s p g} : I h s → (∀ f : ServerFlow, ∃ trivial needsRecompile count,
    g f = { f with trivial, needsRecompile, count }) → I h { s with flows := s.flows.modify p g }
  bucket {h s env a} : I h s →
    I (s.nextComponent :: h) { s with
      comps := Function.update s.comps s.nextComponent (some (newBucket env a)), nextComponent := s.nextComponent + 1 }
  contents {h s p c c'} : I h s → s.comps p = some c → c'.still = c.still → I h (s.setComponent p c')

/-! ### Giving back -/

section
variable {env : Env} {s s' : Server} {p : FlowPtr} {q : ComponentPtr}

theorem auFreeComponent_flows (he : auFreeComponent q s = .ok s') : s'.flows = s.flows := by
  simp only [auFreeComponent, Exec.bind_eq_ok] at he
  obtain ⟨c, -, he⟩ := he
  split at he
  · cases he
    rfl
  · simp only [unlinkComponent, Exec.bind_eq_ok, Except.ok.injEq] at he
    obtain ⟨t, ht, rfl⟩ := he
    split at ht
    · obtain ⟨l, -, ht⟩ := Exec.bind_eq_ok.1 ht
      cases ht
      rfl
    · split at ht
      · obtain ⟨l, -, ht⟩ := Exec.bind_eq_ok.1 ht
        cases ht
        rfl
      · cases ht
        rfl

theorem freeCompiledFlow_flows {cmp : CompiledFlow AuFixedPoint} (he : freeCompiledFlow cmp s = .ok s') :
    s'.flows = s.flows := by
  refine Exec.foldlM_rel (R := fun s s' : Server => s'.flows = s.flows) (fun _ => rfl)
    (fun _ _ _ h h' => h'.trans h) (fun output _ s s' he => ?_) he
  obtain ⟨t, ht, he⟩ := Exec.bind_eq_ok.1 he
  have hinputs : t.flows = s.flows := Exec.foldlM_rel (R := fun s s' : Server => s'.flows = s.flows) (fun _ => rfl)
    (fun _ _ _ h h' => h'.trans h) (fun _ _ _ _ he => auFreeComponent_flows he) ht
  exact (auFreeComponent_flows he).trans hinputs

/-- What is left of a flow. -/
theorem auFreeFlowElements_get (he : auFreeFlowElements env p s = .ok s') :
    ∃ f, s'.flows.get p = some f ∧ f.elements = none := by
  simp only [auFreeFlowElements, Exec.bind_eq_ok, Except.ok.injEq] at he
  obtain ⟨s₁, -, s₂, -, f, hf, s₃, h₃, rfl⟩ := he
  rw [Server.flow, Exec.deref_eq_ok] at hf
  refine ⟨f.dropElements, ?_, rfl⟩
  rw [Heap.get_modify_self, freeCompiledFlow_flows h₃, hf]
  rfl

end

namespace Rule
variable {I : List ComponentPtr → Server → Prop} {env : Env} {h : List ComponentPtr} {s s' : Server} {p : FlowPtr}
  {status : AuStatus}

theorem setList (hI : Rule I) (hs : I h s) (clocked : Bool) (l : (FlowPtr → Links FlowPtr) × Option FlowPtr) :
    I h (s.setList clocked l) := by
  refine hI.unlinked hs ?_
  unfold Server.setList
  split <;> rfl

theorem keeps_stopFlow (hI : Rule I) (hs : I h s) (he : stopFlow env p s = .ok s') : I h s' := by
  simp only [stopFlow, Exec.bind_eq_ok] at he
  obtain ⟨f, -, he⟩ := he
  split at he
  · obtain ⟨⟨b, t⟩, hchange, he⟩ := Exec.bind_eq_ok.1 he
    cases he
    exact hI.static hs (changeElementState_static hchange)
  · cases he
    exact hs

theorem keeps_auFreeFlowElements (hI : Rule I) (hs : I h s) (he : auFreeFlowElements env p s = .ok s') : I h s' := by
  simp only [auFreeFlowElements, Server.unlinkFlow, Exec.bind_eq_ok, Except.ok.injEq] at he
  obtain ⟨s₁, h₁, s₂, ⟨f₁, -, l, -, rfl⟩, f, hf, s₃, h₃, rfl⟩ := he
  rw [Server.flow, Exec.deref_eq_ok] at hf
  exact hI.emptied (hI.setList (hI.keeps_stopFlow hs h₁) _ _) hf h₃

theorem keeps_freeFlow (hI : Rule I) (hs : I h s) (he : freeFlow env p s = .ok s') : I h s' := by
  simp only [freeFlow, Exec.bind_eq_ok, Except.ok.injEq] at he
  obtain ⟨f, hf, s₁, h₁, rfl⟩ := he
  rw [Server.flow, Exec.deref_eq_ok] at hf
  split at h₁
  · obtain ⟨f', hf', hnone⟩ := auFreeFlowElements_get h₁
    exact hI.freed (hI.keeps_auFreeFlowElements hs h₁) hf' hnone
  · rename_i hnone
    cases h₁
    exact hI.freed hs hf (by simpa using hnone)

theorem keeps_deleteResource (hI : Rule I) {r : Resource} (hs : I (r.reference ++ h) s)
    (he : deleteResource env s r = .ok s') : I h s' := by
  unfold deleteResource at he
  unfold Resource.reference at hs
  split at he
  · rename_i htype
    rw [htype] at hs
    exact hI.givenBack hs he
  · rename_i htype
    rw [htype] at hs
    exact hI.keeps_freeFlow hs he

theorem keeps_deleteResources (hI : Rule I) {rs : List Resource} (hs : I (rs.flatMap Resource.reference ++ h) s)
    (he : rs.foldlM (deleteResource env) s = .ok s') : I h s' := by
  induction rs generalizing s with
  | nil =>
    cases he
    exact hs
  | cons r rs ih =>
    obtain ⟨t, ht, he⟩ := Exec.foldlM_cons_eq_ok.1 he
    rw [List.flatMap_cons, List.append_assoc] at hs
    exact ih (hI.keeps_deleteResource hs ht) he

theorem keeps_freeResource (hI : Rule I) {id : AuID} (hs : I h s) (he : freeResource env id s = .ok s') : I h s' := by
  unfold freeResource at he
  dsimp only at he
  split at he
  · cases he
  · exact hI.keeps_deleteResources (hI.taken hs) he

theorem keeps_freeClientResources (hI : Rule I) {client : Nat} (hs : I h s)
    (he : freeClientResources env client s = .ok s') : I h s' :=
  hI.keeps_deleteResources (hI.closed hs) he

theorem keeps_addResource (hI : Rule I) {r : Resource} {tableMem mem added : Bool} (hs : I (r.reference ++ h) s)
    (he : addResource env tableMem mem r s = .ok (added, s')) :
    I h s' ∨ added = false ∧ s' = s := by
  unfold addResource at he
  split at he
  · cases he
    exact .inr ⟨rfl, rfl⟩
  · rename_i c hc
    left
    dsimp only at he
    split at he
    · obtain ⟨t, ht, he⟩ := Exec.bind_eq_ok.1 he
      cases he
      exact hI.keeps_deleteResource (hI.grown hs hc) ht
    · cases he
      exact hI.added hs hc

/-! ### Flows -/

theorem keeps_createFlow (hI : Rule I) {id : AuID} (hs : I h s) (he : procAuCreateFlow env id s = .ok (status, s')) :
    I h s' := by
  unfold procAuCreateFlow at he
  split at he
  · cases he
    exact hs
  · obtain ⟨⟨added, t⟩, ht, he⟩ := Exec.bind_eq_ok.1 he
    cases he
    have hnew : I h { s with
        flows := s.flows.alloc { flowId := id }, links := Function.update s.links s.flows.next {} } := hI.created hs
    obtain hadd | ⟨-, rfl⟩ := hI.keeps_addResource (r := ⟨id, .auFlowType, s.flows.next⟩) hnew ht
    · exact hadd
    · exact hnew

theorem keeps_destroyFlow (hI : Rule I) {id : AuID} (hs : I h s) (he : procAuDestroyFlow env id s = .ok (status, s')) :
    I h s' := by
  unfold procAuDestroyFlow at he
  split at he
  · cases he
    exact hs
  · obtain ⟨t, ht, he⟩ := Exec.bind_eq_ok.1 he
    cases he
    exact hI.keeps_freeResource hs ht

theorem keeps_linkFlow (hI : Rule I) (hs : I h s) (he : s.linkFlow p = .ok s') : I h s' ∧ s'.flows = s.flows := by
  simp only [Server.linkFlow, Exec.bind_eq_ok, Except.ok.injEq] at he
  obtain ⟨f, -, l, -, rfl⟩ := he
  refine ⟨hI.setList hs _ _, ?_⟩
  unfold Server.setList
  split <;> rfl

theorem mapM_fresh {α : Type} (raw : α → AuElement AuFixedPoint) {l : List α} {f : α → Except AuStatus ServerElement}
    {els : List ServerElement} (hf : ∀ a e, f a = .ok e →
      e.raw = raw a ∧ e.compiled = false ∧ e.component = none ∧ e.refCnt = 0)
    (he : l.mapM f = .ok els) : FreshElements (l.map raw) els := by
  induction l generalizing els with
  | nil =>
    rw [List.mapM_nil] at he
    cases he
    exact ⟨rfl, by simp⟩
  | cons a l ih =>
    rw [List.mapM_cons] at he
    rcases ha : f a with status | e
    · rw [ha] at he
      cases he
    · rw [ha] at he
      rcases hl : l.mapM f with status | els'
      · rw [hl] at he
        cases he
      · rw [hl] at he
        cases he
        obtain ⟨hraw, hfresh⟩ := hf a e ha
        have htail := ih hl
        refine ⟨by rw [List.map_cons, List.map_cons, hraw, htail.raws], fun e' he' => ?_⟩
        rcases List.mem_cons.1 he' with rfl | he'
        · exact hfresh
        · exact htail.compiled e' he'

theorem initElements_fresh {lookup : AuID → Option FlowPtr} {client : Nat} {raws : List (AuElement AuFixedPoint)}
    {els : List ServerElement} (he : initElements lookup client p raws = .ok els) : FreshElements raws els := by
  have := mapM_fresh Prod.fst (fun a e hae => ?_) he
  · rwa [List.zipIdx_map_fst] at this
  · rcases hactions : storeActions lookup p raws.length a.1 with status | actions
    · simp [hactions, bind, Except.bind] at hae
    · simp only [hactions, bind, Except.bind] at hae
      cases hae
      exact ⟨rfl, rfl, rfl, rfl⟩

theorem bareElements_fresh (client : Nat) (raws : List (AuElement AuFixedPoint)) :
    FreshElements raws (raws.zipIdx.map fun (el, i) => initElement client i el []) := by
  refine ⟨?_, fun e he => ?_⟩
  · rw [List.map_map]
    exact List.zipIdx_map_fst 0 raws
  · obtain ⟨a, -, rfl⟩ := List.mem_map.1 he
    exact ⟨rfl, rfl, rfl⟩

theorem keeps_installElements (hI : Rule I) {r : SetElementsRequest} {f : ServerFlow} (hs : I h s)
    (hf : s.flows.get p = some f) (hnone : f.elements = none)
    (he : installElements env r p s = .ok (status, s')) : I h s' := by
  unfold installElements at he
  split at he
  · cases he
    exact hs
  · dsimp only at he
    split at he
    · obtain ⟨t, ht, he⟩ := Exec.bind_eq_ok.1 he
      cases he
      exact hI.keeps_auFreeFlowElements
        (hI.installed hs hf hnone (bareElements_fresh r.client r.elements)) ht
    · rename_i els hels
      obtain ⟨s₁, h₁, he⟩ := Exec.bind_eq_ok.1 he
      obtain ⟨⟨status₁, s₂⟩, h₂, he⟩ := Exec.bind_eq_ok.1 he
      obtain ⟨hlink, hflows⟩ := hI.keeps_linkFlow (hI.installed hs hf hnone (initElements_fresh hels)) h₁
      have hf₁ : s₁.flows.get p =
          some (f.install r.clocked s.nextBlock (r.elements.map (·.varLen)).sum els) := by
        rw [hflows, Heap.get_modify_self, hf]
        rfl
      have hidle : f.compiled.outputs = [] := hI.idle hs hf hnone
      have hcompiled : I h s₂ := hI.compiled hlink hf₁ hidle h₂
      dsimp only at he
      split at he
      · cases he
        exact hI.noted hcompiled fun f => ⟨_, _, _, rfl⟩
      · obtain ⟨t, ht, he⟩ := Exec.bind_eq_ok.1 he
        cases he
        exact hI.keeps_auFreeFlowElements hcompiled ht

theorem keeps_setElements (hI : Rule I) {r : SetElementsRequest} (hs : I h s)
    (he : procAuSetElements env r s = .ok (status, s')) : I h s' := by
  unfold procAuSetElements at he
  split at he
  · cases he
    exact hs
  · split at he
    · cases he
      exact hs
    · split at he
      · cases he
        exact hs
      · obtain ⟨f, hf, he⟩ := Exec.bind_eq_ok.1 he
        obtain ⟨t, ht, he⟩ := Exec.bind_eq_ok.1 he
        rw [Server.flow, Exec.deref_eq_ok] at hf
        split at ht
        · obtain ⟨f', hf', hnone⟩ := auFreeFlowElements_get ht
          exact hI.keeps_installElements (hI.keeps_auFreeFlowElements hs ht) hf' hnone he
        · rename_i hnone
          cases ht
          exact hI.keeps_installElements hs hf (by simpa using hnone) he

/-! ### States and parameters -/

theorem keeps_processStateChanges (hI : Rule I) {cs : List StateChange} (hs : I h s)
    (he : auProcessStateChanges env cs s = .ok s') : I h s' := by
  obtain ⟨t, ht, he⟩ := Exec.bind_eq_ok.1 he
  have hchanges : I h t := by
    refine Exec.foldlM_inv (I := I h) (fun c _ s s' hs he => ?_) hs ht
    obtain ⟨⟨b, t⟩, hchange, he⟩ := Exec.bind_eq_ok.1 he
    cases he
    exact hI.static hs (changeElementState_static hchange)
  exact hI.static hchanges (auProcessClockedFlows_static he)

theorem keeps_setElementStates (hI : Rule I) {lengthOk : Bool} {states : List AuElementState} (hs : I h s)
    (he : procAuSetElementStates env lengthOk states s = .ok (status, s')) : I h s' := by
  unfold procAuSetElementStates at he
  split at he
  · cases he
    exact hs
  · split at he
    · cases he
      exact hs
    · obtain ⟨⟨status₁, cs⟩, -, he⟩ := Exec.bind_eq_ok.1 he
      dsimp only at he
      split at he
      · cases he
        exact hs
      · obtain ⟨t, ht, he⟩ := Exec.bind_eq_ok.1 he
        cases he
        exact hI.keeps_processStateChanges hs ht

theorem keeps_setParameters (hI : Rule I) {blocks : List AuElementParameters} (hs : I h s)
    (he : setParameters blocks s = .ok (status, s')) : I h s' := by
  induction blocks generalizing s with
  | nil =>
    cases he
    exact hs
  | cons parms blocks ih =>
    unfold setParameters at he
    split at he
    · cases he
      exact hs
    · rename_i p _
      obtain ⟨f, hf, he⟩ := Exec.bind_eq_ok.1 he
      rw [Server.flow, Exec.deref_eq_ok] at hf
      split at he
      · cases he
        exact hs
      · rename_i el hel
        have hel : s.element p parms.elementNum = some el := by rw [Server.element, hf]; exact hel
        exact ih (hI.noted (hI.parameters hs hel) fun f => ⟨_, _, _, rfl⟩) he

theorem keeps_compileFlowAgain (hI : Rule I) (hs : I h s) (he : compileFlowAgain env p s = .ok (status, s')) : I h s' := by
  obtain ⟨f, hf, he⟩ := Exec.bind_eq_ok.1 he
  rw [Server.flow, Exec.deref_eq_ok] at hf
  split at he
  · rename_i houtputs
    exact hI.compiled hs hf houtputs he
  · obtain ⟨⟨status₁, f'⟩, hf', he⟩ := Exec.bind_eq_ok.1 he
    cases he
    exact hI.recompiled hs hf hf'

theorem keeps_recompileFlows (hI : Rule I) {ps : List FlowPtr} (hs : I h s)
    (he : recompileFlows env ps s = .ok (status, s')) : I h s' := by
  induction ps generalizing s with
  | nil =>
    cases he
    exact hs
  | cons p ps ih =>
    obtain ⟨f, hf, he⟩ := Exec.bind_eq_ok.1 he
    split at he
    · obtain ⟨⟨status₁, t⟩, ht, he⟩ := Exec.bind_eq_ok.1 he
      have hnoted := hI.noted (p := p) (g := fun f => { f with needsRecompile := false })
        (hI.keeps_compileFlowAgain hs ht) fun f => ⟨_, _, _, rfl⟩
      dsimp only at he
      split at he
      · cases he
        exact hnoted
      · exact ih hnoted he
    · exact ih hs he

theorem keeps_setElementParameters (hI : Rule I) {blocks : List AuElementParameters} (hs : I h s)
    (he : procAuSetElementParameters env blocks s = .ok (status, s')) : I h s' := by
  obtain ⟨⟨status₁, s₁⟩, h₁, he⟩ := Exec.bind_eq_ok.1 he
  have hs₁ := hI.keeps_setParameters hs h₁
  dsimp only at he
  split at he
  · cases he
    exact hs₁
  · obtain ⟨ps, -, he⟩ := Exec.bind_eq_ok.1 he
    obtain ⟨⟨status₂, s₂⟩, h₂, he⟩ := Exec.bind_eq_ok.1 he
    have hs₂ := hI.keeps_recompileFlows hs₁ h₂
    dsimp only at he
    split at he
    · cases he
      exact hs₂
    · obtain ⟨ps', -, he⟩ := Exec.bind_eq_ok.1 he
      obtain ⟨⟨status₃, s₃⟩, h₃, he⟩ := Exec.bind_eq_ok.1 he
      have hs₃ := hI.keeps_recompileFlows hs₂ h₃
      dsimp only at he
      split at he
      · cases he
        exact hs₃
      · obtain ⟨s₄, h₄, he⟩ := Exec.bind_eq_ok.1 he
        cases he
        exact hI.static hs₃ (auProcessClockedFlows_static h₄)

/-! ### Buckets -/

/-- A bucket is made for a client that is in use. -/
def KnownClient (s : Server) (i : Input) : Prop :=
  ∀ id lengthOk maskOk a, i = .request (.createBucket id lengthOk maskOk a) → (s.clientTable (clientId id)).isSome

theorem keeps_createBucket (hI : Rule I) {id : AuID} {lengthOk maskOk : Bool} {a : AuBucketAttributes} (hs : I h s)
    (hknown : (s.clientTable (clientId id)).isSome ∨ ∀ p h s, I (p :: h) s → I h s)
    (he : procAuCreateBucket env id lengthOk maskOk a s = .ok (status, s')) : I h s' := by
  unfold procAuCreateBucket at he
  dsimp only at he
  split at he
  · cases he
    exact hs
  · split at he
    · cases he
      exact hs
    · split at he
      · cases he
        exact hs
      · obtain ⟨l, -, he⟩ := Exec.bind_eq_ok.1 he
        obtain ⟨⟨added, t⟩, ht, he⟩ := Exec.bind_eq_ok.1 he
        cases he
        have hnew : I (s.nextComponent :: h) { s with
            comps := Function.update s.comps s.nextComponent (some (newBucket env a))
            nextComponent := s.nextComponent + 1 } := hI.bucket hs
        have hlinked : I (s.nextComponent :: h) { s with
            comps := Function.update s.comps s.nextComponent (some (newBucket env a))
            nextComponent := s.nextComponent + 1
            compLinks := l.1
            auBuckets := l.2 } := hI.unlinked hnew rfl
        obtain hadd | ⟨hadd, rfl⟩ := hI.keeps_addResource (r := ⟨id, .auComponentType, s.nextComponent⟩) hlinked ht
        · exact hadd
        · rcases hknown with hknown | hknown
          · -- for a client in use the bucket gets a record, or it is deleted
            obtain ⟨c, hc⟩ := Option.isSome_iff_exists.1 hknown
            subst hadd
            simp only [addResource, hc] at ht
            split at ht
            · obtain ⟨t, ht', he⟩ := Exec.bind_eq_ok.1 ht
              cases he
              exact hI.keeps_deleteResource (r := ⟨id, .auComponentType, s.nextComponent⟩) (hI.grown hlinked hc) ht'
            · cases ht
          · exact hknown _ _ _ hlinked

theorem keeps_destroyBucket (hI : Rule I) {client : Nat} {id : AuID} (hs : I h s)
    (he : procAuDestroyBucket env client id s = .ok (status, s')) : I h s' := by
  unfold procAuDestroyBucket at he
  split at he
  · cases he
    exact hs
  · obtain ⟨c, hc, he⟩ := Exec.bind_eq_ok.1 he
    rw [Exec.deref_eq_ok] at hc
    split at he
    · cases he
      exact hs
    · obtain ⟨t, ht, he⟩ := Exec.bind_eq_ok.1 he
      cases he
      exact hI.keeps_freeResource
        (hI.contents hs hc (show ({ c with destroyed := true } : Component).still = c.still from rfl)) ht

/-! ### Data from and for clients -/

theorem writeElementPort_still {c c' : Component} {bytes : List UInt8}
    (he : writeElementPort c bytes = .ok (some c')) : c'.still = c.still := by
  unfold writeElementPort at he
  dsimp only at he
  split at he
  · cases he
  · split at he
    · cases he
      rfl
    · obtain ⟨d, -, he⟩ := Exec.bind_eq_ok.1 he
      obtain ⟨d', -, he⟩ := Exec.bind_eq_ok.1 he
      cases he
      rfl

theorem readElementPort_still {c c' : Component} {n : Nat} {rep : AuReadElementReply} {sent : Sent}
    (he : readElementPort c n = .ok (c', rep, sent)) : c'.still = c.still := by
  unfold readElementPort at he
  dsimp only at he
  obtain ⟨r, -, he⟩ := Exec.bind_eq_ok.1 he
  obtain ⟨sent', -, he⟩ := Exec.bind_eq_ok.1 he
  cases he
  rfl

theorem component_eq_ok {el : ServerElement} {q : ComponentPtr} {c : Component} (he : s.component el = .ok (q, c)) :
    s.comps q = some c := by
  obtain ⟨q', -, he⟩ := Exec.bind_eq_ok.1 he
  obtain ⟨c', hc, he⟩ := Exec.bind_eq_ok.1 he
  cases he
  exact Exec.deref_eq_ok.1 hc

theorem keeps_restartElement (hI : Rule I) {i : Nat} (hs : I h s) (he : restartElement env p i s = .ok s') :
    I h s' := by
  obtain ⟨el, -, he⟩ := Exec.bind_eq_ok.1 he
  split at he
  · obtain ⟨⟨b, t⟩, hchange, he⟩ := Exec.bind_eq_ok.1 he
    cases he
    exact hI.static hs (changeElementState_static hchange)
  · cases he
    exact hs

theorem keeps_writePort (hI : Rule I) {r : WriteElementRequest} {el : ServerElement} (hs : I h s)
    (he : writePort env r p el s = .ok (status, s')) : I h s' := by
  obtain ⟨⟨q, c⟩, hc, he⟩ := Exec.bind_eq_ok.1 he
  have hc := component_eq_ok hc
  obtain ⟨o, ho, he⟩ := Exec.bind_eq_ok.1 he
  rcases o with - | c'
  · cases he
    exact hs
  · have hstill := writeElementPort_still ho
    dsimp only at he
    split at he
    · cases he
      exact hI.contents hs hc hstill
    · obtain ⟨t, ht, he⟩ := Exec.bind_eq_ok.1 he
      cases he
      have hset : I h (s.setComponent q (if r.state = auTransferStateEnd then { c' with eof := true, incoming := 0 } else c')) := by
        refine hI.contents hs hc ?_
        split
        · exact hstill
        · exact hstill
      split at ht
      · exact hI.keeps_restartElement hset ht
      · cases ht
        exact hset

theorem trivialBucket_eq_ok {f : ServerFlow} {i d : Nat} {q : ComponentPtr} {c : Component}
    (he : trivialBucket f i s = .ok (q, c, d)) : s.comps q = some c := by
  obtain ⟨el, -, he⟩ := Exec.bind_eq_ok.1 he
  obtain ⟨⟨q', c'⟩, hc, he⟩ := Exec.bind_eq_ok.1 he
  cases he
  exact component_eq_ok hc

theorem keeps_writeElement (hI : Rule I) {r : WriteElementRequest} (hs : I h s)
    (he : procAuWriteElement env r s = .ok (status, s')) : I h s' := by
  unfold procAuWriteElement at he
  split at he
  · cases he
    exact hs
  · obtain ⟨f, -, he⟩ := Exec.bind_eq_ok.1 he
    rcases hel : f.els[r.elementNum]? with - | el
    · rw [hel] at he
      cases he
      exact hs
    · rw [hel] at he
      dsimp only at he
      rcases ite_eq_iff.1 he with ⟨-, he⟩ | ⟨-, he⟩
      · cases he
        exact hs
      rcases ite_eq_iff.1 he with ⟨-, he⟩ | ⟨-, he⟩
      · cases he
        exact hs
      rcases ite_eq_iff.1 he with ⟨-, he⟩ | ⟨-, he⟩
      · cases he
        exact hs
      rcases ite_eq_iff.1 he with ⟨-, he⟩ | ⟨-, he⟩
      · obtain ⟨⟨q, c, d⟩, hc, he⟩ := Exec.bind_eq_ok.1 he
        dsimp only at he
        split at he
        · cases he
          exact hs
        · obtain ⟨data, -, he⟩ := Exec.bind_eq_ok.1 he
          cases he
          exact hI.noted (hI.contents hs (trivialBucket_eq_ok hc)
            (show ({ c with data } : Component).still = c.still from rfl)) fun f => ⟨_, _, _, rfl⟩
      · exact hI.keeps_writePort hs he

theorem keeps_readElement (hI : Rule I) {flow : AuID} {i n : Nat} (hs : I h s)
    (he : procAuReadElement env flow i n s = .ok (status, s')) : I h s' := by
  unfold procAuReadElement at he
  split at he
  · cases he
    exact hs
  · obtain ⟨f, -, he⟩ := Exec.bind_eq_ok.1 he
    rcases hel : f.els[i]? with - | el
    · rw [hel] at he
      cases he
      exact hs
    · rw [hel] at he
      dsimp only at he
      rcases ite_eq_iff.1 he with ⟨-, he⟩ | ⟨-, he⟩
      · cases he
        exact hs
      rcases ite_eq_iff.1 he with ⟨-, he⟩ | ⟨-, he⟩
      · obtain ⟨⟨q, c, d⟩, hc, he⟩ := Exec.bind_eq_ok.1 he
        dsimp only at he
        split at he
        · cases he
        · cases he
          exact hI.noted hs fun f => ⟨_, _, _, rfl⟩
      · obtain ⟨⟨q, c⟩, hc, he⟩ := Exec.bind_eq_ok.1 he
        obtain ⟨⟨c', rep, sent⟩, hread, he⟩ := Exec.bind_eq_ok.1 he
        obtain ⟨t, ht, he⟩ := Exec.bind_eq_ok.1 he
        cases he
        exact hI.keeps_restartElement (hI.contents hs (component_eq_ok hc) (readElementPort_still hread)) ht

/-- A request. -/
theorem keeps_dispatch (hI : Rule I) {r : Request} (hs : I [] s)
    (hknown : KnownClient s (.request r) ∨ ∀ p h s, I (p :: h) s → I h s)
    (he : dispatch env s r = .ok (status, s')) : I [] s' := by
  cases r with
  | connect client =>
    unfold dispatch at he
    dsimp only at he
    split at he
    · cases he
      exact hs
    · rename_i hnone
      cases he
      exact hI.connected hs (by simpa using hnone)
  | createFlow id => exact hI.keeps_createFlow hs he
  | destroyFlow id => exact hI.keeps_destroyFlow hs he
  | setElements r => exact hI.keeps_setElements hs he
  | setElementStates lengthOk states => exact hI.keeps_setElementStates hs he
  | setElementParameters blocks => exact hI.keeps_setElementParameters hs he
  | createBucket id lengthOk maskOk a =>
    exact hI.keeps_createBucket hs (hknown.imp_left fun hk => hk id lengthOk maskOk a rfl) he
  | destroyBucket client id => exact hI.keeps_destroyBucket hs he
  | writeElement r => exact hI.keeps_writeElement hs he
  | readElement flow elementNum num_bytes => exact hI.keeps_readElement hs he
  | closeClient client =>
    obtain ⟨t, ht, he⟩ := Exec.bind_eq_ok.1 he
    cases he
    exact hI.keeps_freeClientResources hs ht

end Rule

/-! ### Ticks -/

section
variable {env : Env} {tick : Tick} {s s' : Server}

theorem readInput_static {input : CompiledInput AuFixedPoint} {el : ServerElement} {b : Bool}
    (he : readInput env tick input el s = .ok (b, s')) : SameStatic s s' := by
  unfold readInput at he
  split at he
  · cases he
    exact .refl _
  · split at he
    · obtain ⟨c, -, he⟩ := Exec.bind_eq_ok.1 he
      split at he
      · exact changeElementState_static he
      · exact changeElementState_static he
    · exact changeElementState_static he
    · exact changeElementState_static he
    · exact changeElementState_static he
    · cases he
      exact .refl _

theorem writeOutput_static {output : CompiledOutput AuFixedPoint} {el : ServerElement} {b : Bool}
    (he : writeOutput env tick output el s = .ok (b, s')) : SameStatic s s' := by
  unfold writeOutput at he
  split at he
  · cases he
    exact .refl _
  · split at he
    · exact changeElementState_static he
    · exact changeElementState_static he
    · exact changeElementState_static he
    · cases he
      exact .refl _
    · cases he
      exact .refl _

theorem processInput_static {r r' : Processing} {input : CompiledInput AuFixedPoint}
    (he : processInput env tick r input = .ok r') : SameStatic r.server r'.server := by
  obtain ⟨el, -, he⟩ := Exec.bind_eq_ok.1 he
  dsimp only at he
  split at he
  · obtain ⟨⟨b, t⟩, ht, he⟩ := Exec.bind_eq_ok.1 he
    cases he
    exact readInput_static ht
  · cases he
    exact .refl _

theorem processOutput_static {r r' : Processing} {output : CompiledOutput AuFixedPoint}
    (he : processOutput env tick r output = .ok r') : SameStatic r.server r'.server := by
  obtain ⟨oel, -, he⟩ := Exec.bind_eq_ok.1 he
  obtain ⟨r₁, h₁, he⟩ := Exec.bind_eq_ok.1 he
  have hinputs : SameStatic r.server r₁.server :=
    Exec.foldlM_rel (R := fun r r' : Processing => SameStatic r.server r'.server) (fun _ => .refl _)
      (fun _ _ _ h h' => h.trans h') (fun _ _ _ _ he => processInput_static he) h₁
  split at he
  · obtain ⟨oel', -, he⟩ := Exec.bind_eq_ok.1 he
    obtain ⟨⟨b, t⟩, ht, he⟩ := Exec.bind_eq_ok.1 he
    cases he
    exact hinputs.trans (writeOutput_static ht)
  · cases he
    exact hinputs

theorem auProcessData_static (he : auProcessData env tick s = .ok s') : SameStatic s s' := by
  unfold auProcessData at he
  split at he
  · cases he
    exact .refl _
  · obtain ⟨r, hr, he⟩ := Exec.bind_eq_ok.1 he
    have houtputs : SameStatic s r.server :=
      Exec.foldlM_rel (R := fun r r' : Processing => SameStatic r.server r'.server) (fun _ => .refl _)
        (fun _ _ _ h h' => h.trans h') (fun _ _ _ _ he => processOutput_static he) hr
    split at he
    · exact houtputs.trans (auProcessClockedFlows_static he)
    · cases he
      exact houtputs

end

namespace Rule
variable {I : List ComponentPtr → Server → Prop} {s s' s₀ : Server}

theorem keeps_step (hI : Rule I) {i : Env × Input} (hs : I [] s)
    (hknown : KnownClient s i.2 ∨ ∀ p h s, I (p :: h) s → I h s) (he : step s i = .ok s') : I [] s' := by
  obtain ⟨env, i⟩ := i
  cases i with
  | request r =>
    obtain ⟨⟨status, t⟩, ht, he⟩ := Exec.bind_eq_ok.1 he
    cases he
    exact hI.keeps_dispatch hs hknown ht
  | tick t => exact hI.static hs (auProcessData_static he)

/-- The rule, for an invariant that has nothing to do with references. -/
theorem reach (hI : Rule I) (hany : ∀ p h s, I (p :: h) s → I h s) (hs : I [] s₀)
    (hreach : Reach step (fun _ _ => True) s₀ s) : I [] s :=
  hreach.inv hs fun _ _ _ hs _ he => hI.keeps_step hs (.inr hany) he

/-- The rule, for runs in which buckets are made for clients in use. -/
theorem reach_known (hI : Rule I) (hs : I [] s₀) (hreach : Reach step (fun s i => KnownClient s i.2) s₀ s) : I [] s :=
  hreach.inv hs fun _ _ _ hs hk he => hI.keeps_step hs (.inl hk) he

/-- The rule, for a server that may have lost references. -/
theorem leaky (hI : Rule I) : Rule fun h s => ∃ l, I (h ++ l) s where
  idle := fun ⟨_, hs⟩ hf hnone => hI.idle hs hf hnone
  static := fun ⟨l, hs⟩ hst => ⟨l, hI.static hs hst⟩
  unlinked := fun ⟨l, hs⟩ hlinks => ⟨l, hI.unlinked hs hlinks⟩
  connected := fun ⟨l, hs⟩ hnone => ⟨l, hI.connected hs hnone⟩
  created := fun ⟨l, hs⟩ => ⟨l, hI.created hs⟩
  grown := fun ⟨l, hs⟩ hc => ⟨l, hI.grown hs hc⟩
  added := fun ⟨l, hs⟩ hc => ⟨l, hI.added (by rwa [← List.append_assoc]) hc⟩
  taken := fun ⟨l, hs⟩ => ⟨l, by rw [List.append_assoc]; exact hI.taken hs⟩
  closed := fun ⟨l, hs⟩ => ⟨l, by rw [List.append_assoc]; exact hI.closed hs⟩
  givenBack := fun ⟨l, hs⟩ he => ⟨l, hI.givenBack hs he⟩
  emptied := fun ⟨l, hs⟩ hf he => ⟨l, hI.emptied hs hf he⟩
  freed := fun ⟨l, hs⟩ hf hnone => ⟨l, hI.freed hs hf hnone⟩
  installed := fun ⟨l, hs⟩ hf hnone hfresh => ⟨l, hI.installed hs hf hnone hfresh⟩
  compiled := fun ⟨l, hs⟩ hf hnil he => ⟨l, hI.compiled hs hf hnil he⟩
  recompiled := fun ⟨l, hs⟩ hf he => ⟨l, hI.recompiled hs hf he⟩
  parameters := fun ⟨l, hs⟩ hel => ⟨l, hI.parameters hs hel⟩
  noted := fun ⟨l, hs⟩ hg => ⟨l, hI.noted hs hg⟩
  bucket := fun ⟨l, hs⟩ => ⟨l, hI.bucket hs⟩
  contents := fun ⟨l, hs⟩ hc hstill => ⟨l, hI.contents hs hc hstill⟩

theorem leak (hperm : ∀ {h h' s}, h.Perm h' → I h s → I h' s) (p : ComponentPtr) (h : List ComponentPtr) (s : Server)
    (hs : ∃ l, I ((p :: h) ++ l) s) : ∃ l, I (h ++ l) s := by
  obtain ⟨l, hs⟩ := hs
  exact ⟨p :: l, hperm List.perm_middle.symm hs⟩

end Rule

end Nas
