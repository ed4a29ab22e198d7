import Nas.Compile

/-!
# An invariant rule for the flow compiler

`CompileRule env I J`: `I n` holds of a compilation before element `n`, `J output` while it follows the inputs of
`output`. Both are kept by what `AuCompileFlow` does to elements and components, and then `I` is kept by all of it.
-/

namespace Nas
variable {K : Type}

structure CompileRule (env : CompileEnv K) (I : Nat → Compiling K → Prop) (J : CompiledOutput K → Compiling K → Prop) :
    Prop where
  /-- an element that is no import is marked -/
  marked {output st i e} : J output st → st.elements[i]? = some e → e.raw.isImport = false →
    J output (st.setElement i e.markCompiled)
  imported {output st st' i e multiplyConstant addConstant inTracks firstOutTrack status} : J output st →
    st.elements[i]? = some e → e.raw.isImport →
    compileImport env (st.setElement i e.markCompiled) i e multiplyConstant addConstant inTracks firstOutTrack =
      .ok (status, st') → J output st'
  skipped {n st e} : I n st → st.elements[n]? = some e → e.raw.isExport = false → I (n + 1) st
  /-- there is no memory for another output -/
  full {n st} : I n st → I n { st with allocs := st.allocs + 1 }
  /-- the export does not get its component -/
  refused {n st st' e status} : I n st → st.elements[n]? = some e → e.raw.isExport →
    Compiling.attach env { st with allocs := st.allocs + 1 } n e = (status, st') → status ≠ .auSuccess → I n st'
  opened {n st st' e component} : I n st → st.elements[n]? = some e → e.raw.isExport →
    Compiling.attach env { st with allocs := st.allocs + 1 } n e = (.auSuccess, st') →
    (st'.elements[n]?).bind (·.component) = some component →
    J { component, flowEl := ⟨env.flow, env.block, n⟩, firstInput := e.raw.firstInput, inputs := [] }
      { st' with inputs := [] }
  closed {output st} : J output st →
    I (output.flowEl.num + 1) { st with outputs := st.outputs ++ [{ output with inputs := st.inputs }] }
  /-- `inputs` is only looked at for an output -/
  inputs {n st l} : I n st → I n { st with inputs := l }

namespace CompileRule
variable {env : CompileEnv K} {I : Nat → Compiling K → Prop} {J : CompiledOutput K → Compiling K → Prop}
  {output : CompiledOutput K} {st st' : Compiling K} {status : AuStatus} {fuel : Nat}

/-- Calls keep the invariant. -/
def Keeps (I : Compiling K → Prop) (call : CompileCall K) : Prop :=
  ∀ st i inTracks firstOutTrack status st', I st → call st i inTracks firstOutTrack = .ok (status, st') → I st'

theorem keeps_bundle {call : CompileCall K} (hcall : Keeps (J output) call) {tracks : List AuInputTrack}
    {nextInput firstOutTrack : Nat} {inputTracks : List Nat} (hst : J output st)
    (he : compileBundle call tracks nextInput inputTracks firstOutTrack st = .ok (status, st')) : J output st' := by
  induction tracks generalizing nextInput inputTracks firstOutTrack st with
  | nil => exact hcall _ _ _ _ _ _ hst he
  | cons t tracks ih =>
    unfold compileBundle at he
    split at he
    · obtain ⟨⟨status₁, st₁⟩, h₁, he⟩ := Exec.bind_eq_ok.1 he
      have hst₁ := hcall _ _ _ _ _ _ hst h₁
      dsimp only at he
      split at he
      · cases he
        exact hst₁
      · exact ih hst₁ he
    · split at he
      · exact ih hst he
      · cases he

theorem keeps_sum {call : CompileCall K} (hcall : Keeps (J output) call) {inTracks inputs : List Nat}
    {firstOutTrack : Nat} (hst : J output st)
    (he : compileSum call inTracks firstOutTrack inputs st = .ok (status, st')) : J output st' := by
  induction inputs generalizing st with
  | nil =>
    cases he
    exact hst
  | cons input inputs ih =>
    obtain ⟨⟨status₁, st₁⟩, h₁, he⟩ := Exec.bind_eq_ok.1 he
    have hst₁ := hcall _ _ _ _ _ _ hst h₁
    dsimp only at he
    split at he
    · cases he
      exact hst₁
    · exact ih hst₁ he

theorem keeps_compileInputs (hR : CompileRule env I J) (output : CompiledOutput K) (fuel : Nat)
    (multiplyConstant addConstant : K) :
    Keeps (J output) (compileInputs env fuel multiplyConstant addConstant) := by
  induction fuel generalizing multiplyConstant addConstant with
  | zero =>
    intro st i inTracks firstOutTrack status st' _ he
    cases he
  | succ fuel ih =>
    intro st i inTracks firstOutTrack status st' hst he
    obtain ⟨e, hel, he⟩ := Exec.bind_eq_ok.1 he
    rw [Exec.deref_eq_ok] at hel
    unfold compileElement at he
    split at he
    · exact hR.imported hst hel (by simp_all [AuElement.isImport]) he
    · exact hR.imported hst hel (by simp_all [AuElement.isImport]) he
    · exact hR.imported hst hel (by simp_all [AuElement.isImport]) he
    · exact hR.imported hst hel (by simp_all [AuElement.isImport]) he
    · exact keeps_bundle (ih _ _) (hR.marked hst hel (by simp_all [AuElement.isImport])) he
    · exact ih _ _ _ _ _ _ _ _ (hR.marked hst hel (by simp_all [AuElement.isImport])) he
    · exact ih _ _ _ _ _ _ _ _ (hR.marked hst hel (by simp_all [AuElement.isImport])) he
    · exact keeps_sum (ih _ _) (hR.marked hst hel (by simp_all [AuElement.isImport])) he
    · cases he
      refine hR.marked hst hel ?_
      cases hraw : e.raw <;> simp_all [AuElement.isImport]

theorem keeps_compileOutput (hR : CompileRule env I J) {n : Nat} (hst : I n st)
    (he : compileOutput env fuel st n = .ok (status, st')) : I (n + 1) st' ∨ status ≠ .auSuccess ∧ I n st' := by
  obtain ⟨e, hel, he⟩ := Exec.bind_eq_ok.1 he
  rw [Exec.deref_eq_ok] at hel
  dsimp only at he
  split at he
  · rename_i hexport
    cases he
    exact .inl (hR.skipped hst hel (by simpa using hexport))
  · rename_i hexport
    rw [Bool.not_eq_true, Bool.not_eq_false] at hexport
    split at he
    · cases he
      exact .inr ⟨by decide, hR.full hst⟩
    · rcases hattach : Compiling.attach env { st with allocs := st.allocs + 1 } n e with ⟨status₁, st₁⟩
      rw [hattach] at he
      dsimp only at he
      split at he
      · rename_i hstatus
        cases he
        exact .inr ⟨hstatus, hR.refused hst hel hexport hattach hstatus⟩
      · rename_i hstatus
        obtain rfl : status₁ = .auSuccess := by simpa using hstatus
        obtain ⟨component, hcomponent, he⟩ := Exec.bind_eq_ok.1 he
        rw [Exec.deref_eq_ok] at hcomponent
        have hopened := hR.opened hst hel hexport hattach hcomponent
        left
        split at he
        · cases he
          exact hR.inputs (l := st₁.inputs) (hR.closed hopened)
        · obtain ⟨⟨status₂, st₂⟩, h₂, he⟩ := Exec.bind_eq_ok.1 he
          cases he
          exact hR.closed (hR.keeps_compileInputs _ _ _ _ _ _ _ _ _ _ hopened h₂)

theorem keeps_compileOutputs (hR : CompileRule env I J) {n k : Nat} (hst : I n st)
    (he : compileOutputs env fuel (List.range' n k) st = .ok (status, st')) : ∃ n', I n' st' := by
  induction k generalizing n st with
  | zero =>
    cases he
    exact ⟨n, hst⟩
  | succ k ih =>
    obtain ⟨⟨status₁, st₁⟩, h₁, he⟩ := Exec.bind_eq_ok.1 he
    dsimp only at he
    rcases hR.keeps_compileOutput hst h₁ with hnext | ⟨hstatus, hsame⟩
    · split at he
      · cases he
        exact ⟨_, hnext⟩
      · exact ih hnext he
    · rw [if_pos hstatus] at he
      cases he
      exact ⟨_, hsame⟩

theorem keeps_auCompileFlow (hR : CompileRule env I J) (hst : I 0 { st with outputs := [] })
    (he : auCompileFlow env fuel st = .ok (status, st')) : ∃ n, I n st' := by
  rw [auCompileFlow, List.range_eq_range'] at he
  exact hR.keeps_compileOutputs hst he

end CompileRule

/-! ### Components of elements -/

section
variable {env : CompileEnv K} {st st' : Compiling K} {i : Nat} {e : FlowElement K} {status : AuStatus}

/-- The element `i` of `st` got the component `p`, which is its own or shared, and a minibuffer if that is a bucket. -/
structure Attached (env : CompileEnv K) (st st' : Compiling K) (i : Nat) (e : FlowElement K) (p : ComponentPtr) :
    Prop where
  element : ∃ sampleRate, st'.elements = st.elements.set i { e with compiled := true, component := some p, sampleRate }
  inputs : st'.inputs = st.inputs
  outputs : st'.outputs = st.outputs
  minibufs : st'.minibufs = st.minibufs ++ if e.raw.isImportBucket ∨ e.raw.isExportBucket then [i] else []
  component : (∃ c size, e.raw.source env.auMinibufSamples = .create c size ∧ p = st.nextComponent ∧
      st'.comps = Function.update st.comps p (some c) ∧ st'.nextComponent = p + 1) ∨
    ∃ id f, (e.raw.source env.auMinibufSamples = .device id ∨ e.raw.source env.auMinibufSamples = .bucket id) ∧
      env.lookup id = some p ∧ st'.comps = Function.update st.comps p ((st.comps p).map f) ∧
      (∀ c : Component, ∃ sampleRate, f c = { c with refCnt := c.refCnt + 1, sampleRate }) ∧
      st'.nextComponent = st.nextComponent

theorem source_bucket {n : Nat} {el : AuElement K} {id : AuID} (h : el.source n = .bucket id) :
    el.isImportBucket ∨ el.isExportBucket := by
  unfold AuElement.source at h
  split at h <;> first
    | exact .inl rfl
    | exact .inr rfl
    | cases h
    | (unfold portSource at h; split at h <;> cases h)

theorem source_no_bucket {n : Nat} {el : AuElement K} (h : ∀ id, el.source n ≠ .bucket id) :
    ¬ (el.isImportBucket ∨ el.isExportBucket) := by
  cases el <;> simp_all [AuElement.source, AuElement.isImportBucket, AuElement.isExportBucket]

theorem attach_attached (h : st.attach env i e = (.auSuccess, st')) : ∃ p, Attached env st st' i e p := by
  unfold Compiling.attach at h
  split at h
  · cases h
  · rename_i c size hsource
    split at h
    · cases h
    · cases h
      have hno := source_no_bucket (n := env.auMinibufSamples) fun id => show e.raw.source _ ≠ _ by rw [hsource]; nofun
      exact ⟨st.nextComponent, ⟨_, rfl⟩, rfl, rfl, by rw [if_neg hno, List.append_nil]; rfl,
        .inl ⟨c, size, hsource, rfl, rfl, rfl⟩⟩
  · rename_i id hsource
    split at h
    · cases h
    · rename_i p hp
      dsimp only at h
      have hno := source_no_bucket (n := env.auMinibufSamples) fun id => show e.raw.source _ ≠ _ by rw [hsource]; nofun
      split at h
      · cases h
        exact ⟨p, ⟨e.sampleRate, rfl⟩, rfl, rfl, by rw [if_neg hno, List.append_nil]; rfl, .inr ⟨id, _, .inl hsource, hp, rfl, fun c => ⟨_, rfl⟩, rfl⟩⟩
      · cases h
        exact ⟨p, ⟨_, rfl⟩, rfl, rfl, by rw [if_neg hno, List.append_nil]; rfl, .inr ⟨id, _, .inl hsource, hp, rfl, fun c => ⟨c.sampleRate, rfl⟩, rfl⟩⟩
  · rename_i id hsource
    split at h
    · cases h
    · rename_i p hp
      dsimp only at h
      split at h
      · cases h
      · cases h
        exact ⟨p, ⟨_, rfl⟩, rfl, rfl, by rw [if_pos (source_bucket hsource)]; rfl, .inr ⟨id, _, .inr hsource, hp, rfl, fun c => ⟨c.sampleRate, rfl⟩, rfl⟩⟩

theorem attach_refused (h : st.attach env i e = (status, st')) (hne : status ≠ .auSuccess) :
    ∃ allocs, st' = { st with allocs } := by
  unfold Compiling.attach at h
  split at h
  · cases h
    exact ⟨_, rfl⟩
  · split at h
    · cases h
      exact ⟨_, rfl⟩
    · cases h
      exact absurd rfl hne
  · split at h
    · cases h
      exact ⟨_, rfl⟩
    · dsimp only at h
      split at h
      · cases h
        exact absurd rfl hne
      · cases h
        exact absurd rfl hne
  · split at h
    · cases h
      exact ⟨_, rfl⟩
    · dsimp only at h
      split at h
      · cases h
        exact ⟨_, rfl⟩
      · cases h
        exact absurd rfl hne

theorem Compiling.share_eq {p : ComponentPtr} (hp : e.component = some p) : st.share i e =
    (st.setElement i { e with refCnt := e.refCnt + 1 }).modifyComponent p fun c => { c with refCnt := c.refCnt + 1 } := by
  unfold Compiling.share
  split
  · rename_i hnone
    rw [hp] at hnone
    cases hnone
  · rename_i q hq
    rw [hp] at hq
    cases hq
    rfl

/-- What the call for an import does: nothing, or it shares the component the import has got, or gets it one. -/
theorem compileImport_cases {multiplyConstant addConstant : K} {inTracks : List Nat} {firstOutTrack : Nat}
    (hel : st.elements[i]? = some e)
    (h : compileImport env (st.setElement i e.markCompiled) i e multiplyConstant addConstant inTracks firstOutTrack =
      .ok (status, st')) :
    (status ≠ .auSuccess ∧ ∃ allocs, st' = { st.setElement i e.markCompiled with allocs }) ∨
      status = .auSuccess ∧ ∃ p st₁, (e.compiled ∧ e.component = some p ∧
          st₁ = ({ st.setElement i e.markCompiled with allocs := st.allocs + 1 } : Compiling K).share i e ∨
        e.compiled = false ∧
          Attached env { st.setElement i e.markCompiled with allocs := st.allocs + 1 } st₁ i e p) ∧
        st' = { st₁ with inputs := st₁.inputs ++
          [{ component := p, flowEl := ⟨env.flow, env.block, i⟩, multiplyConstant, addConstant
             numTracks := inTracks.length, inTrack := inTracks
             outTrack := (List.range inTracks.length).map fun j => (firstOutTrack + j) % 2 ^ 8 }] } := by
  have hlt : i < st.elements.length := (List.getElem?_eq_some_iff.1 hel).1
  unfold compileImport at h
  dsimp only at h
  split at h
  · cases h
    exact .inl ⟨by decide, _, rfl⟩
  · by_cases hc : e.compiled
    · rw [if_pos hc] at h
      dsimp only at h
      rw [if_neg (by decide)] at h
      obtain ⟨p, hp, h⟩ := Exec.bind_eq_ok.1 h
      cases h
      refine .inr ⟨rfl, p, _, .inl ⟨hc, ?_, rfl⟩, rfl⟩
      rw [Exec.deref_eq_ok] at hp
      rcases hcomp : e.component with - | q
      · simp [Compiling.share, hcomp, Compiling.setElement, FlowElement.markCompiled, hlt] at hp
      · simpa [Compiling.share, hcomp, Compiling.setElement, Compiling.modifyComponent, hlt] using hp
    · rw [if_neg hc] at h
      rcases hattach : Compiling.attach env
        { st.setElement i e.markCompiled with allocs := (st.setElement i e.markCompiled).allocs + 1 } i e with ⟨status₁, st₁⟩
      rw [hattach] at h
      dsimp only at h
      split at h
      · rename_i hne
        cases h
        obtain ⟨allocs, rfl⟩ := attach_refused hattach hne
        exact .inl ⟨hne, allocs, rfl⟩
      · rename_i hstatus
        obtain rfl : status₁ = .auSuccess := by simpa using hstatus
        obtain ⟨q, hq⟩ := attach_attached hattach
        obtain ⟨p, hp, h⟩ := Exec.bind_eq_ok.1 h
        cases h
        obtain ⟨sampleRate, helement⟩ := hq.element
        rw [Exec.deref_eq_ok, helement] at hp
        obtain rfl : q = p := by simpa [Compiling.setElement, hlt] using hp
        exact .inr ⟨rfl, q, st₁, .inr ⟨by simpa using hc, hq⟩, rfl⟩

/-! ### What elements are -/

theorem map_set_self {α β : Type} {l : List α} {f : α → β} {a b : α} (h : l[i]? = some a) (hab : f b = f a) :
    (l.set i b).map f = l.map f := by
  obtain ⟨hi, rfl⟩ := List.getElem?_eq_some_iff.1 h
  rw [List.map_set, hab]
  refine List.ext_getElem (by simp) fun k _ _ => ?_
  by_cases hk : i = k
  · subst hk
    simp
  · simp [hk]

/-- Compiling an element changes nothing but these fields. -/
def FlowElement.Ignores {β : Type} (g : FlowElement K → β) : Prop :=
  ∀ e compiled component sampleRate refCnt, g { e with compiled, component, sampleRate, refCnt } = g e

/-- What has nothing to do with these fields stays. -/
theorem ignoredRule {β : Type} {g : FlowElement K → β} (hg : FlowElement.Ignores g) (env : CompileEnv K) (values : List β) :
    CompileRule env (fun _ st => st.elements.map g = values) fun _ st => st.elements.map g = values where
  marked {output st i e} hst hel _ := Eq.trans (map_set_self hel (hg e true e.component e.sampleRate e.refCnt)) hst
  imported {output st st' i e multiplyConstant addConstant inTracks firstOutTrack status} hst hel _ he := by
    obtain ⟨-, allocs, rfl⟩ | ⟨-, p, st₁, hst₁, rfl⟩ := compileImport_cases hel he
    · exact Eq.trans (map_set_self hel (hg e true e.component e.sampleRate e.refCnt)) hst
    · obtain ⟨-, hp, rfl⟩ | ⟨-, hattached⟩ := hst₁
      · rw [Compiling.share, hp]
        dsimp only [Compiling.modifyComponent, Compiling.setElement]
        rw [List.set_set]
        exact Eq.trans (map_set_self hel (hg e e.compiled (some p) e.sampleRate (e.refCnt + 1))) hst
      · obtain ⟨sampleRate, helement⟩ := hattached.element
        dsimp only
        rw [helement]
        dsimp only [Compiling.setElement]
        rw [List.set_set]
        exact Eq.trans (map_set_self hel (hg e true (some p) sampleRate e.refCnt)) hst
  skipped hst _ _ := hst
  full hst := hst
  refused hst _ _ he hne := by
    obtain ⟨allocs, rfl⟩ := attach_refused he hne
    exact hst
  opened {n st st' e component} hst hel _ he _ := by
    obtain ⟨p, hp⟩ := attach_attached he
    obtain ⟨sampleRate, helement⟩ := hp.element
    dsimp only
    rw [helement]
    exact Eq.trans (map_set_self hel (hg e true (some p) sampleRate e.refCnt)) hst
  closed hst := hst
  inputs hst := hst

theorem auCompileFlow_ignored {β : Type} {g : FlowElement K → β} (hg : FlowElement.Ignores g) {fuel : Nat}
    (he : auCompileFlow env fuel st = .ok (status, st')) : st'.elements.map g = st.elements.map g :=
  ((ignoredRule hg env (st.elements.map g)).keeps_auCompileFlow rfl he).elim fun _ h => h

/-- No element becomes another one. -/
theorem auCompileFlow_raws {fuel : Nat} (he : auCompileFlow env fuel st = .ok (status, st')) :
    st'.elements.map (·.raw) = st.elements.map (·.raw) :=
  auCompileFlow_ignored (fun _ _ _ _ _ => rfl) he

end

end Nas
