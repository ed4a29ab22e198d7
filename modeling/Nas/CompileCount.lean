import Nas.CompileRule
import Nas.Ledger
import Nas.Wiring

/-!
# References taken by the flow compiler

Each compiled input and each compiled output has a reference to its component. `Counted` says, of a compilation at any
point, that the counts of the components are those of the owners there were before and of what is compiled so far.
-/

namespace Nas
variable {K : Type}

/-! ### One more input or output -/

section
variable {p : FlowPtr} {b i : Nat} {ws : List Wiring} {w : Wiring} {outputs : List (CompiledOutput K)}
  {o : CompiledOutput K} {input : CompiledInput K} {ep : ElementPtr}

/-- The output with another input. -/
def CompiledOutput.addInput (o : CompiledOutput K) (input : CompiledInput K) : CompiledOutput K :=
  { o with inputs := o.inputs ++ [input] }

theorem count_addInput (q : ComponentPtr) :
    (⟨outputs ++ [o.addInput input]⟩ : CompiledFlow K).owned.count q =
      (⟨outputs ++ [o]⟩ : CompiledFlow K).owned.count q + if q = input.component then 1 else 0 := by
  have hsingle : [input.component].count q = if q = input.component then 1 else 0 := by
    by_cases hq : q = input.component
    · simp [hq]
    · simp [hq, Ne.symm hq]
  simp only [CompiledFlow.owned, CompiledOutput.owned, CompiledOutput.addInput, List.flatMap_append,
    List.flatMap_cons, List.flatMap_nil, List.append_nil, List.map_append, List.map_cons, List.map_nil,
    List.count_append, hsingle]
  omega

theorem inputsOf_addInput : inputsOf (outputs ++ [o.addInput input]) ep =
    inputsOf (outputs ++ [o]) ep + if input.flowEl = ep then 1 else 0 := by
  simp only [inputsOf, CompiledOutput.addInput, List.flatMap_append, List.flatMap_cons, List.flatMap_nil,
    List.append_nil, List.countP_append, List.countP_singleton, decide_eq_true_eq, Nat.add_assoc]

theorem outputsOf_addInput : outputsOf (outputs ++ [o.addInput input]) ep = outputsOf (outputs ++ [o]) ep := by
  simp only [outputsOf, CompiledOutput.addInput, List.countP_append, List.countP_singleton]

theorem Wired.addInput (h : Wired p b ws (outputs ++ [o])) (hw : ws[i]? = some w) (himport : w.isImport)
    (hexport : w.isExport = false) (hel : input.flowEl = ⟨p, b, i⟩) {refCnt : Nat}
    (hrefs : refCnt = w.references) :
    Wired p b (ws.set i { w with component := some input.component, refCnt }) (outputs ++ [o.addInput input]) where
  outputEls o' ho' := by
    rcases List.mem_append.1 ho' with ho' | ho'
    · exact h.outputEls o' (List.mem_append_left _ ho')
    · rw [List.mem_singleton.1 ho']
      exact h.outputEls o (by simp)
  inputEls o' ho' input' hin := by
    rcases List.mem_append.1 ho' with ho' | ho'
    · exact h.inputEls o' (List.mem_append_left _ ho') input' hin
    · rw [List.mem_singleton.1 ho'] at hin
      rcases List.mem_append.1 hin with hin | hin
      · exact h.inputEls o (by simp) input' hin
      · rw [List.mem_singleton.1 hin]
        exact ⟨i, hel⟩
  owned w' hw' q hq := by
    rw [← List.count_pos_iff, count_addInput]
    rcases List.mem_or_eq_of_mem_set hw' with hw' | rfl
    · have := List.count_pos_iff.2 (h.owned w' hw' q hq)
      omega
    · cases hq
      simp
  unused w' hw' hnone := by
    rcases List.mem_or_eq_of_mem_set hw' with hw' | rfl
    · exact h.unused w' hw' hnone
    · cases hnone
  imports j w' hw' himport' := by
    have hlt : i < ws.length := (List.getElem?_eq_some_iff.1 hw).1
    rw [inputsOf_addInput, hel]
    by_cases hij : i = j
    · subst hij
      rw [List.getElem?_set_self hlt] at hw'
      cases hw'
      rw [h.imports i w hw himport, if_pos rfl, hrefs]
      rfl
    · rw [List.getElem?_set_ne hij] at hw'
      rw [h.imports j w' hw' himport', if_neg fun heq => hij (congrArg ElementPtr.num heq), Nat.add_zero]
  exports j w' hw' hexport' := by
    have hlt : i < ws.length := (List.getElem?_eq_some_iff.1 hw).1
    rw [outputsOf_addInput]
    by_cases hij : i = j
    · subst hij
      rw [List.getElem?_set_self hlt] at hw'
      cases hw'
      rw [hexport] at hexport'
      cases hexport'
    · rw [List.getElem?_set_ne hij] at hw'
      exact h.exports j w' hw' hexport'

theorem Wired.addOutput (h : Wired p b ws outputs) (hw : ws[i]? = some w) (himport : w.isImport = false)
    (hexport : w.isExport) (hnone : w.component = none) {q : ComponentPtr} {firstInput : Nat} :
    Wired p b (ws.set i { w with component := some q }) (outputs ++ [⟨q, ⟨p, b, i⟩, firstInput, []⟩]) where
  outputEls o' ho' := by
    rcases List.mem_append.1 ho' with ho' | ho'
    · exact h.outputEls o' ho'
    · rw [List.mem_singleton.1 ho']
      exact ⟨i, rfl⟩
  inputEls o' ho' input' hin := by
    rcases List.mem_append.1 ho' with ho' | ho'
    · exact h.inputEls o' ho' input' hin
    · rw [List.mem_singleton.1 ho'] at hin
      cases hin
  owned w' hw' q' hq := by
    rw [CompiledFlow.owned, List.flatMap_append, List.mem_append]
    rcases List.mem_or_eq_of_mem_set hw' with hw' | rfl
    · exact .inl (h.owned w' hw' q' hq)
    · cases hq
      exact .inr (by simp [CompiledOutput.owned])
  unused w' hw' hnone := by
    rcases List.mem_or_eq_of_mem_set hw' with hw' | rfl
    · exact h.unused w' hw' hnone
    · cases hnone
  imports j w' hw' himport' := by
    have hlt : i < ws.length := (List.getElem?_eq_some_iff.1 hw).1
    have hinputs : inputsOf (outputs ++ [⟨q, ⟨p, b, i⟩, firstInput, []⟩]) ⟨p, b, j⟩ = inputsOf outputs ⟨p, b, j⟩ := by
      simp [inputsOf]
    rw [hinputs]
    by_cases hij : i = j
    · subst hij
      rw [List.getElem?_set_self hlt] at hw'
      cases hw'
      rw [himport] at himport'
      cases himport'
    · rw [List.getElem?_set_ne hij] at hw'
      exact h.imports j w' hw' himport'
  exports j w' hw' hexport' := by
    have hlt : i < ws.length := (List.getElem?_eq_some_iff.1 hw).1
    rw [outputsOf, List.countP_append, List.countP_singleton]
    by_cases hij : i = j
    · subst hij
      rw [List.getElem?_set_self hlt] at hw'
      cases hw'
      have hbefore : outputs.countP (·.flowEl = ⟨p, b, i⟩) = w.attached := h.exports i w hw hexport
      rw [hbefore, Wiring.attached, hnone]
      simp [Wiring.attached]
    · rw [List.getElem?_set_ne hij] at hw'
      have hne : (⟨p, b, i⟩ : ElementPtr) ≠ ⟨p, b, j⟩ := fun heq => hij (congrArg ElementPtr.num heq)
      have hbefore : outputs.countP (·.flowEl = ⟨p, b, j⟩) = w'.attached := h.exports j w' hw' hexport'
      rw [hbefore]
      simp [hne]

end

/-! ### Components -/

section
variable {env : CompileEnv K} {st st' : Compiling K} {i : Nat} {e : FlowElement K} {p : ComponentPtr}

/-- A component that is made for an element has one owner. -/
theorem source_refCnt {el : AuElement K} {n size : Nat} {c : Component} (h : el.source n = .create c size) :
    c.refCnt = 0 := by
  have hport {format numTracks maxSamples low high sampleRate : Nat} {discard : Bool}
      (h : portSource (createPort n format numTracks maxSamples low high discard) sampleRate = .create c size) :
      c.refCnt = 0 := by
    unfold portSource at h
    split at h
    · cases h
    · rename_i c' hc'
      cases h
      unfold createPort at hc'
      dsimp only at hc'
      split at hc'
      · cases hc'
      · cases hc'
        rfl
  unfold AuElement.source at h
  split at h
  · exact hport h
  · cases h
    rfl
  · cases h
  · cases h
  · exact hport h
  · cases h
  · cases h
  · cases h
    rfl
  · cases h

theorem Attached.ledger {own : ComponentPtr → Nat} (ha : Attached env st st' i e p)
    (h : Ledger Component.refCnt st.comps own) (hfresh : ∀ q, st.nextComponent ≤ q → st.comps q = none)
    (hlookup : ∀ id q, env.lookup id = some q → own q ≠ 0) :
    Ledger Component.refCnt st'.comps (fun q => own q + if q = p then 1 else 0) ∧
      ∀ q, st'.nextComponent ≤ q → st'.comps q = none := by
  obtain ⟨c, size, hsource, hp, hcomps, hnext⟩ | ⟨id, f, -, hid, hcomps, hf, hnext⟩ := ha.component
  · rw [hcomps, hnext]
    refine ⟨h.create (hfresh p (Nat.le_of_eq hp.symm)) (source_refCnt hsource) fun _ => rfl, fun q hq => ?_⟩
    rw [Function.update_of_ne (Nat.ne_of_gt hq)]
    exact hfresh q (hp ▸ Nat.le_of_lt hq)
  · obtain ⟨c, hc, -⟩ := h.live (hlookup id p hid)
    obtain ⟨sampleRate, hfc⟩ := hf c
    rw [hcomps, hnext, hc, Option.map_some]
    refine ⟨h.retain hc (fun _ => rfl) (by rw [hfc]), fun q hq => ?_⟩
    have hne : q ≠ p := fun heq => by
      rw [← heq, hfresh q hq] at hc
      cases hc
    rw [Function.update_of_ne hne]
    exact hfresh q hq

end

/-! ### The compiler -/

/-- The counts before element `n`, with the outputs compiled so far. -/
structure Counted (env : CompileEnv K) (base : ComponentPtr → Nat) (n : Nat) (st : Compiling K)
    (outputs : List (CompiledOutput K)) : Prop where
  ledger : Ledger Component.refCnt st.comps fun q => base q + (⟨outputs⟩ : CompiledFlow K).owned.count q
  fresh : ∀ q, st.nextComponent ≤ q → st.comps q = none
  wired : Wired env.flow env.block (st.elements.map (·.wiring)) outputs
  unmarked : ∀ e ∈ st.elements, e.compiled = false → e.component = none
  ahead : ∀ i e, n ≤ i → st.elements[i]? = some e → e.raw.isExport → e.component = none
  minibufs : ∀ i, st.minibufs.count i = ((st.elements[i]?).map (·.wiring.minibufs)).getD 0

/-- The counts while the inputs of an output are followed. -/
def Counting (env : CompileEnv K) (base : ComponentPtr → Nat) (output : CompiledOutput K) (st : Compiling K) : Prop :=
  Counted env base (output.flowEl.num + 1) st (st.outputs ++ [{ output with inputs := st.inputs }])

theorem AuElement.not_isExport {el : AuElement K} (h : el.isImport) : el.isExport = false := by
  cases el <;> simp_all [AuElement.isImport, AuElement.isExport]

theorem AuElement.not_isImport {el : AuElement K} (h : el.isExport) : el.isImport = false := by
  cases el <;> simp_all [AuElement.isImport, AuElement.isExport]

namespace Counted
variable {env : CompileEnv K} {base : ComponentPtr → Nat} {n i : Nat} {st st' : Compiling K}
  {outputs outputs' : List (CompiledOutput K)} {e e' : FlowElement K} {p : ComponentPtr}

/-- Nothing but marks of elements has changed. -/
theorem marked (h : Counted env base n st outputs) (hel : st.elements[i]? = some e) (allocs : Nat) (inputs : List (CompiledInput K)) :
    Counted env base n { st.setElement i e.markCompiled with allocs, inputs } outputs where
  ledger := h.ledger
  fresh := h.fresh
  wired := by
    have hwiring : (st.elements.set i e.markCompiled).map (·.wiring) = st.elements.map (·.wiring) :=
      map_set_self hel rfl
    have hw := h.wired
    rw [← hwiring] at hw
    exact hw
  unmarked e' he' hc := by
    rcases List.mem_or_eq_of_mem_set he' with he' | rfl
    · exact h.unmarked e' he' hc
    · cases hc
  ahead j e' hj he' hexport := by
    have hlt : i < st.elements.length := (List.getElem?_eq_some_iff.1 hel).1
    dsimp only [Compiling.setElement] at he'
    by_cases hij : i = j
    · subst hij
      rw [List.getElem?_set_self hlt] at he'
      cases he'
      exact h.ahead i e hj hel hexport
    · rw [List.getElem?_set_ne hij] at he'
      exact h.ahead j e' hj he' hexport
  minibufs j := by
    have hlt : i < st.elements.length := (List.getElem?_eq_some_iff.1 hel).1
    dsimp only [Compiling.setElement]
    rw [h.minibufs j]
    by_cases hij : i = j
    · subst hij
      rw [List.getElem?_set_self hlt, hel]
      rfl
    · rw [List.getElem?_set_ne hij]

/-- An element that had none got a component. -/
theorem minibufs_attached (h : Counted env base n st outputs) (hel : st.elements[i]? = some e)
    (hnone : e.component = none) (hcomponent : e'.component.isSome) (hraw : e'.raw = e.raw) (j : Nat) :
    (st.minibufs ++ if e.raw.isImportBucket ∨ e.raw.isExportBucket then [i] else []).count j =
      (((st.elements.set i e')[j]?).map (·.wiring.minibufs)).getD 0 := by
  have hlt : i < st.elements.length := (List.getElem?_eq_some_iff.1 hel).1
  rw [List.count_append, h.minibufs j]
  by_cases hij : i = j
  · subst hij
    rw [List.getElem?_set_self hlt, hel]
    simp only [Option.map_some, Option.getD_some, Wiring.minibufs, FlowElement.wiring, Wiring.attached, hnone,
      hcomponent, hraw]
    split <;> simp
  · rw [List.getElem?_set_ne hij]
    split
    · simp [hij]
    · rfl


end Counted

section
variable {env : CompileEnv K} {base : ComponentPtr → Nat} {output : CompiledOutput K} {st st' st₁ : Compiling K} {i : Nat}
  {e : FlowElement K} {p : ComponentPtr} {input : CompiledInput K}

/-- Element `i` with another reference count or a component, for its new input. -/
theorem Counted.addInput {n refCnt : Nat} {outputs : List (CompiledOutput K)} {sampleRate : Nat} {compiled : Bool}
    (h : Counted env base n st (outputs ++ [output])) (hel : st.elements[i]? = some e) (himport : e.raw.isImport)
    (hinput : input.flowEl = ⟨env.flow, env.block, i⟩) (hrefs : refCnt = e.wiring.references)
    (hcompiled : compiled = false → False)
    (helements : st'.elements =
      st.elements.set i { e with compiled, component := some input.component, refCnt, sampleRate })
    (hledger : Ledger Component.refCnt st'.comps fun q =>
      base q + (⟨outputs ++ [output]⟩ : CompiledFlow K).owned.count q + if q = input.component then 1 else 0)
    (hfresh : ∀ q, st'.nextComponent ≤ q → st'.comps q = none)
    (hminibufs : ∀ j, st'.minibufs.count j = ((st'.elements[j]?).map (·.wiring.minibufs)).getD 0) :
    Counted env base n st' (outputs ++ [output.addInput input]) where
  ledger := hledger.congr (fun _ => rfl) fun q => by rw [count_addInput, Nat.add_assoc]
  fresh := hfresh
  wired := by
    have hw : (st.elements.map (·.wiring))[i]? = some e.wiring := by rw [List.getElem?_map, hel]; rfl
    rw [helements, List.map_set]
    exact h.wired.addInput hw himport (AuElement.not_isExport himport) hinput hrefs
  unmarked e' he' hc := by
    rw [helements] at he'
    rcases List.mem_or_eq_of_mem_set he' with he' | rfl
    · exact h.unmarked e' he' hc
    · exact (hcompiled hc).elim
  ahead j e' hj he' hexport := by
    have hlt : i < st.elements.length := (List.getElem?_eq_some_iff.1 hel).1
    rw [helements] at he'
    by_cases hij : i = j
    · subst hij
      rw [List.getElem?_set_self hlt] at he'
      cases he'
      have hno : e.raw.isExport = false := AuElement.not_isExport himport
      rw [hno] at hexport
      cases hexport
    · rw [List.getElem?_set_ne hij] at he'
      exact h.ahead j e' hj he' hexport
  minibufs := hminibufs

/-- Another input of an import that has got its component. -/
theorem Counting.share (h : Counting env base output st) (hel : st.elements[i]? = some e) (himport : e.raw.isImport)
    (hcompiled : e.compiled) (hp : e.component = some p)
    (hinput : input.component = p ∧ input.flowEl = ⟨env.flow, env.block, i⟩)
    (hst₁ : st₁ = ({ st.setElement i e.markCompiled with allocs := st.allocs + 1 } : Compiling K).share i e) :
    Counting env base output { st₁ with inputs := st₁.inputs ++ [input] } := by
  have hlt : i < st.elements.length := (List.getElem?_eq_some_iff.1 hel).1
  obtain ⟨rfl, hflowEl⟩ := hinput
  have howned := h.wired.owned e.wiring (List.mem_map_of_mem (List.mem_of_getElem? hel)) _ hp
  have hpos := List.count_pos_iff.2 howned
  obtain ⟨c, hc, -⟩ := h.ledger.live (p := input.component) (by omega)
  rw [Compiling.share_eq hp] at hst₁
  subst hst₁
  have helements : (st.elements.set i e.markCompiled).set i { e with refCnt := e.refCnt + 1 } =
      st.elements.set i
        { e with compiled := true, component := some input.component, refCnt := e.refCnt + 1, sampleRate := e.sampleRate } := by
    rw [List.set_set, ← hp, ← hcompiled]
  refine Counted.addInput h hel himport hflowEl ?_ (fun hc => by cases hc) helements ?_ (fun q hq => ?_) fun j => ?_
  · simp [Wiring.references, FlowElement.wiring, hp]
  · dsimp only [Compiling.modifyComponent, Compiling.setElement]
    rw [hc]
    exact h.ledger.retain hc (fun _ => rfl) rfl
  · dsimp only [Compiling.modifyComponent, Compiling.setElement]
    have hne : q ≠ input.component := fun heq => by
      rw [← heq, h.fresh q hq] at hc
      cases hc
    rw [Function.update_of_ne hne]
    exact h.fresh q hq
  · dsimp only [Compiling.modifyComponent, Compiling.setElement]
    rw [h.minibufs j, helements]
    by_cases hij : i = j
    · subst hij
      rw [List.getElem?_set_self hlt, hel]
      simp [Wiring.minibufs, Wiring.attached, FlowElement.wiring, hp]
    · rw [List.getElem?_set_ne hij]

/-- The first input of an import. -/
theorem Counting.attach (h : Counting env base output st) (hlookup : ∀ id q, env.lookup id = some q → base q ≠ 0)
    (hel : st.elements[i]? = some e) (himport : e.raw.isImport) (hcompiled : e.compiled = false)
    (hinput : input.component = p ∧ input.flowEl = ⟨env.flow, env.block, i⟩)
    (hattached : Attached env { st.setElement i e.markCompiled with allocs := st.allocs + 1 } st₁ i e p) :
    Counting env base output { st₁ with inputs := st₁.inputs ++ [input] } := by
  obtain ⟨rfl, hflowEl⟩ := hinput
  have hnone : e.component = none := h.unmarked e (List.mem_of_getElem? hel) hcompiled
  obtain ⟨sampleRate, helement⟩ := hattached.element
  have helements : st₁.elements =
      st.elements.set i { e with compiled := true, component := some input.component, refCnt := e.refCnt, sampleRate } := by
    rw [helement]
    exact List.set_set _
  have hledger : Ledger Component.refCnt st.comps fun q => base q +
      (⟨st.outputs ++ [{ output with inputs := st.inputs }]⟩ : CompiledFlow K).owned.count q := h.ledger
  obtain ⟨hledger', hfresh⟩ := hattached.ledger hledger h.fresh fun id q hq => by
    have := hlookup id q hq
    omega
  have houtputs : st₁.outputs = st.outputs := hattached.outputs
  have hinputs : st₁.inputs = st.inputs := hattached.inputs
  have hminibufs : st₁.minibufs = st.minibufs ++ if e.raw.isImportBucket ∨ e.raw.isExportBucket then [i] else [] :=
    hattached.minibufs
  have hrefCnt : e.refCnt = e.wiring.references := by
    have hzero : e.refCnt = 0 :=
      h.wired.unused e.wiring (List.mem_map_of_mem (List.mem_of_getElem? hel)) hnone
    rw [hzero, Wiring.references, show e.wiring.component = none from hnone]
    rfl
  have hcounted : Counted env base (output.flowEl.num + 1) { st₁ with inputs := st₁.inputs ++ [input] }
      (st.outputs ++ [({ output with inputs := st.inputs } : CompiledOutput K).addInput input]) := by
    refine Counted.addInput h hel himport hflowEl hrefCnt (fun hc => by cases hc) helements hledger' hfresh fun j => ?_
    dsimp only
    rw [hminibufs, helements]
    exact h.minibufs_attached hel hnone (by rfl) (by rfl) j
  have houtput : st₁.outputs ++ [{ output with inputs := st₁.inputs ++ [input] }] =
      st.outputs ++ [({ output with inputs := st.inputs } : CompiledOutput K).addInput input] := by
    rw [houtputs, hinputs]
    rfl
  unfold Counting
  dsimp only
  rw [houtput]
  exact hcounted

/-- A new output, without inputs yet. -/
theorem Counted.attach {n : Nat} {firstInput : Nat} (h : Counted env base n st st.outputs)
    (hlookup : ∀ id q, env.lookup id = some q → base q ≠ 0) (hel : st.elements[n]? = some e) (hexport : e.raw.isExport)
    (hattached : Attached env { st with allocs := st.allocs + 1 } st₁ n e p) :
    Counting env base ⟨p, ⟨env.flow, env.block, n⟩, firstInput, []⟩ { st₁ with inputs := [] } := by
  have hlt : n < st.elements.length := (List.getElem?_eq_some_iff.1 hel).1
  have hnone : e.component = none := h.ahead n e (Nat.le_refl n) hel hexport
  obtain ⟨sampleRate, helements⟩ := hattached.element
  dsimp only at helements
  have hledger : Ledger Component.refCnt st.comps fun q =>
      base q + (⟨st.outputs⟩ : CompiledFlow K).owned.count q := h.ledger
  obtain ⟨hledger', hfresh⟩ := hattached.ledger hledger h.fresh fun id q hq => by
    have := hlookup id q hq
    omega
  have houtputs : st₁.outputs = st.outputs := hattached.outputs
  have hw : (st.elements.map (·.wiring))[n]? = some e.wiring := by rw [List.getElem?_map, hel]; rfl
  have hminibufs : st₁.minibufs = st.minibufs ++ if e.raw.isImportBucket ∨ e.raw.isExportBucket then [n] else [] :=
    hattached.minibufs
  unfold Counting
  dsimp only
  rw [houtputs]
  exact {
    ledger := hledger'.congr (fun _ => rfl) fun q => by
      have hsingle : [p].count q = if q = p then 1 else 0 := by
        by_cases hq : q = p
        · simp [hq]
        · simp [hq, Ne.symm hq]
      simp only [CompiledFlow.owned, CompiledOutput.owned, List.flatMap_append, List.flatMap_cons, List.flatMap_nil,
        List.map_nil, List.nil_append, List.append_nil, List.count_append, hsingle, Nat.add_assoc]
    fresh := hfresh
    wired := by
      rw [helements, List.map_set]
      exact h.wired.addOutput hw (AuElement.not_isImport hexport) hexport hnone
    unmarked := fun e' he' hc => by
      rw [helements] at he'
      rcases List.mem_or_eq_of_mem_set he' with he' | rfl
      · exact h.unmarked e' he' hc
      · cases hc
    ahead := fun j e' hj he' hexport' => by
      rw [helements, List.getElem?_set_ne (by omega)] at he'
      exact h.ahead j e' (by omega) he' hexport'
    minibufs := fun j => by
      rw [hminibufs, helements]
      exact h.minibufs_attached hel hnone (by rfl) (by rfl) j }

/-- The counts are kept by the compiler, if what is looked up has owners. -/
theorem countRule (hlookup : ∀ id q, env.lookup id = some q → base q ≠ 0) :
    CompileRule env (fun n st => Counted env base n st st.outputs) (Counting env base) where
  marked hst hel _ := hst.marked hel _ _
  imported hst hel himport he := by
    obtain ⟨-, allocs, rfl⟩ | ⟨-, p, st₁, hst₁, rfl⟩ := compileImport_cases hel he
    · exact hst.marked hel _ _
    · obtain ⟨hcompiled, hp, hshare⟩ | ⟨hcompiled, hattached⟩ := hst₁
      · exact hst.share hel himport hcompiled hp ⟨rfl, rfl⟩ hshare
      · exact hst.attach hlookup hel himport hcompiled ⟨rfl, rfl⟩ hattached
  skipped {n st e} hst hel hexport :=
    { hst with
      ahead := fun i e' hi he' hexport' => by
        rcases Nat.lt_or_eq_of_le hi with hi | hi
        · exact hst.ahead i e' (by omega) he' hexport'
        · exact hst.ahead i e' (by omega) he' hexport' }
  full hst := { hst with }
  refused hst _ _ he hne := by
    obtain ⟨allocs, rfl⟩ := attach_refused he hne
    exact { hst with }
  opened {n st st' e component} hst hel hexport he hcomponent := by
    obtain ⟨p, hattached⟩ := attach_attached he
    obtain ⟨sampleRate, helements⟩ := hattached.element
    have hlt : n < st.elements.length := (List.getElem?_eq_some_iff.1 hel).1
    rw [helements] at hcomponent
    obtain rfl : p = component := by simpa [hlt] using hcomponent
    exact hst.attach hlookup hel hexport hattached
  closed {output st} hst := by
    have hst : Counted env base (output.flowEl.num + 1) st (st.outputs ++ [{ output with inputs := st.inputs }]) := hst
    exact { hst with }
  inputs hst := { hst with }

end

end Nas
