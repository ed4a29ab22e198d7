import Nas.Dispatch

/-!
# Elements and compiled outputs

A compiled flow has pointers to its elements, and the elements count them. `Wired` says that the counts are right:
an import has one input for each reference, and an export one output, once they have a component. From that it
follows that `freeCompiledFlow` frees the minibuffer of each bucket element once.
-/

namespace Nas
variable {K : Type}

/-- What matters of an element for the compiled outputs. -/
structure Wiring where
  isImport : Bool
  isExport : Bool
  isImportBucket : Bool
  isExportBucket : Bool
  component : Option ComponentPtr
  refCnt : Nat

def FlowElement.wiring (e : FlowElement K) : Wiring where
  isImport := e.raw.isImport
  isExport := e.raw.isExport
  isImportBucket := e.raw.isImportBucket
  isExportBucket := e.raw.isExportBucket
  component := e.component
  refCnt := e.refCnt

namespace Wiring
variable (w : Wiring)

/-- How many inputs an import has. -/
def references : Nat := (w.component.map fun _ => w.refCnt + 1).getD 0

/-- How many outputs an export has. -/
def attached : Nat := if w.component.isSome then 1 else 0

/-- How many minibuffers of its own an element has. -/
def minibufs : Nat := if w.isImportBucket ∨ w.isExportBucket then w.attached else 0

end Wiring

/-- The components an output has a reference to. -/
def CompiledOutput.owned (o : CompiledOutput K) : List ComponentPtr := o.inputs.map (·.component) ++ [o.component]

def CompiledFlow.owned (cmp : CompiledFlow K) : List ComponentPtr := cmp.outputs.flatMap CompiledOutput.owned

/-- The inputs of an element. -/
def inputsOf (outputs : List (CompiledOutput K)) (ep : ElementPtr) : Nat :=
  (outputs.flatMap (·.inputs)).countP (·.flowEl = ep)

def outputsOf (outputs : List (CompiledOutput K)) (ep : ElementPtr) : Nat := outputs.countP (·.flowEl = ep)

/-- The outputs of a flow `p` with the block `b` of elements. -/
structure Wired (p : FlowPtr) (b : Nat) (ws : List Wiring) (outputs : List (CompiledOutput K)) : Prop where
  outputEls : ∀ o ∈ outputs, ∃ i, o.flowEl = ⟨p, b, i⟩
  inputEls : ∀ o ∈ outputs, ∀ input ∈ o.inputs, ∃ i, input.flowEl = ⟨p, b, i⟩
  owned : ∀ w ∈ ws, ∀ q, w.component = some q → q ∈ (⟨outputs⟩ : CompiledFlow K).owned
  unused : ∀ w ∈ ws, w.component = none → w.refCnt = 0
  imports : ∀ i w, ws[i]? = some w → w.isImport → inputsOf outputs ⟨p, b, i⟩ = w.references
  exports : ∀ i w, ws[i]? = some w → w.isExport → outputsOf outputs ⟨p, b, i⟩ = w.attached

section
variable {p : FlowPtr} {b : Nat} {ws : List Wiring} {outputs : List (CompiledOutput K)}

/-- Nothing is compiled, and no element has a component. -/
theorem Wired.nil (h : ∀ w ∈ ws, w.component = none ∧ w.refCnt = 0) : Wired p b ws ([] : List (CompiledOutput K)) where
  outputEls _ ho := by cases ho
  inputEls _ ho := by cases ho
  owned w hw q hq := by
    rw [(h w hw).1] at hq
    cases hq
  unused w hw _ := (h w hw).2
  imports i w hw _ := by
    rw [Wiring.references, (h w (List.mem_of_getElem? hw)).1]
    rfl
  exports i w hw _ := by
    rw [Wiring.attached, (h w (List.mem_of_getElem? hw)).1]
    rfl

theorem Wired.component_none (h : Wired p b ws ([] : List (CompiledOutput K))) {w : Wiring} (hw : w ∈ ws) :
    w.component = none := by
  rcases hq : w.component with - | q
  · rfl
  · cases h.owned w hw q hq

end

/-! ### Other constants -/

/-- An output less its constants and tracks. -/
structure Outline where
  component : ComponentPtr
  flowEl : ElementPtr
  inputs : List (ComponentPtr × ElementPtr)

def CompiledOutput.outline (o : CompiledOutput K) : Outline :=
  ⟨o.component, o.flowEl, o.inputs.map fun input => (input.component, input.flowEl)⟩

section
variable {outputs outputs' : List (CompiledOutput K)}

theorem CompiledOutput.owned_outline (o : CompiledOutput K) :
    o.owned = o.outline.inputs.map Prod.fst ++ [o.outline.component] := by
  rw [owned, outline, List.map_map]
  rfl

theorem owned_outline (h : outputs'.map (·.outline) = outputs.map (·.outline)) :
    (⟨outputs'⟩ : CompiledFlow K).owned = (⟨outputs⟩ : CompiledFlow K).owned := by
  have key (l : List (CompiledOutput K)) : (⟨l⟩ : CompiledFlow K).owned =
      (l.map (·.outline)).flatMap fun o => o.inputs.map Prod.fst ++ [o.component] := by
    rw [CompiledFlow.owned, List.flatMap_map]
    exact List.flatMap_congr fun o _ => o.owned_outline
  rw [key, key, h]

theorem inputsOf_outline (h : outputs'.map (·.outline) = outputs.map (·.outline)) (ep : ElementPtr) :
    inputsOf outputs' ep = inputsOf outputs ep := by
  have key (l : List (CompiledOutput K)) : inputsOf l ep =
      ((l.map (·.outline)).flatMap (·.inputs)).countP (fun x => x.2 = ep) := by
    have hl : (l.map (·.outline)).flatMap (·.inputs) =
        (l.flatMap (·.inputs)).map fun input => (input.component, input.flowEl) := by
      rw [List.flatMap_map, List.map_flatMap]
      rfl
    rw [hl, List.countP_map]
    rfl
  rw [key, key, h]

theorem outputsOf_outline (h : outputs'.map (·.outline) = outputs.map (·.outline)) (ep : ElementPtr) :
    outputsOf outputs' ep = outputsOf outputs ep := by
  have key (l : List (CompiledOutput K)) : outputsOf l ep = (l.map (·.outline)).countP (fun o => o.flowEl = ep) := by
    rw [List.countP_map]
    rfl
  rw [key, key, h]

/-- What is wired stays it with other constants. -/
theorem Wired.outline {p : FlowPtr} {b : Nat} {ws : List Wiring} (hw : Wired p b ws outputs)
    (h : outputs'.map (·.outline) = outputs.map (·.outline)) : Wired p b ws outputs' where
  outputEls o ho := by
    obtain ⟨o', ho', heq⟩ := List.mem_map.1 (h ▸ List.mem_map_of_mem ho)
    obtain ⟨i, hi⟩ := hw.outputEls o' ho'
    exact ⟨i, (congrArg Outline.flowEl heq).symm.trans hi⟩
  inputEls o ho input hin := by
    obtain ⟨o', ho', heq⟩ := List.mem_map.1 (h ▸ List.mem_map_of_mem ho)
    have hmem : (input.component, input.flowEl) ∈ o'.outline.inputs := by
      rw [heq]
      exact List.mem_map_of_mem hin
    obtain ⟨input', hin', heq'⟩ := List.mem_map.1 hmem
    obtain ⟨i, hi⟩ := hw.inputEls o' ho' input' hin'
    exact ⟨i, (congrArg Prod.snd heq').symm.trans hi⟩
  owned w hmem q hq := by
    rw [owned_outline h]
    exact hw.owned w hmem q hq
  unused := hw.unused
  imports i w hi himport := by
    rw [inputsOf_outline h]
    exact hw.imports i w hi himport
  exports i w hi hexport := by
    rw [outputsOf_outline h]
    exact hw.exports i w hi hexport

end

theorem storeConstants_map {β : Type} {g : CompiledInput K → β}
    (hg : ∀ input multiplyConstant addConstant, g { input with multiplyConstant, addConstant } = g input)
    {inputs inputs' : List (CompiledInput K)} {constants : List (K × K)}
    (he : storeConstants inputs constants = .ok inputs') : inputs'.map g = inputs.map g := by
  induction inputs generalizing constants inputs' with
  | nil =>
    cases constants with
    | nil =>
      cases he
      rfl
    | cons c constants => cases he
  | cons input inputs ih =>
    cases constants with
    | nil =>
      cases he
      rfl
    | cons c constants =>
      obtain ⟨inputs₁, h₁, he⟩ := Exec.bind_eq_ok.1 he
      cases he
      rw [List.map_cons, List.map_cons, ih h₁, hg]

/-- Another compilation only changes constants. -/
theorem recompileOutputs_map {α β : Type} {g : CompiledInput K → β}
    (hg : ∀ input multiplyConstant addConstant, g { input with multiplyConstant, addConstant } = g input)
    (k : ComponentPtr → ElementPtr → List β → α) {arith : Arith K} {els : List (FlowElement K)} {fuel n : Nat}
    {status : AuStatus} {outputs outputs' : List (CompiledOutput K)}
    (he : recompileOutputs arith els fuel n outputs = .ok (status, outputs')) :
    outputs'.map (fun o => k o.component o.flowEl (o.inputs.map g)) =
      outputs.map fun o => k o.component o.flowEl (o.inputs.map g) := by
  induction n generalizing outputs outputs' status with
  | zero =>
    cases he
    rfl
  | succ n ih =>
    cases outputs with
    | nil => cases he
    | cons output outputs =>
      unfold recompileOutputs at he
      split at he
      · cases he
        rfl
      · obtain ⟨⟨status₁, constants⟩, -, he⟩ := Exec.bind_eq_ok.1 he
        obtain ⟨inputs, hinputs, he⟩ := Exec.bind_eq_ok.1 he
        have hinputs := storeConstants_map hg hinputs
        dsimp only at he
        split at he
        · cases he
          rw [List.map_cons, List.map_cons, hinputs]
        · obtain ⟨⟨status₂, outputs₂⟩, h₂, he⟩ := Exec.bind_eq_ok.1 he
          cases he
          rw [List.map_cons, List.map_cons, hinputs, ih h₂]

theorem recompileOutputs_outline {arith : Arith K} {els : List (FlowElement K)} {fuel n : Nat} {status : AuStatus}
    {outputs outputs' : List (CompiledOutput K)}
    (he : recompileOutputs arith els fuel n outputs = .ok (status, outputs')) :
    outputs'.map (·.outline) = outputs.map (·.outline) :=
  recompileOutputs_map (g := fun input => (input.component, input.flowEl)) (fun _ _ _ => rfl) Outline.mk he

/-! ### Minibuffers -/

section
variable {p : FlowPtr} {b i : Nat} {els : List ServerElement}

/-- An element's count runs down by one with each of its inputs, and it is freed when that begins at 0. -/
theorem releaseInputs_spec {inputs : List (CompiledInput AuFixedPoint)} (r : Releasing)
    (h : ∀ input ∈ inputs, ∃ j, input.flowEl = ⟨p, b, j⟩) (i : Nat) :
    (inputs.foldl (releaseInput els) r).refCnt i = r.refCnt i - inputs.countP (·.flowEl = ⟨p, b, i⟩) ∧
    (inputs.foldl (releaseInput els) r).freed.count ⟨p, b, i⟩ = r.freed.count ⟨p, b, i⟩ +
      if (els[i]?).any (·.raw.isImportBucket) ∧ 0 ≤ r.refCnt i ∧
        r.refCnt i < inputs.countP (·.flowEl = ⟨p, b, i⟩) then 1 else 0 := by
  induction inputs generalizing r with
  | nil => simp
  | cons input inputs ih =>
    obtain ⟨j, hj⟩ := h input List.mem_cons_self
    obtain ⟨hcnt, hfreed⟩ := ih (releaseInput els r input) fun input hin => h input (List.mem_cons_of_mem _ hin)
    rw [List.foldl_cons, hcnt, hfreed, List.countP_cons, hj]
    by_cases hij : j = i
    · subst hij
      simp only [releaseInput, hj, Function.update_self, decide_true, if_true]
      refine ⟨by push_cast; omega, ?_⟩
      by_cases hbucket : (els[j]?).any (·.raw.isImportBucket)
      · simp only [hbucket, true_and, and_true]
        by_cases hzero : r.refCnt j = 0
        · rw [if_pos hzero, List.count_append, List.count_singleton_self, if_neg (by omega), if_pos (by omega)]
        · rw [if_neg hzero]
          congr 1
          split <;> split <;> omega
      · simp [hbucket]
    · have hne : (⟨p, b, j⟩ : ElementPtr) ≠ ⟨p, b, i⟩ := fun heq => hij (congrArg ElementPtr.num heq)
      simp only [releaseInput, hj, Function.update_of_ne (Ne.symm hij), hne, decide_false, Bool.false_eq_true,
        if_false, Nat.add_zero, true_and]
      congr 1
      split
      · rw [List.count_append, List.count_singleton, if_neg (by simpa using hne), Nat.add_zero]
      · rfl

theorem releaseOutputs_spec {outputs : List (CompiledOutput AuFixedPoint)} (r : Releasing)
    (houtputs : ∀ o ∈ outputs, ∃ j, o.flowEl = ⟨p, b, j⟩)
    (hinputs : ∀ o ∈ outputs, ∀ input ∈ o.inputs, ∃ j, input.flowEl = ⟨p, b, j⟩) (i : Nat) :
    (outputs.foldl (releaseOutput els) r).freed.count ⟨p, b, i⟩ = r.freed.count ⟨p, b, i⟩ +
      (if (els[i]?).any (·.raw.isImportBucket) ∧ 0 ≤ r.refCnt i ∧ r.refCnt i < inputsOf outputs ⟨p, b, i⟩
        then 1 else 0) +
      if (els[i]?).any (·.raw.isExportBucket) then outputsOf outputs ⟨p, b, i⟩ else 0 := by
  induction outputs generalizing r with
  | nil => simp [inputsOf, outputsOf]
  | cons output outputs ih =>
    obtain ⟨j, hj⟩ := houtputs output List.mem_cons_self
    obtain ⟨hcnt, hfreed⟩ := releaseInputs_spec r (hinputs output List.mem_cons_self) i
    have hrest := ih (releaseOutput els r output) (fun o ho => houtputs o (List.mem_cons_of_mem _ ho))
      fun o ho => hinputs o (List.mem_cons_of_mem _ ho)
    have hin : inputsOf (output :: outputs) ⟨p, b, i⟩ =
        output.inputs.countP (·.flowEl = ⟨p, b, i⟩) + inputsOf outputs ⟨p, b, i⟩ := by
      rw [inputsOf, List.flatMap_cons, List.countP_append]
      rfl
    have hout : outputsOf (output :: outputs) ⟨p, b, i⟩ =
        outputsOf outputs ⟨p, b, i⟩ + if j = i then 1 else 0 := by
      rw [outputsOf, List.countP_cons, hj]
      congr 1
      simp
    have hrefCnt : (releaseOutput els r output).refCnt = (output.inputs.foldl (releaseInput els) r).refCnt := by
      unfold releaseOutput
      dsimp only
      split <;> rfl
    have hcount : (releaseOutput els r output).freed.count ⟨p, b, i⟩ =
        (output.inputs.foldl (releaseInput els) r).freed.count ⟨p, b, i⟩ +
          if (els[i]?).any (·.raw.isExportBucket) ∧ j = i then 1 else 0 := by
      unfold releaseOutput
      dsimp only
      rw [hj]
      split
      · rename_i hbucket
        rw [List.count_append, List.count_singleton]
        congr 1
        by_cases hji : j = i
        · subst hji
          simp [hbucket]
        · simp [hji]
      · rename_i hbucket
        rw [if_neg, Nat.add_zero]
        rintro ⟨hb, rfl⟩
        exact hbucket hb
    rw [List.foldl_cons, hrest, hcount, hfreed, hrefCnt, hcnt, hin, hout]
    push_cast
    by_cases himport : (els[i]?).any (·.raw.isImportBucket)
    · by_cases hexport : (els[i]?).any (·.raw.isExportBucket)
      · simp only [himport, hexport, true_and, if_true]
        split <;> split <;> split <;> split <;> omega
      · simp only [himport, hexport, true_and, false_and, if_false, Bool.false_eq_true]
        split <;> split <;> split <;> omega
    · by_cases hexport : (els[i]?).any (·.raw.isExportBucket)
      · simp only [himport, hexport, true_and, false_and, if_false, if_true, Bool.false_eq_true]
        omega
      · simp only [himport, hexport, false_and, if_false, Bool.false_eq_true]

/-- A pointer to no element of the flow is not freed with it. -/
theorem releasedMinibufs_others {outputs : List (CompiledOutput AuFixedPoint)} {ws : List Wiring}
    (hw : Wired p b ws outputs) {ep : ElementPtr} (hep : ep ∈ releasedMinibufs els ⟨outputs⟩) :
    ∃ i, ep = ⟨p, b, i⟩ := by
  have hinputs : ∀ (inputs : List (CompiledInput AuFixedPoint)) (r : Releasing),
      (∀ input ∈ inputs, ∃ j, input.flowEl = ⟨p, b, j⟩) → (∀ ep ∈ r.freed, ∃ i, ep = ⟨p, b, i⟩) →
      ∀ ep ∈ (inputs.foldl (releaseInput els) r).freed, ∃ i, ep = ⟨p, b, i⟩ := by
    intro inputs r hin hr
    refine List.foldlRecOn inputs _ (motive := fun r : Releasing => ∀ ep ∈ r.freed, ∃ i, ep = ⟨p, b, i⟩) hr ?_
    intro r hr input hmem ep hep
    unfold releaseInput at hep
    dsimp only at hep
    split at hep
    · rcases List.mem_append.1 hep with hep | hep
      · exact hr ep hep
      · rw [List.mem_singleton.1 hep]
        exact hin input hmem
    · exact hr ep hep
  refine List.foldlRecOn outputs (releaseOutput els)
    (motive := fun r : Releasing => ∀ ep ∈ r.freed, ∃ i, ep = ⟨p, b, i⟩) (fun ep hep => by cases hep) ?_ ep hep
  intro r hr o ho ep hep
  have hr' := hinputs o.inputs r (hw.inputEls o ho) hr
  unfold releaseOutput at hep
  dsimp only at hep
  split at hep
  · rcases List.mem_append.1 hep with hep | hep
    · exact hr' ep hep
    · rw [List.mem_singleton.1 hep]
      exact hw.outputEls o ho
  · exact hr' ep hep

/-- `freeCompiledFlow` frees each minibuffer once. -/
theorem releasedMinibufs_count {outputs : List (CompiledOutput AuFixedPoint)}
    (hw : Wired p b (els.map (·.wiring)) outputs) (i : Nat) :
    (releasedMinibufs els ⟨outputs⟩).count ⟨p, b, i⟩ = ((els[i]?).map (·.wiring.minibufs)).getD 0 := by
  rw [releasedMinibufs, releaseOutputs_spec _ hw.outputEls hw.inputEls i, List.count_nil, Nat.zero_add]
  dsimp only
  obtain hel | ⟨e, hel⟩ := Option.eq_none_or_eq_some els[i]?
  · simp [hel]
  have hwiring : (els.map (·.wiring))[i]? = some e.wiring := by rw [List.getElem?_map, hel]; rfl
  simp only [hel, Option.any_some, Option.map_some, Option.getD_some, Wiring.minibufs]
  by_cases himport : e.raw.isImportBucket
  · have hno : e.raw.isExportBucket = false := by
      cases hraw : e.raw <;> simp_all [AuElement.isImportBucket, AuElement.isExportBucket]
    have hisImport : e.raw.isImport := by
      cases hraw : e.raw <;> simp_all [AuElement.isImportBucket, AuElement.isImport]
    have hminibuf : e.wiring.isImportBucket = true ∨ e.wiring.isExportBucket = true := .inl himport
    rw [hw.imports i _ hwiring hisImport, if_pos hminibuf]
    simp only [himport, hno, Wiring.references, Wiring.attached]
    rcases hq : e.wiring.component with - | q
    · simp
    · have hrefCnt : e.wiring.refCnt = e.refCnt := rfl
      simp [hrefCnt]
  · by_cases hexport : e.raw.isExportBucket
    · have hisExport : e.raw.isExport := by
        cases hraw : e.raw <;> simp_all [AuElement.isExportBucket, AuElement.isExport]
      have hminibuf : e.wiring.isImportBucket = true ∨ e.wiring.isExportBucket = true := .inr hexport
      rw [hw.exports i _ hwiring hisExport, if_pos hexport, if_pos hminibuf]
      simp [himport]
    · have hno : ¬ (e.wiring.isImportBucket = true ∨ e.wiring.isExportBucket = true) := not_or.2 ⟨himport, hexport⟩
      rw [if_neg hno]
      simp [himport, hexport]

end

end Nas
