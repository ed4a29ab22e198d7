import Nas.Audio
import Mathlib.Algebra.GroupWithZero.Nat

/-!
# Merging the running flows

`AuProcessFlows` makes one compiled flow out of all the flows of a list that are to run: one output
for each component they export to, with the inputs of all their outputs to it. It marks a component
when it has made its output. `Merged` says what the result should be.

The inputs of an output are copied into an array of their own, and an allocation of zero bytes returns
the null pointer: an output without inputs, which an empty `Sum` makes, is taken for a lack of memory.
With all the memory there is, `auProcessFlows_merged_iff` says that the merge succeeds, and does what it
should, exactly when every component it makes an output for gets an input and the size of the inputs
does not wrap.
-/

namespace Nas

/-- `sizeof(CompiledFlowInputRec)` -/
def sizeofCompiledFlowInput : Nat := 136

/-- `AuFixedPoint m = (1 << 16) / numGroups` -/
def groupConstant (numGroups : Nat) : AuFixedPoint := 2 ^ 16 / (numGroups : Int)

abbrev MergedOutput := CompiledOutput AuFixedPoint

/-- The state of the merge: how many allocations there were, which components are marked, and the
outputs made so far. -/
structure Merging where
  allocs : Nat
  processed : ComponentPtr → Bool
  outputs : List MergedOutput

section Merge
variable (auAverageFlows : Bool) (mem : Nat → Bool)

/-- The outputs to a component of the flows of a list that are to run. -/
def outputGroups (fl : List (Flow AuFixedPoint)) (c : ComponentPtr) : List MergedOutput :=
  fl.flatMap fun f =>
    if f.pendingState = auStateStart then f.compiled.outputs.filter (·.component = c) else []

/-- The number of inputs in a list of outputs. -/
def totalInputs (groups : List MergedOutput) : Nat := (groups.map (·.inputs.length)).sum

/-- The inputs of a merged output. -/
def mergeInputs (output : MergedOutput) (groups : List MergedOutput) :
    List (CompiledInput AuFixedPoint) :=
  if groups.length = 1 then output.inputs
  else
    let m := groupConstant groups.length
    groups.flatMap fun group =>
      if auAverageFlows then group.inputs.map fun input =>
        { input with multiplyConstant := auFixedPointMultiply input.multiplyConstant m }
      else group.inputs

/-- The body of the loop over the outputs of a flow, for an output whose component is not marked:
`none` when an allocation fails. -/
def mergeOutput (fl : List (Flow AuFixedPoint)) (st : Merging) (output : MergedOutput) :
    Exec (Option Merging) :=
  let groups := outputGroups fl output.component
  let total := totalInputs groups
  let allocs := st.allocs + 1 + groups.length + 1
  -- one more output, a place for each group, the array of inputs
  if ¬ mem st.allocs then .ok none
  else if ¬ (List.range groups.length).all fun k => mem (st.allocs + 1 + k) then .ok none
  else if ¬ aualloc (mem (st.allocs + 1 + groups.length)) (sizeofCompiledFlowInput * total) then .ok none
  else if 2 ^ 32 ≤ sizeofCompiledFlowInput * total then .error .fault
  else .ok (some
    { allocs
      processed := Function.update st.processed output.component true
      outputs := st.outputs ++ [{ output with inputs := mergeInputs auAverageFlows output groups }] })

/-- The loop over the outputs of a flow. -/
def mergeOutputs (fl : List (Flow AuFixedPoint)) : List MergedOutput → Merging → Exec (Option Merging)
  | [], st => .ok (some st)
  | output :: outputs, st =>
    if st.processed output.component then mergeOutputs fl outputs st
    else do
      match ← mergeOutput auAverageFlows mem fl st output with
      | none => .ok none
      | some st => mergeOutputs fl outputs st

/-- The loop over the flows. -/
def mergeFlows (fl : List (Flow AuFixedPoint)) : List (Flow AuFixedPoint) → Merging → Exec (Option Merging)
  | [], st => .ok (some st)
  | flow :: flows, st =>
    if flow.pendingState ≠ auStateStart then mergeFlows fl flows st
    else do
      match ← mergeOutputs auAverageFlows mem fl flow.compiled.outputs st with
      | none => .ok none
      | some st => mergeFlows fl flows st

/-- Clear the marks of the components a list of flows exports to. -/
def clearProcessed (fl : List (Flow AuFixedPoint)) (processed : ComponentPtr → Bool) :
    ComponentPtr → Bool :=
  fl.foldl (fun p f => f.compiled.outputs.foldl (fun p o => Function.update p o.component false) p)
    processed

/-- The new compiled flow of `AuProcessFlows`, `none` for the null pointer. -/
def compileFlows (processed : ComponentPtr → Bool) (fl : List (Flow AuFixedPoint)) :
    Exec (Option (CompiledFlow AuFixedPoint)) := do
  if ¬ mem 0 then .ok none
  else
    match ← mergeFlows auAverageFlows mem fl fl ⟨1, clearProcessed fl processed, []⟩ with
    | none => .ok none
    | some st => .ok (some { outputs := st.outputs })

/-- `flow->state = flow->pendingState` -/
def Flow.update {K : Type} (f : Flow K) : Flow K := { f with state := f.pendingState }

/-- `AuProcessFlows`: the new compiled flow and the flows it was made of. -/
def auProcessFlows (processed : ComponentPtr → Bool) (fl : List (Flow AuFixedPoint)) :
    Exec (Option (CompiledFlow AuFixedPoint × List (Flow AuFixedPoint))) := do
  match ← compileFlows auAverageFlows mem processed fl with
  | none => .ok none
  | some new => .ok (some (new, fl.map Flow.update))

end Merge

/-! ### What the merge should be -/

/-- The outputs of the flows that are to run. -/
def startedOutputs (fl : List (Flow AuFixedPoint)) : List MergedOutput :=
  (fl.filter (·.pendingState = auStateStart)).flatMap (·.compiled.outputs)

/-- An input of one of `numGroups` outputs to the same component. -/
def averaged (auAverageFlows : Bool) (numGroups : Nat) (input : CompiledInput AuFixedPoint) :
    CompiledInput AuFixedPoint :=
  if auAverageFlows ∧ numGroups ≠ 1 then
    { input with
      multiplyConstant := auFixedPointMultiply input.multiplyConstant (groupConstant numGroups) }
  else input

/-- `new` has one output for each component the flows that are to run export to, and its inputs are
those of all their outputs to it, one after the other. -/
structure Merged (auAverageFlows : Bool) (fl : List (Flow AuFixedPoint))
    (new : CompiledFlow AuFixedPoint) : Prop where
  nodup : (new.outputs.map (·.component)).Nodup
  component : ∀ c, c ∈ new.outputs.map (·.component) ↔ c ∈ (startedOutputs fl).map (·.component)
  inputs : ∀ o ∈ new.outputs,
    let groups := (startedOutputs fl).filter (·.component = o.component)
    o.inputs = groups.flatMap fun g => g.inputs.map (averaged auAverageFlows groups.length)

/-- A merged output to `c` has an input, and the size of its inputs is an `AuUint32`. -/
def InputsFit (fl : List (Flow AuFixedPoint)) (c : ComponentPtr) : Prop :=
  let total := totalInputs ((startedOutputs fl).filter (·.component = c))
  0 < total ∧ sizeofCompiledFlowInput * total < 2 ^ 32

instance (fl : List (Flow AuFixedPoint)) (c : ComponentPtr) : Decidable (InputsFit fl c) := by
  unfold InputsFit; infer_instance

section Merge
variable {auAverageFlows : Bool} {mem : Nat → Bool} {fl : List (Flow AuFixedPoint)}

@[simp] theorem startedOutputs_nil : startedOutputs [] = [] := rfl

theorem startedOutputs_cons (f : Flow AuFixedPoint) (fl : List (Flow AuFixedPoint)) :
    startedOutputs (f :: fl) =
      (if f.pendingState = auStateStart then f.compiled.outputs else []) ++ startedOutputs fl := by
  unfold startedOutputs
  by_cases h : f.pendingState = auStateStart <;> simp [h]

theorem outputGroups_eq (fl : List (Flow AuFixedPoint)) (c : ComponentPtr) :
    outputGroups fl c = (startedOutputs fl).filter (·.component = c) := by
  induction fl with
  | nil => rfl
  | cons f fl ih =>
    rw [outputGroups, List.flatMap_cons, ← outputGroups, ih, startedOutputs_cons, List.filter_append]
    split <;> rfl

/-- One group is copied, more are averaged. -/
theorem mergeInputs_eq {output : MergedOutput} {groups : List MergedOutput} (h : output ∈ groups) :
    mergeInputs auAverageFlows output groups =
      groups.flatMap fun g => g.inputs.map (averaged auAverageFlows groups.length) := by
  unfold mergeInputs
  by_cases h1 : groups.length = 1
  · obtain ⟨g, rfl⟩ := List.length_eq_one_iff.1 h1
    rw [List.mem_singleton] at h
    subst h
    have : averaged auAverageFlows 1 = id := by funext i; simp [averaged]
    simp [this]
  · rw [if_neg h1]
    dsimp only
    congr 1
    funext g
    cases auAverageFlows
    · have : averaged false groups.length = id := by funext i; simp [averaged]
      simp [this]
    · simp only [↓reduceIte]
      congr 1
      funext i
      simp [averaged, h1]

/-- What `mergeOutput` does when it succeeds. -/
theorem mergeOutput_cases {st st' : Merging} {output : MergedOutput}
    (h : mergeOutput auAverageFlows mem fl st output = .ok (some st')) :
    InputsFit fl output.component ∧
      st'.processed = Function.update st.processed output.component true ∧
      st'.outputs = st.outputs ++ [{ output with
        inputs := mergeInputs auAverageFlows output (outputGroups fl output.component) }] := by
  unfold mergeOutput at h
  dsimp only at h
  rw [outputGroups_eq] at h
  split at h
  · cases h
  split at h
  · cases h
  split at h
  · cases h
  · rename_i halloc
    split at h
    · cases h
    · cases h
      unfold InputsFit
      refine ⟨⟨?_, by omega⟩, rfl, by rw [outputGroups_eq]⟩
      by_contra h0
      simp only [aualloc, Bool.and_eq_true, decide_eq_true_eq, not_not] at halloc
      rw [Nat.eq_zero_of_not_pos h0] at halloc
      exact halloc.1 rfl

theorem mergeOutput_succeeds (auAverageFlows : Bool) (st : Merging) {output : MergedOutput}
    (h : InputsFit fl output.component) :
    ∃ st', mergeOutput auAverageFlows (fun _ => true) fl st output = .ok (some st') := by
  obtain ⟨h0, hlt⟩ := h
  have hpos : sizeofCompiledFlowInput * totalInputs ((startedOutputs fl).filter
      (·.component = output.component)) ≠ 0 := by
    unfold sizeofCompiledFlowInput; omega
  unfold mergeOutput
  dsimp only
  rw [outputGroups_eq, if_neg (by simp), if_neg (by simp),
    if_neg (by rw [aualloc, Nat.mod_eq_of_lt hlt]; simpa using hpos), if_neg (by omega)]
  exact ⟨_, rfl⟩

/-- The state of the merge after the outputs `done`. -/
structure MergeInv (auAverageFlows : Bool) (fl : List (Flow AuFixedPoint)) (done : List MergedOutput)
    (st : Merging) : Prop where
  processed : ∀ o ∈ startedOutputs fl,
    (st.processed o.component = true ↔ o.component ∈ done.map (·.component))
  nodup : (st.outputs.map (·.component)).Nodup
  component : ∀ c, c ∈ st.outputs.map (·.component) ↔ c ∈ done.map (·.component)
  inputs : ∀ o ∈ st.outputs,
    let groups := (startedOutputs fl).filter (·.component = o.component)
    o.inputs = groups.flatMap fun g => g.inputs.map (averaged auAverageFlows groups.length)
  flowEl : ∀ o ∈ st.outputs, ∃ o' ∈ done, o'.component = o.component ∧ o'.flowEl = o.flowEl
  fits : ∀ o ∈ done, InputsFit fl o.component

namespace MergeInv
variable {st st' : Merging} {done : List MergedOutput} {output : MergedOutput}

/-- An output whose component is marked changes nothing. -/
theorem skip (h : MergeInv auAverageFlows fl done st) (hm : output ∈ startedOutputs fl)
    (hp : st.processed output.component = true) :
    MergeInv auAverageFlows fl (done ++ [output]) st := by
  have hd := (h.processed output hm).1 hp
  obtain ⟨o₁, ho₁, he₁⟩ := List.mem_map.1 hd
  have hmap : ∀ c, c ∈ (done ++ [output]).map (·.component) ↔ c ∈ done.map (·.component) := by
    intro c
    rw [List.map_append, List.mem_append, List.map_singleton, List.mem_singleton]
    refine ⟨fun hc => hc.elim id fun hc => hc ▸ hd, .inl⟩
  refine ⟨fun o ho => by rw [hmap]; exact h.processed o ho, h.nodup,
    fun c => by rw [hmap]; exact h.component c, h.inputs, fun o ho => ?_, fun o ho => ?_⟩
  · obtain ⟨o', ho', he⟩ := h.flowEl o ho
    exact ⟨o', List.mem_append_left _ ho', he⟩
  · rcases List.mem_append.1 ho with ho | ho
    · exact h.fits o ho
    · rw [List.mem_singleton.1 ho, ← he₁]; exact h.fits o₁ ho₁

/-- An output whose component is not marked makes an output of the result. -/
theorem step (h : MergeInv auAverageFlows fl done st) (hm : output ∈ startedOutputs fl)
    (hp : ¬ st.processed output.component = true)
    (he : mergeOutput auAverageFlows mem fl st output = .ok (some st')) :
    MergeInv auAverageFlows fl (done ++ [output]) st' := by
  obtain ⟨hfit, hproc, hout⟩ := mergeOutput_cases he
  have hnew : output.component ∉ st.outputs.map (·.component) := by
    rw [h.component]; exact fun hd => hp ((h.processed output hm).2 hd)
  have hmem : output ∈ outputGroups fl output.component := by
    rw [outputGroups_eq]; exact List.mem_filter.2 ⟨hm, by simp⟩
  refine ⟨fun o ho => ?_, ?_, fun c => ?_, fun o ho => ?_, fun o ho => ?_, fun o ho => ?_⟩
  · rw [hproc, Function.update_apply, List.map_append, List.mem_append, List.map_singleton,
      List.mem_singleton, ← h.processed o ho]
    split <;> simp [*]
  · rw [hout, List.map_append, List.map_singleton, List.nodup_append]
    refine ⟨h.nodup, by simp, ?_⟩
    simp only [List.mem_singleton]
    rintro a ha b rfl rfl
    exact hnew ha
  · rw [hout, List.map_append, List.map_append, List.mem_append, List.mem_append, h.component]
    rfl
  · rw [hout] at ho
    rcases List.mem_append.1 ho with ho | ho
    · exact h.inputs o ho
    · rw [List.mem_singleton] at ho
      subst ho
      dsimp only
      rw [mergeInputs_eq hmem, outputGroups_eq]
  · rw [hout] at ho
    rcases List.mem_append.1 ho with ho | ho
    · obtain ⟨o', ho', he'⟩ := h.flowEl o ho
      exact ⟨o', List.mem_append_left _ ho', he'⟩
    · rw [List.mem_singleton] at ho
      subst ho
      exact ⟨output, by simp, rfl, rfl⟩
  · rcases List.mem_append.1 ho with ho | ho
    · exact h.fits o ho
    · rw [List.mem_singleton.1 ho]; exact hfit

theorem mergeOutputs {os : List MergedOutput} (h : MergeInv auAverageFlows fl done st)
    (hm : ∀ o ∈ os, o ∈ startedOutputs fl)
    (he : Nas.mergeOutputs auAverageFlows mem fl os st = .ok (some st')) :
    MergeInv auAverageFlows fl (done ++ os) st' := by
  induction os generalizing done st with
  | nil => cases he; simpa using h
  | cons o os ih =>
    have hm' : ∀ o ∈ os, o ∈ startedOutputs fl := fun o ho => hm o (.tail _ ho)
    unfold Nas.mergeOutputs at he
    rw [← List.singleton_append, ← List.append_assoc]
    split at he
    · exact ih (h.skip (hm o (.head _)) ‹_›) hm' he
    · obtain ⟨r, hr, he⟩ := Exec.bind_eq_ok.1 he
      cases r with
      | none => cases he
      | some st₁ => exact ih (h.step (hm o (.head _)) ‹_› hr) hm' he

theorem mergeFlows {flows : List (Flow AuFixedPoint)} (h : MergeInv auAverageFlows fl done st)
    (hm : ∀ o ∈ startedOutputs flows, o ∈ startedOutputs fl)
    (he : Nas.mergeFlows auAverageFlows mem fl flows st = .ok (some st')) :
    MergeInv auAverageFlows fl (done ++ startedOutputs flows) st' := by
  induction flows generalizing done st with
  | nil => cases he; simpa using h
  | cons f flows ih =>
    rw [startedOutputs_cons] at hm ⊢
    unfold Nas.mergeFlows at he
    by_cases hf : f.pendingState = auStateStart
    · rw [if_neg (by simp [hf])] at he
      rw [if_pos hf] at hm ⊢
      obtain ⟨r, hr, he⟩ := Exec.bind_eq_ok.1 he
      cases r with
      | none => cases he
      | some st₁ =>
        rw [← List.append_assoc]
        exact ih (h.mergeOutputs (fun o ho => hm o (List.mem_append_left _ ho)) hr)
          (fun o ho => hm o (List.mem_append_right _ ho)) he
    · rw [if_pos hf] at he
      rw [if_neg hf] at hm ⊢
      exact ih h hm he

end MergeInv

theorem mergeOutputs_succeeds (auAverageFlows : Bool) (st : Merging) {os : List MergedOutput}
    (h : ∀ o ∈ os, InputsFit fl o.component) :
    ∃ st', mergeOutputs auAverageFlows (fun _ => true) fl os st = .ok (some st') := by
  induction os generalizing st with
  | nil => exact ⟨st, rfl⟩
  | cons o os ih =>
    unfold mergeOutputs
    split
    · exact ih _ fun o ho => h o (.tail _ ho)
    · obtain ⟨st₁, h₁⟩ := mergeOutput_succeeds auAverageFlows st (h o (.head _))
      rw [h₁, Exec.ok_bind]
      exact ih _ fun o ho => h o (.tail _ ho)

theorem mergeFlows_succeeds (auAverageFlows : Bool) (st : Merging) {flows : List (Flow AuFixedPoint)}
    (h : ∀ o ∈ startedOutputs flows, InputsFit fl o.component) :
    ∃ st', mergeFlows auAverageFlows (fun _ => true) fl flows st = .ok (some st') := by
  induction flows generalizing st with
  | nil => exact ⟨st, rfl⟩
  | cons f flows ih =>
    rw [startedOutputs_cons] at h
    have h' : ∀ o ∈ startedOutputs flows, InputsFit fl o.component :=
      fun o ho => h o (List.mem_append_right _ ho)
    unfold mergeFlows
    by_cases hf : f.pendingState = auStateStart
    · rw [if_neg (by simp [hf])]
      rw [if_pos hf] at h
      obtain ⟨st₁, h₁⟩ := mergeOutputs_succeeds auAverageFlows st
        fun o ho => h o (List.mem_append_left _ ho)
      rw [h₁, Exec.ok_bind]
      exact ih _ h'
    · rw [if_pos hf]
      exact ih _ h'

/-- Clearing the marks of some components leaves no mark where there was none. -/
theorem foldl_update_false {os : List MergedOutput} {p : ComponentPtr → Bool} {c : ComponentPtr} :
    os.foldl (fun p o => Function.update p o.component false) p c = true ↔
      p c = true ∧ c ∉ os.map (·.component) := by
  induction os generalizing p with
  | nil => simp
  | cons o os ih =>
    rw [List.foldl_cons, ih, Function.update_apply, List.map_cons, List.mem_cons]
    split <;> simp [*]

theorem clearProcessed_eq {p : ComponentPtr → Bool} {o : MergedOutput} (ho : o ∈ startedOutputs fl) :
    clearProcessed fl p o.component = false := by
  induction fl generalizing p with
  | nil => cases ho
  | cons f fl ih =>
    rw [startedOutputs_cons, List.mem_append] at ho
    rcases ho with ho | ho
    · have hc : o.component ∈ f.compiled.outputs.map (·.component) := by
        split at ho
        · exact List.mem_map_of_mem ho
        · cases ho
      have hf : f.compiled.outputs.foldl (fun p o => Function.update p o.component false) p
          o.component ≠ true := by
        rw [Ne, foldl_update_false]; exact fun h => h.2 hc
      unfold clearProcessed
      rw [List.foldl_cons]
      generalize f.compiled.outputs.foldl (fun p o => Function.update p o.component false) p = q at hf ⊢
      clear ih
      induction fl generalizing q with
      | nil => simpa using hf
      | cons f' fl ih =>
        rw [List.foldl_cons]
        exact ih _ fun h => hf (foldl_update_false.1 h).1
    · exact ih ho

/-- What `AuProcessFlows` makes when it succeeds. -/
theorem compileFlows_cases {processed : ComponentPtr → Bool} {new : CompiledFlow AuFixedPoint}
    (h : compileFlows auAverageFlows mem processed fl = .ok (some new)) :
    ∃ st, new.outputs = st.outputs ∧ MergeInv auAverageFlows fl (startedOutputs fl) st := by
  unfold compileFlows at h
  split at h
  · cases h
  obtain ⟨r, hr, h⟩ := Exec.bind_eq_ok.1 h
  cases r with
  | none => cases h
  | some st =>
    cases h
    refine ⟨st, rfl, ?_⟩
    have hinit : MergeInv auAverageFlows fl [] ⟨1, clearProcessed fl processed, []⟩ := by
      refine ⟨fun o ho => ?_, by simp, by simp, by simp, by simp, by simp⟩
      simp [clearProcessed_eq ho]
    exact hinit.mergeFlows (fun _ ho => ho) hr

theorem compileFlows_succeeds (auAverageFlows : Bool) (processed : ComponentPtr → Bool)
    (h : ∀ o ∈ startedOutputs fl, InputsFit fl o.component) :
    ∃ new, compileFlows auAverageFlows (fun _ => true) processed fl = .ok (some new) := by
  unfold compileFlows
  rw [if_neg (by simp)]
  obtain ⟨st, hst⟩ := mergeFlows_succeeds auAverageFlows ⟨1, clearProcessed fl processed, []⟩ h
  rw [hst, Exec.ok_bind]
  exact ⟨_, rfl⟩

theorem MergeInv.merged {st : Merging} {new : CompiledFlow AuFixedPoint}
    (h : MergeInv auAverageFlows fl (startedOutputs fl) st) (hn : new.outputs = st.outputs) :
    Merged auAverageFlows fl new := by
  refine ⟨?_, ?_, ?_⟩ <;> rw [hn]
  · exact h.nodup
  · exact h.component
  · exact h.inputs

end Merge

/-- While there is memory, the flows of a list are merged as they should be, and get the states that
are pending, exactly when every component an output is made for gets inputs of an `AuUint32` size. -/
theorem auProcessFlows_merged_iff (auAverageFlows : Bool) (processed : ComponentPtr → Bool)
    (fl : List (Flow AuFixedPoint)) :
    (∃ new, auProcessFlows auAverageFlows (fun _ => true) processed fl =
        .ok (some (new, fl.map Flow.update)) ∧ Merged auAverageFlows fl new) ↔
      ∀ o ∈ startedOutputs fl, InputsFit fl o.component := by
  constructor
  · rintro ⟨new, h, -⟩
    obtain ⟨r, hr, h⟩ := Exec.bind_eq_ok.1 h
    cases r with
    | none => cases h
    | some new' =>
      obtain ⟨st, -, hi⟩ := compileFlows_cases hr
      exact hi.fits
  · intro h
    obtain ⟨new, hnew⟩ := compileFlows_succeeds auAverageFlows processed h
    obtain ⟨st, hout, hi⟩ := compileFlows_cases hnew
    refine ⟨new, ?_, hi.merged hout⟩
    rw [auProcessFlows, hnew, Exec.ok_bind]

/-- A flow that is to run, with an output to component `c`. -/
def startedFlow (c : ComponentPtr) (inputs : List (CompiledInput AuFixedPoint)) : Flow AuFixedPoint where
  flowId := c
  pendingState := auStateStart
  clocked := true
  compiled := { outputs := [{ component := c, flowEl := ⟨c, 0, 1⟩, inputs }] }

/-- A flow with an input, and one whose output has none: the first is not started either. -/
theorem emptyOutput_stops_merge : ¬ ∀ (auAverageFlows : Bool) (processed : ComponentPtr → Bool)
    (fl : List (Flow AuFixedPoint)), ∃ new, auProcessFlows auAverageFlows (fun _ => true) processed fl =
      .ok (some (new, fl.map Flow.update)) ∧ Merged auAverageFlows fl new := by
  intro h
  obtain ⟨new, hnew, -⟩ := h false (fun _ => false)
    [startedFlow 1 [⟨3, ⟨1, 0, 0⟩, 2 ^ 16, 0, 0, [], []⟩], startedFlow 2 []]
  have : auProcessFlows false (fun _ => true) (fun _ => false)
      [startedFlow 1 [⟨3, ⟨1, 0, 0⟩, 2 ^ 16, 0, 0, [], []⟩], startedFlow 2 []] = .ok none := by rfl
  rw [this] at hnew
  cases hnew

end Nas
