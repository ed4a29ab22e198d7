import Nas.CompileRule
import Nas.CompileTotal

/-!
# The tracks of compiled inputs

`compileInputs` takes the selection of tracks from the client's bundles and numbers the output tracks one after the
other, and `accumulateOutput` indexes its samples with both, or takes an input without a selection for one with as
many tracks as the output. Neither they nor `ProcAuSetElements` compare these with the components. `Feeds` is the walk
of `compileInputs` as a relation, and `auCompileFlow_inBounds_iff` says which flows are compiled to accesses within
bounds.
-/

namespace Nas
variable {K : Type}

/-- A call of `compileInputs`: an element, the tracks that are selected of it, all when there are none, and the first
output track. -/
structure TrackCall where
  input : Nat
  inTracks : List Nat
  firstOutTrack : Nat

/-- The calls for the runs of a bundle. -/
def runCalls : List (Nat × List Nat) → (firstOutTrack : Nat) → List TrackCall
  | [], _ => []
  | r :: rs, firstOutTrack =>
    ⟨r.1, r.2, firstOutTrack⟩ :: runCalls rs ((firstOutTrack + r.2.length) % 2 ^ 8)

/-- The calls an element makes when it is called. -/
def AuElement.trackCalls (el : AuElement K) (inTracks : List Nat) (firstOutTrack : Nat) : List TrackCall :=
  match el with
  | .bundle inputs => runCalls (bundleRuns (2 ^ 32 - 1) [] inputs) firstOutTrack
  | .multiplyConstant input _ | .addConstant input _ => [⟨input, inTracks, firstOutTrack⟩]
  | .sum inputs => inputs.map (⟨·, inTracks, firstOutTrack⟩)
  | _ => []

/-- A call gets to an import by way of others. -/
inductive Feeds (raws : List (AuElement K)) : TrackCall → TrackCall → Prop
  | arrived {c : TrackCall} {el : AuElement K} : raws[c.input]? = some el → el.isImport → Feeds raws c c
  | step {c c' d : TrackCall} {el : AuElement K} : raws[c.input]? = some el →
    c' ∈ el.trackCalls c.inTracks c.firstOutTrack → Feeds raws c' d → Feeds raws c d

/-- The number of tracks of a component. -/
def tracksAt (comps : ComponentPtr → Option Component) (p : ComponentPtr) : Option Nat :=
  (comps p).map (·.numTracks)

/-- The number of tracks of the component an element will have. -/
def AuElement.tracks (env : CompileEnv K) (comps : ComponentPtr → Option Component) (el : AuElement K) : Option Nat :=
  match el.source env.auMinibufSamples with
  | .create c _ => some c.numTracks
  | .device id | .bucket id => (env.lookup id).bind (tracksAt comps)
  | .refused => none

/-- The accesses of `accumulateOutput` for a sample, of an input with `nIn` tracks and an output with `nOut`. -/
structure TracksInBounds (nIn nOut : Nat) (inTracks outTracks : List Nat) : Prop where
  inTrack : ∀ t ∈ inTracks, t < nIn
  outTrack : ∀ t ∈ outTracks, t < nOut
  /-- a direct mapping -/
  direct : inTracks = [] → nIn = nOut

/-- The compiled inputs of an output are in bounds. -/
def CompiledOutput.InBounds (comps : ComponentPtr → Option Component) (o : CompiledOutput K) : Prop :=
  ∀ input ∈ o.inputs, ∃ nIn nOut, tracksAt comps input.component = some nIn ∧ tracksAt comps o.component = some nOut ∧
    input.numTracks = input.inTrack.length ∧ TracksInBounds nIn nOut input.inTrack input.outTrack

/-- The output tracks of a selection. -/
def TrackCall.outTracks (c : TrackCall) : List Nat :=
  (List.range c.inTracks.length).map fun j => (c.firstOutTrack + j) % 2 ^ 8

/-- Each selection of tracks on the way from an export to an import fits both. -/
def TracksFit (env : CompileEnv K) (comps : ComponentPtr → Option Component) (raws : List (AuElement K)) : Prop :=
  ∀ (i : Nat) (e : AuElement K), raws[i]? = some e → e.isExport → ∀ d, Feeds raws ⟨e.firstInput, [], 0⟩ d → ∀ el nIn nOut,
    raws[d.input]? = some el → el.tracks env comps = some nIn → e.tracks env comps = some nOut →
      TracksInBounds nIn nOut d.inTracks d.outTracks

/-! ### The walk -/

/-- An input was compiled by a call for its element. -/
structure Leads (d : TrackCall) (input : CompiledInput K) : Prop where
  element : input.flowEl.num = d.input
  numTracks : input.numTracks = d.inTracks.length
  inTrack : input.inTrack = d.inTracks
  outTrack : input.outTrack = d.outTracks

/-- From `st` to `st'` an input was compiled for each call of `P`. -/
structure Walks (raws : List (AuElement K)) (st st' : Compiling K) (P : TrackCall → Prop) : Prop where
  raws : st'.elements.map (·.raw) = raws
  outputs : st'.outputs = st.outputs
  inputs : ∃ new, st'.inputs = st.inputs ++ new ∧ (∀ input ∈ new, ∃ d, P d ∧ Leads d input) ∧
    ∀ d, P d → ∃ input ∈ new, Leads d input

section
variable {env : CompileEnv K} {raws : List (AuElement K)} {st st' st'' : Compiling K} {P Q : TrackCall → Prop}
  {i : Nat} {e : FlowElement K}

theorem Walks.trans (h : Walks raws st st' P) (h' : Walks raws st' st'' Q) : Walks raws st st'' fun d => P d ∨ Q d := by
  obtain ⟨xs, hxs, hsound, hcomplete⟩ := h.inputs
  obtain ⟨ys, hys, hsound', hcomplete'⟩ := h'.inputs
  refine ⟨h'.raws, h'.outputs.trans h.outputs, xs ++ ys, by rw [hys, hxs, List.append_assoc], fun input hin => ?_,
    fun d hd => ?_⟩
  · rcases List.mem_append.1 hin with hin | hin
    · obtain ⟨d, hd, hleads⟩ := hsound input hin
      exact ⟨d, .inl hd, hleads⟩
    · obtain ⟨d, hd, hleads⟩ := hsound' input hin
      exact ⟨d, .inr hd, hleads⟩
  · rcases hd with hd | hd
    · obtain ⟨input, hin, hleads⟩ := hcomplete d hd
      exact ⟨input, List.mem_append_left _ hin, hleads⟩
    · obtain ⟨input, hin, hleads⟩ := hcomplete' d hd
      exact ⟨input, List.mem_append_right _ hin, hleads⟩

theorem Walks.congr (h : Walks raws st st' P) (hPQ : ∀ d, P d ↔ Q d) : Walks raws st st' Q := by
  obtain rfl : P = Q := funext fun d => propext (hPQ d)
  exact h

theorem Walks.nil (h : st.elements.map (·.raw) = raws) : Walks raws st st fun _ => False :=
  ⟨h, rfl, [], by simp, by simp, by simp⟩

/-- A call compiles an input for each import it gets to. -/
def Follows (raws : List (AuElement K)) (call : CompileCall K) : Prop :=
  ∀ st input inTracks firstOutTrack st', st.elements.map (·.raw) = raws →
    call st input inTracks firstOutTrack = .ok (.auSuccess, st') →
    Walks raws st st' (Feeds raws ⟨input, inTracks, firstOutTrack⟩)

theorem compileImport_walks {multiplyConstant addConstant : K} {inTracks : List Nat} {firstOutTrack : Nat}
    (hraws : st.elements.map (·.raw) = raws) (hel : st.elements[i]? = some e) (himport : e.raw.isImport)
    (he : compileImport env (st.setElement i e.markCompiled) i e multiplyConstant addConstant inTracks firstOutTrack =
      .ok (.auSuccess, st')) :
    Walks raws st st' (Feeds raws ⟨i, inTracks, firstOutTrack⟩) := by
  have hi : raws[i]? = some e.raw := by rw [← hraws, List.getElem?_map, hel]; rfl
  have harrived : Feeds raws ⟨i, inTracks, firstOutTrack⟩ ⟨i, inTracks, firstOutTrack⟩ := .arrived hi himport
  have honly (d : TrackCall) (hd : Feeds raws ⟨i, inTracks, firstOutTrack⟩ d) : d = ⟨i, inTracks, firstOutTrack⟩ := by
    cases hd with
    | arrived => rfl
    | step hel' hcall _ =>
      obtain rfl : e.raw = _ := Option.some.inj (hi.symm.trans hel')
      cases hraw : e.raw <;> simp_all [AuElement.trackCalls, AuElement.isImport]
  obtain ⟨hne, -⟩ | ⟨-, p, st₁, hst₁, rfl⟩ := compileImport_cases hel he
  · exact absurd rfl hne
  · have hframe : st₁.elements.map (·.raw) = raws ∧ st₁.outputs = st.outputs ∧ st₁.inputs = st.inputs := by
      obtain ⟨-, hp, rfl⟩ | ⟨-, hattached⟩ := hst₁
      · rw [Compiling.share, hp]
        refine ⟨?_, rfl, rfl⟩
        dsimp only [Compiling.modifyComponent, Compiling.setElement]
        rw [List.set_set]
        exact Eq.trans (map_set_self hel (by rfl)) hraws
      · obtain ⟨sampleRate, helement⟩ := hattached.element
        refine ⟨?_, hattached.outputs, hattached.inputs⟩
        rw [helement]
        dsimp only [Compiling.setElement]
        rw [List.set_set]
        exact Eq.trans (map_set_self hel (by rfl)) hraws
    obtain ⟨hraws₁, houtputs₁, hinputs₁⟩ := hframe
    refine ⟨hraws₁, houtputs₁, _, by dsimp only; rw [hinputs₁], fun input hin => ?_, fun d hd => ?_⟩
    · rw [List.mem_singleton.1 hin]
      exact ⟨_, harrived, ⟨rfl, rfl, rfl, rfl⟩⟩
    · rw [honly d hd]
      exact ⟨_, List.mem_singleton.2 rfl, ⟨rfl, rfl, rfl, rfl⟩⟩

theorem compileSum_walks {call : CompileCall K} {inTracks inputs : List Nat} {firstOutTrack : Nat}
    (hcall : Follows raws call) (hraws : st.elements.map (·.raw) = raws)
    (he : compileSum call inTracks firstOutTrack inputs st = .ok (.auSuccess, st')) :
    Walks raws st st' fun d => ∃ c ∈ inputs.map fun input => (⟨input, inTracks, firstOutTrack⟩ : TrackCall), Feeds raws c d := by
  induction inputs generalizing st with
  | nil =>
    cases he
    exact (Walks.nil hraws).congr (by simp)
  | cons input inputs ih =>
    unfold compileSum at he
    obtain ⟨⟨status, st₁⟩, h₁, he⟩ := Exec.bind_eq_ok.1 he
    dsimp only at he
    split at he
    · cases he
      contradiction
    · rename_i hstatus
      obtain rfl : status = .auSuccess := by simpa using hstatus
      have hfirst := hcall st input inTracks firstOutTrack st₁ hraws h₁
      exact (hfirst.trans (ih hfirst.raws he)).congr (by simp)

theorem compileBundle_walks {call : CompileCall K} {tracks : List AuInputTrack} {nextInput firstOutTrack : Nat}
    {inputTracks : List Nat} (hcall : Follows raws call) (hraws : st.elements.map (·.raw) = raws)
    (he : compileBundle call tracks nextInput inputTracks firstOutTrack st = .ok (.auSuccess, st')) :
    Walks raws st st' fun d => ∃ c ∈ runCalls (bundleRuns nextInput inputTracks tracks) firstOutTrack, Feeds raws c d := by
  induction tracks generalizing st nextInput inputTracks firstOutTrack with
  | nil => exact (hcall st nextInput inputTracks firstOutTrack st' hraws he).congr (by simp [bundleRuns, runCalls])
  | cons t tracks ih =>
    unfold compileBundle at he
    rw [bundleRuns]
    split at he
    · rename_i hnew
      rw [if_pos hnew]
      obtain ⟨⟨status, st₁⟩, h₁, he⟩ := Exec.bind_eq_ok.1 he
      dsimp only at he
      split at he
      · cases he
        contradiction
      · rename_i hstatus
        obtain rfl : status = .auSuccess := by simpa using hstatus
        have hfirst := hcall st nextInput inputTracks firstOutTrack st₁ hraws h₁
        exact (hfirst.trans (ih hfirst.raws he)).congr (by simp [runCalls])
    · rename_i hsame
      rw [if_neg hsame]
      split at he
      · exact ih hraws he
      · cases he

/-- The walk of `compileInputs`. -/
theorem compileInputs_walks (fuel : Nat) (multiplyConstant addConstant : K) :
    Follows raws (compileInputs env fuel multiplyConstant addConstant) := by
  induction fuel generalizing multiplyConstant addConstant with
  | zero =>
    intro st input inTracks firstOutTrack st' _ he
    cases he
  | succ fuel ih =>
    intro st i inTracks firstOutTrack st' hraws he
    unfold compileInputs at he
    obtain ⟨e, hel, he⟩ := Exec.bind_eq_ok.1 he
    rw [Exec.deref_eq_ok] at hel
    have hi : raws[i]? = some e.raw := by rw [← hraws, List.getElem?_map, hel]; rfl
    have hraws₁ : (st.setElement i e.markCompiled).elements.map (·.raw) = raws :=
      Eq.trans (map_set_self hel (by rfl)) hraws
    -- the calls of an element that is no import are those of the walk
    have hstep (hno : e.raw.isImport = false)
        (h : Walks raws (st.setElement i e.markCompiled) st' fun d =>
          ∃ c ∈ e.raw.trackCalls inTracks firstOutTrack, Feeds raws c d) :
        Walks raws st st' (Feeds raws ⟨i, inTracks, firstOutTrack⟩) := by
      have hwalks : Walks raws st st' fun d => ∃ c ∈ e.raw.trackCalls inTracks firstOutTrack, Feeds raws c d :=
        ⟨h.raws, h.outputs, h.inputs⟩
      refine hwalks.congr fun d => ⟨fun h => ?_, fun hfeeds => ?_⟩
      · obtain ⟨c, hc, hfeeds⟩ := h
        exact .step hi hc hfeeds
      cases hfeeds with
      | arrived hel' himport =>
        obtain rfl : e.raw = _ := Option.some.inj (hi.symm.trans hel')
        rw [hno] at himport
        cases himport
      | step hel' hc hfeeds =>
        obtain rfl : e.raw = _ := Option.some.inj (hi.symm.trans hel')
        exact ⟨_, hc, hfeeds⟩
    unfold compileElement at he
    cases hraw : e.raw with
    | importClient | importDevice | importBucket | importWaveForm =>
      simp only [hraw] at he
      exact compileImport_walks hraws hel (by rw [hraw]; rfl) he
    | bundle inputs =>
      simp only [hraw] at he
      refine hstep (by rw [hraw]; rfl) ?_
      rw [hraw]
      exact compileBundle_walks (ih _ _) hraws₁ he
    | multiplyConstant input constant =>
      simp only [hraw] at he
      refine hstep (by rw [hraw]; rfl) ?_
      rw [hraw]
      exact (ih _ _ _ input inTracks firstOutTrack st' hraws₁ he).congr (by simp [AuElement.trackCalls])
    | addConstant input constant =>
      simp only [hraw] at he
      refine hstep (by rw [hraw]; rfl) ?_
      rw [hraw]
      exact (ih _ _ _ input inTracks firstOutTrack st' hraws₁ he).congr (by simp [AuElement.trackCalls])
    | sum inputs =>
      simp only [hraw] at he
      refine hstep (by rw [hraw]; rfl) ?_
      rw [hraw]
      exact compileSum_walks (ih _ _) hraws₁ he
    | exportClient | exportDevice | exportBucket | exportMonitor | other =>
      simp only [hraw] at he
      cases he

/-! ### Outputs -/

/-- An output of an export element, with the inputs of the walk from there. -/
structure Exported (raws : List (AuElement K)) (e : AuElement K) (o : CompiledOutput K) : Prop where
  element : raws[o.flowEl.num]? = some e
  isExport : e.isExport
  sound : ∀ input ∈ o.inputs, ∃ d, Feeds raws ⟨e.firstInput, [], 0⟩ d ∧ Leads d input
  complete : ∀ d, Feeds raws ⟨e.firstInput, [], 0⟩ d → ∃ input ∈ o.inputs, Leads d input

theorem compileOutput_exports {fuel : Nat} (hraws : st.elements.map (·.raw) = raws) (hel : st.elements[i]? = some e)
    (he : compileOutput env fuel st i = .ok (.auSuccess, st')) :
    st'.elements.map (·.raw) = raws ∧ if e.raw.isExport then
      ∃ o, st'.outputs = st.outputs ++ [o] ∧ o.flowEl.num = i ∧ Exported raws e.raw o else st'.outputs = st.outputs := by
  have hi : raws[i]? = some e.raw := by rw [← hraws, List.getElem?_map, hel]; rfl
  unfold compileOutput at he
  rw [hel, Exec.deref_some, Exec.ok_bind] at he
  split at he
  · rename_i hexport
    cases he
    exact ⟨hraws, by rw [if_neg hexport]⟩
  · rename_i hexport
    rw [not_not] at hexport
    rw [if_pos hexport]
    dsimp only at he
    split at he
    · cases he
    · rcases hattach : Compiling.attach env { st with allocs := st.allocs + 1 } i e with ⟨status₁, st₁⟩
      rw [hattach] at he
      dsimp only at he
      split at he
      · cases he
        contradiction
      · rename_i hstatus
        obtain rfl : status₁ = .auSuccess := by simpa using hstatus
        obtain ⟨p, hp⟩ := attach_attached hattach
        obtain ⟨sampleRate, helements⟩ := hp.element
        obtain ⟨component, -, he⟩ := Exec.bind_eq_ok.1 he
        split at he
        · cases he
        · obtain ⟨⟨status₂, st₂⟩, h₂, he⟩ := Exec.bind_eq_ok.1 he
          cases he
          have hraws₁ : st₁.elements.map (·.raw) = raws := by
            rw [helements]
            exact Eq.trans (map_set_self hel (by rfl)) hraws
          have hwalks := compileInputs_walks fuel _ _ { st₁ with inputs := [] } _ _ _ st₂ hraws₁ h₂
          obtain ⟨new, hnew, hsound, hcomplete⟩ := hwalks.inputs
          have hnew : st₂.inputs = new := hnew
          refine ⟨hwalks.raws, _, by rw [hwalks.outputs]; exact congrArg (· ++ _) hp.outputs, rfl, hi, hexport, ?_, ?_⟩
          · intro input hin
            rw [hnew] at hin
            exact hsound input hin
          · intro d hd
            dsimp only
            rw [hnew]
            exact hcomplete d hd

theorem compileOutputs_exports {fuel n k : Nat} (hraws : st.elements.map (·.raw) = raws)
    (he : compileOutputs env fuel (List.range' n k) st = .ok (.auSuccess, st')) :
    ∃ os, st'.outputs = st.outputs ++ os ∧ (∀ o ∈ os, ∃ e, Exported raws e o) ∧
      ∀ i e, n ≤ i → i < n + k → raws[i]? = some e → e.isExport → ∃ o ∈ os, o.flowEl.num = i := by
  induction k generalizing n st with
  | zero =>
    cases he
    exact ⟨[], by simp, by simp, fun i e hi hi' => absurd hi' (by omega)⟩
  | succ k ih =>
    rw [List.range'_succ, compileOutputs] at he
    obtain ⟨⟨status, st₁⟩, h₁, he⟩ := Exec.bind_eq_ok.1 he
    dsimp only at he
    split at he
    · cases he
      contradiction
    · rename_i hstatus
      obtain rfl : status = .auSuccess := by simpa using hstatus
      obtain ⟨e, hel, -⟩ := Exec.bind_eq_ok.1 h₁
      rw [Exec.deref_eq_ok] at hel
      have hn : raws[n]? = some e.raw := by rw [← hraws, List.getElem?_map, hel]; rfl
      obtain ⟨hraws₁, ho⟩ := compileOutput_exports hraws hel h₁
      obtain ⟨os, hos, hall, hex⟩ := ih hraws₁ he
      split at ho
      · obtain ⟨o, hout, hnum, hexported⟩ := ho
        refine ⟨o :: os, by rw [hos, hout, List.append_assoc]; rfl, ?_, fun i e' hi hi' he' hexport => ?_⟩
        · exact List.forall_mem_cons.2 ⟨⟨e.raw, hexported⟩, hall⟩
        · rcases Nat.lt_or_eq_of_le hi with hi | rfl
          · obtain ⟨o', ho', hnum'⟩ := hex i e' hi (by omega) he' hexport
            exact ⟨o', List.mem_cons_of_mem _ ho', hnum'⟩
          · exact ⟨o, List.mem_cons_self, hnum⟩
      · rename_i hnot
        refine ⟨os, by rw [hos, ho], hall, fun i e' hi hi' he' hexport => ?_⟩
        rcases Nat.lt_or_eq_of_le hi with hi | rfl
        · exact hex i e' hi (by omega) he' hexport
        · obtain rfl : e.raw = e' := Option.some.inj (hn.symm.trans he')
          exact absurd hexport hnot

end

/-! ### The components -/

/-- The components there were keep their tracks, and what is compiled has those of its elements. -/
structure Tracked (env : CompileEnv K) (comps : ComponentPtr → Option Component) (raws : List (AuElement K))
    (st : Compiling K) (outputs : List (CompiledOutput K)) : Prop where
  nodes : st.elements.map (·.raw) = raws
  kept : ∀ p n, tracksAt comps p = some n → tracksAt st.comps p = some n
  fresh : ∀ p, st.nextComponent ≤ p → st.comps p = none
  element : ∀ e ∈ st.elements, ∀ p, e.component = some p →
    ∃ n, tracksAt st.comps p = some n ∧ e.raw.tracks env comps = some n
  output : ∀ o ∈ outputs, ∃ el n, raws[o.flowEl.num]? = some el ∧ tracksAt st.comps o.component = some n ∧
    el.tracks env comps = some n
  input : ∀ o ∈ outputs, ∀ input ∈ o.inputs, ∃ el n, raws[input.flowEl.num]? = some el ∧
    tracksAt st.comps input.component = some n ∧ el.tracks env comps = some n

section
variable {env : CompileEnv K} {comps : ComponentPtr → Option Component} {raws : List (AuElement K)}
  {st st₁ : Compiling K} {outputs : List (CompiledOutput K)} {i : Nat} {e e' : FlowElement K} {p : ComponentPtr}

theorem tracksAt_update_map {f : Component → Component} {comps : ComponentPtr → Option Component}
    (hf : ∀ c, (f c).numTracks = c.numTracks) (q : ComponentPtr) :
    tracksAt (Function.update comps p ((comps p).map f)) q = tracksAt comps q := by
  unfold tracksAt
  by_cases hq : q = p
  · subst hq
    rw [Function.update_self, Option.map_map]
    exact congrArg (Option.map · (comps q)) (funext hf)
  · rw [Function.update_of_ne hq]

/-- A component that an element gets has the tracks of the element. -/
theorem Attached.tracks (h : Attached env st st₁ i e p) (hkept : ∀ p n, tracksAt comps p = some n → tracksAt st.comps p = some n)
    (hlive : ∀ id q, env.lookup id = some q → (comps q).isSome) (hfresh : ∀ p, st.nextComponent ≤ p → st.comps p = none) :
    (∀ q n, tracksAt st.comps q = some n → tracksAt st₁.comps q = some n) ∧
      (∀ q, st₁.nextComponent ≤ q → st₁.comps q = none) ∧
      ∃ n, tracksAt st₁.comps p = some n ∧ e.raw.tracks env comps = some n := by
  obtain ⟨c, size, hsource, hp, hcomps, hnext⟩ | ⟨id, f, hsource, hid, hcomps, hf, hnext⟩ := h.component
  · have hnone := hfresh p (Nat.le_of_eq hp.symm)
    refine ⟨fun q n hq => ?_, fun q hq => ?_, c.numTracks, ?_, ?_⟩
    · have hne : q ≠ p := fun heq => by
        rw [heq, tracksAt, hnone] at hq
        cases hq
      rw [hcomps, tracksAt, Function.update_of_ne hne]
      exact hq
    · rw [hnext] at hq
      rw [hcomps, Function.update_of_ne (Nat.ne_of_gt hq)]
      exact hfresh q (by rw [← hp]; exact Nat.le_of_lt hq)
    · rw [hcomps, tracksAt, Function.update_self]
      rfl
    · rw [AuElement.tracks, hsource]
  · have hsame (q : ComponentPtr) : tracksAt st₁.comps q = tracksAt st.comps q := by
      rw [hcomps]
      refine tracksAt_update_map (fun c => ?_) q
      obtain ⟨sampleRate, hfc⟩ := hf c
      rw [hfc]
    obtain ⟨c, hc⟩ := Option.isSome_iff_exists.1 (hlive id p hid)
    have htracks : tracksAt comps p = some c.numTracks := by rw [tracksAt, hc]; rfl
    refine ⟨fun q n hq => by rw [hsame]; exact hq, fun q hq => ?_, c.numTracks, by rw [hsame]; exact hkept p _ htracks, ?_⟩
    · rw [hnext] at hq
      have hnone := hfresh q hq
      rw [hcomps]
      by_cases hqp : q = p
      · subst hqp
        rw [Function.update_self, hnone]
        rfl
      · rw [Function.update_of_ne hqp, hnone]
    · rcases hsource with hsource | hsource
      · rw [AuElement.tracks, hsource]
        dsimp only
        rw [hid]
        exact htracks
      · rw [AuElement.tracks, hsource]
        dsimp only
        rw [hid]
        exact htracks

/-- The same elements, and more components. -/
theorem Tracked.more (h : Tracked env comps raws st outputs) (hraws : st₁.elements.map (·.raw) = raws)
    (hkept : ∀ q n, tracksAt st.comps q = some n → tracksAt st₁.comps q = some n)
    (hfresh : ∀ q, st₁.nextComponent ≤ q → st₁.comps q = none)
    (helement : ∀ e ∈ st₁.elements, ∀ p, e.component = some p →
      (∃ e₀ ∈ st.elements, e₀.component = some p ∧ e₀.raw = e.raw) ∨
        ∃ n, tracksAt st₁.comps p = some n ∧ e.raw.tracks env comps = some n) :
    Tracked env comps raws st₁ outputs where
  nodes := hraws
  kept p n hp := hkept p n (h.kept p n hp)
  fresh := hfresh
  element e he p hp := by
    obtain ⟨e₀, he₀, hp₀, hraw⟩ | hnew := helement e he p hp
    · obtain ⟨n, hn, htracks⟩ := h.element e₀ he₀ p hp₀
      exact ⟨n, hkept p n hn, hraw ▸ htracks⟩
    · exact hnew
  output o ho := by
    obtain ⟨el, n, hel, hn, htracks⟩ := h.output o ho
    exact ⟨el, n, hel, hkept _ n hn, htracks⟩
  input o ho input hin := by
    obtain ⟨el, n, hel, hn, htracks⟩ := h.input o ho input hin
    exact ⟨el, n, hel, hkept _ n hn, htracks⟩

/-- Another output. -/
theorem Tracked.addOutput {o : CompiledOutput K} (h : Tracked env comps raws st outputs)
    (ho : ∃ el n, raws[o.flowEl.num]? = some el ∧ tracksAt st.comps o.component = some n ∧ el.tracks env comps = some n)
    (hin : ∀ input ∈ o.inputs, ∃ el n, raws[input.flowEl.num]? = some el ∧
      tracksAt st.comps input.component = some n ∧ el.tracks env comps = some n) :
    Tracked env comps raws st (outputs ++ [o]) where
  nodes := h.nodes
  kept := h.kept
  fresh := h.fresh
  element := h.element
  output o' ho' := by
    rcases List.mem_append.1 ho' with ho' | ho'
    · exact h.output o' ho'
    · rw [List.mem_singleton.1 ho']
      exact ho
  input o' ho' input hmem := by
    rcases List.mem_append.1 ho' with ho' | ho'
    · exact h.input o' ho' input hmem
    · rw [List.mem_singleton.1 ho'] at hmem
      exact hin input hmem

theorem Tracked.dropOutput {o : CompiledOutput K} (h : Tracked env comps raws st (outputs ++ [o])) :
    Tracked env comps raws st outputs where
  nodes := h.nodes
  kept := h.kept
  fresh := h.fresh
  element := h.element
  output o' ho' := h.output o' (List.mem_append_left _ ho')
  input o' ho' := h.input o' (List.mem_append_left _ ho')

/-- Another input of the last output. -/
theorem Tracked.addInput {o : CompiledOutput K} (input : CompiledInput K)
    (h : Tracked env comps raws st (outputs ++ [o]))
    (hin : ∃ el n, raws[input.flowEl.num]? = some el ∧ tracksAt st.comps input.component = some n ∧
      el.tracks env comps = some n) :
    Tracked env comps raws st (outputs ++ [{ o with inputs := o.inputs ++ [input] }]) := by
  refine h.dropOutput.addOutput (h.output o (by simp)) fun input' hmem => ?_
  rcases List.mem_append.1 hmem with hmem | hmem
  · exact h.input o (by simp) input' hmem
  · rw [List.mem_singleton.1 hmem]
    exact hin

/-- An element's own fields do not matter. -/
theorem Tracked.setElement (h : Tracked env comps raws st outputs) (hel : st.elements[i]? = some e)
    (hraw : e'.raw = e.raw) (hcomponent : e'.component = e.component) (allocs : Nat) :
    Tracked env comps raws { st.setElement i e' with allocs } outputs := by
  refine h.more ?_ (fun _ _ hq => hq) h.fresh fun e₁ he₁ p hp => .inl ?_
  · exact Eq.trans (map_set_self hel hraw) h.nodes
  · rcases List.mem_or_eq_of_mem_set he₁ with he₁ | rfl
    · exact ⟨e₁, he₁, hp, rfl⟩
    · exact ⟨e, List.mem_of_getElem? hel, hcomponent.symm.trans hp, hraw.symm⟩

theorem Tracked.attached (h : Tracked env comps raws st outputs)
    (hlive : ∀ id q, env.lookup id = some q → (comps q).isSome) (hel : st.elements[i]? = some e')
    (hraw : e.raw = e'.raw) (hattached : Attached env st st₁ i e p) :
    Tracked env comps raws st₁ outputs ∧ ∃ n, tracksAt st₁.comps p = some n ∧ e.raw.tracks env comps = some n := by
  obtain ⟨hkept, hfresh, htracks⟩ := hattached.tracks h.kept hlive h.fresh
  obtain ⟨sampleRate, helements⟩ := hattached.element
  refine ⟨h.more ?_ hkept hfresh fun e₁ he₁ q hq => ?_, htracks⟩
  · rw [helements]
    exact Eq.trans (map_set_self hel hraw) h.nodes
  · rw [helements] at he₁
    rcases List.mem_or_eq_of_mem_set he₁ with he₁ | rfl
    · exact .inl ⟨e₁, he₁, hq, rfl⟩
    · cases hq
      exact .inr htracks

theorem Tracked.marked (h : Tracked env comps raws st outputs) (hel : st.elements[i]? = some e) (allocs : Nat) :
    Tracked env comps raws { st.setElement i e.markCompiled with allocs } outputs :=
  h.setElement hel (by rfl) (by rfl) allocs

theorem Tracked.share (h : Tracked env comps raws st outputs) (hel : st.elements[i]? = some e) (hp : e.component = some p) :
    Tracked env comps raws (({ st.setElement i e.markCompiled with allocs := st.allocs + 1 } : Compiling K).share i e)
      outputs := by
  have hlt : i < st.elements.length := (List.getElem?_eq_some_iff.1 hel).1
  have hmarked := h.marked hel (st.allocs + 1)
  have hel' : (st.setElement i e.markCompiled).elements[i]? = some e.markCompiled := List.getElem?_set_self hlt
  have hset := hmarked.setElement hel'
    (show ({ e with refCnt := e.refCnt + 1 } : FlowElement K).raw = e.markCompiled.raw from rfl) rfl (st.allocs + 1)
  rw [Compiling.share_eq hp]
  have hsame (q : ComponentPtr) : tracksAt (Function.update st.comps p
      ((st.comps p).map fun c => { c with refCnt := c.refCnt + 1 })) q = tracksAt st.comps q :=
    tracksAt_update_map (by exact fun _ => rfl) q
  refine hset.more hset.nodes (fun q n hq => ?_) (fun q hq => ?_) fun e₁ he₁ q hq => .inl ⟨e₁, he₁, hq, rfl⟩
  · exact (hsame q).trans hq
  · have hnone : st.comps q = none := h.fresh q hq
    have htracks := hsame q
    rw [tracksAt, tracksAt, hnone] at htracks
    exact Option.map_eq_none_iff.1 htracks

/-- What a compilation leaves of the tracks. -/
theorem tracksRule (hlive : ∀ id q, env.lookup id = some q → (comps q).isSome) :
    CompileRule env (fun _ st => Tracked env comps raws st st.outputs)
      (fun output st => Tracked env comps raws st (st.outputs ++ [{ output with inputs := st.inputs }])) where
  marked {output st i e} hst hel _ := hst.marked hel st.allocs
  imported {output st st' i e multiplyConstant addConstant inTracks firstOutTrack status} hst hel himport he := by
    have hi : raws[i]? = some e.raw := by rw [← hst.nodes, List.getElem?_map, hel]; rfl
    have hlt : i < st.elements.length := (List.getElem?_eq_some_iff.1 hel).1
    obtain ⟨-, allocs, rfl⟩ | ⟨-, p, st₁, hst₁, rfl⟩ := compileImport_cases hel he
    · exact hst.marked hel allocs
    · have htracked : Tracked env comps raws st₁ (st.outputs ++ [{ output with inputs := st.inputs }]) ∧
          (∃ n, tracksAt st₁.comps p = some n ∧ e.raw.tracks env comps = some n) ∧ st₁.outputs = st.outputs ∧
            st₁.inputs = st.inputs := by
        obtain ⟨-, hp, rfl⟩ | ⟨-, hattached⟩ := hst₁
        · have hshare := hst.share hel hp
          refine ⟨hshare, ?_, ?_, ?_⟩
          · obtain ⟨n, hn, htracks⟩ := hst.element e (List.mem_of_getElem? hel) p hp
            refine ⟨n, ?_, htracks⟩
            rw [Compiling.share_eq hp]
            refine (tracksAt_update_map ?_ p).trans hn
            intro c
            rfl
          · rw [Compiling.share_eq hp]
            rfl
          · rw [Compiling.share_eq hp]
            rfl
        · have hmarked := hst.marked hel (st.allocs + 1)
          have hel' : (st.setElement i e.markCompiled).elements[i]? = some e.markCompiled := List.getElem?_set_self hlt
          obtain ⟨htracked, hp⟩ := hmarked.attached hlive hel' (by rfl) hattached
          exact ⟨htracked, hp, hattached.outputs, hattached.inputs⟩
      obtain ⟨htracked, hp, houtputs, hinputs⟩ := htracked
      have hadd := htracked.addInput
        { component := p, flowEl := ⟨env.flow, env.block, i⟩, multiplyConstant, addConstant
          numTracks := inTracks.length, inTrack := inTracks
          outTrack := (List.range inTracks.length).map fun j => (firstOutTrack + j) % 2 ^ 8 }
        ⟨e.raw, hp.choose, hi, hp.choose_spec⟩
      dsimp only at hadd ⊢
      rw [houtputs, hinputs]
      exact ⟨hadd.nodes, hadd.kept, hadd.fresh, hadd.element, hadd.output, hadd.input⟩
  skipped hst _ _ := hst
  full hst := ⟨hst.nodes, hst.kept, hst.fresh, hst.element, hst.output, hst.input⟩
  refused hst _ _ he hne := by
    obtain ⟨allocs, rfl⟩ := attach_refused he hne
    exact ⟨hst.nodes, hst.kept, hst.fresh, hst.element, hst.output, hst.input⟩
  opened {n st st' e component} hst hel hexport he hcomponent := by
    have hi : raws[n]? = some e.raw := by rw [← hst.nodes, List.getElem?_map, hel]; rfl
    have hlt : n < st.elements.length := (List.getElem?_eq_some_iff.1 hel).1
    obtain ⟨p, hattached⟩ := attach_attached he
    obtain ⟨sampleRate, helements⟩ := hattached.element
    rw [helements] at hcomponent
    obtain rfl : p = component := by simpa [hlt] using hcomponent
    have hst : Tracked env comps raws { st with allocs := st.allocs + 1 } st.outputs :=
      ⟨hst.nodes, hst.kept, hst.fresh, hst.element, hst.output, hst.input⟩
    obtain ⟨htracked, m, hm, htracks⟩ := hst.attached hlive hel rfl hattached
    have hadd := htracked.addOutput (o := ⟨p, ⟨env.flow, env.block, n⟩, e.raw.firstInput, []⟩)
      ⟨e.raw, m, hi, hm, htracks⟩ (by simp)
    dsimp only at hadd ⊢
    rw [hattached.outputs]
    exact ⟨hadd.nodes, hadd.kept, hadd.fresh, hadd.element, hadd.output, hadd.input⟩
  closed hst := ⟨hst.nodes, hst.kept, hst.fresh, hst.element, hst.output, hst.input⟩
  inputs hst := ⟨hst.nodes, hst.kept, hst.fresh, hst.element, hst.output, hst.input⟩

end

/-! ### A compiled flow -/

section
variable {env : CompileEnv K} {st st' : Compiling K} {fuel : Nat}

/-- Each export gets an output. -/
theorem auCompileFlow_idle (he : auCompileFlow env fuel st = .ok (.auSuccess, st')) (hnil : st'.outputs = []) :
    ∀ e ∈ st.elements, e.raw.isExport = false := by
  intro e he'
  obtain ⟨i, hi⟩ := List.mem_iff_getElem?.1 he'
  have hlt : i < st.elements.length := (List.getElem?_eq_some_iff.1 hi).1
  unfold auCompileFlow at he
  rw [List.range_eq_range'] at he
  obtain ⟨os, hos, -, hall⟩ := compileOutputs_exports (Eq.refl (st.elements.map (·.raw))) he
  obtain rfl : os = [] := by
    rw [hnil] at hos
    exact hos.symm
  by_contra hexport
  obtain ⟨o, ho, -⟩ := hall i e.raw (Nat.zero_le i) (by omega) (by rw [List.getElem?_map, hi]; rfl) (by simpa using hexport)
  cases ho

/-- Which flows are compiled to accesses within bounds: those whose selections of tracks fit. -/
theorem auCompileFlow_inBounds_iff (hlive : ∀ id q, env.lookup id = some q → (st.comps q).isSome)
    (hfresh : ∀ p, st.nextComponent ≤ p → st.comps p = none) (hnone : ∀ e ∈ st.elements, e.component = none)
    (he : auCompileFlow env fuel st = .ok (.auSuccess, st')) :
    (∀ o ∈ st'.outputs, o.InBounds st'.comps) ↔ TracksFit env st.comps (st.elements.map (·.raw)) := by
  have hstart : Tracked env st.comps (st.elements.map (·.raw)) { st with outputs := [] } [] :=
    { nodes := rfl
      kept := fun _ _ hp => hp
      fresh := hfresh
      element := fun e hel p hp => by
        rw [hnone e hel] at hp
        cases hp
      output := by simp
      input := by simp }
  obtain ⟨n, htracked⟩ := (tracksRule hlive).keeps_auCompileFlow hstart he
  unfold auCompileFlow at he
  rw [List.range_eq_range'] at he
  obtain ⟨os, hos, hexported, hall⟩ := compileOutputs_exports (Eq.refl (st.elements.map (·.raw))) he
  obtain rfl : st'.outputs = os := hos
  constructor
  · intro hbounds i e hi hexport d hfeeds el nIn nOut hel hnIn hnOut
    have hlt : i < st.elements.length := by simpa using (List.getElem?_eq_some_iff.1 hi).1
    obtain ⟨o, ho, rfl⟩ := hall i e (Nat.zero_le i) (by omega) hi hexport
    obtain ⟨e', hexp⟩ := hexported o ho
    obtain rfl : e = e' := Option.some.inj (hi.symm.trans hexp.element)
    obtain ⟨input, hin, hleads⟩ := hexp.complete d hfeeds
    obtain ⟨mIn, mOut, hmIn, hmOut, -, hfit⟩ := hbounds o ho input hin
    obtain ⟨el', n', hel', hn', htracks⟩ := htracked.input o ho input hin
    obtain ⟨e', m', he', hm', htracks'⟩ := htracked.output o ho
    obtain rfl : el' = el := Option.some.inj (hel'.symm.trans (hleads.element ▸ hel))
    obtain rfl : e' = e := Option.some.inj (he'.symm.trans hi)
    obtain rfl : mIn = nIn := by
      rw [hn'] at hmIn
      rw [htracks] at hnIn
      exact (Option.some.inj hmIn).symm.trans (Option.some.inj hnIn)
    obtain rfl : mOut = nOut := by
      rw [hm'] at hmOut
      rw [htracks'] at hnOut
      exact (Option.some.inj hmOut).symm.trans (Option.some.inj hnOut)
    rw [hleads.inTrack, hleads.outTrack] at hfit
    exact hfit
  · intro hfit o ho input hin
    obtain ⟨e, hexp⟩ := hexported o ho
    obtain ⟨d, hfeeds, hleads⟩ := hexp.sound input hin
    obtain ⟨el, nIn, hel, hnIn, htracks⟩ := htracked.input o ho input hin
    obtain ⟨e', nOut, he', hnOut, htracks'⟩ := htracked.output o ho
    obtain rfl : e' = e := Option.some.inj (he'.symm.trans hexp.element)
    refine ⟨nIn, nOut, hnIn, hnOut, hleads.numTracks.trans (by rw [hleads.inTrack]), ?_⟩
    rw [hleads.inTrack, hleads.outTrack]
    exact hfit _ _ hexp.element hexp.isExport d hfeeds el nIn nOut (hleads.element ▸ hel) htracks htracks'

end

end Nas
