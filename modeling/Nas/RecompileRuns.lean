import Nas.TrackRuns

/-!
# A second compilation

`AuCompileFlow` for a flow that has outputs makes no inputs. It walks the graph once more and writes constants over
those of the inputs in the order of its walk.

What a compilation makes besides the constants does not depend on any parameter (`auCompileFlow_bare`), and the
constants are those of its walk (`compileInputs_constants`). So the second compilation of a flow whose parameters were
changed gives what a first one of its elements gives (`recompileFlow_fresh`), at any time in a run (`Lasts`).
-/

namespace Nas
variable {K : Type}

/-! ### Less the parameters -/

/-- An element less the parameters that can be changed. -/
def AuElement.bare : AuElement K → AuElement Unit
  | .importClient p => .importClient p
  | .importDevice p => .importDevice p
  | .importBucket p => .importBucket { p with offset := 0 }
  | .importWaveForm p => .importWaveForm { p with frequency := 0, numSamples := 0 }
  | .bundle inputs => .bundle inputs
  | .multiplyConstant input _ => .multiplyConstant input ()
  | .addConstant input _ => .addConstant input ()
  | .sum inputs => .sum inputs
  | .exportClient p => .exportClient p
  | .exportDevice p => .exportDevice p
  | .exportBucket p => .exportBucket { p with offset := 0 }
  | .exportMonitor p => .exportMonitor p
  | .other type => .other type

def FlowElement.bare (e : FlowElement K) : FlowElement Unit := { e with raw := e.raw.bare }

def CompiledInput.bare (input : CompiledInput K) : CompiledInput Unit :=
  { input with multiplyConstant := (), addConstant := () }

def CompiledOutput.bare (o : CompiledOutput K) : CompiledOutput Unit :=
  { o with inputs := o.inputs.map CompiledInput.bare }

def Compiling.bare (st : Compiling K) : Compiling Unit :=
  { st with
    elements := st.elements.map FlowElement.bare
    outputs := st.outputs.map CompiledOutput.bare
    inputs := st.inputs.map CompiledInput.bare }

def CompileEnv.bare (env : CompileEnv K) : CompileEnv Unit :=
  { env with arith := ⟨(), (), fun _ _ => (), fun _ _ => ()⟩ }

/-- What a part of the compilation makes, less the parameters. -/
def bareResult (r : AuStatus × Compiling K) : AuStatus × Compiling Unit := (r.1, r.2.bare)

section
variable {env : CompileEnv K} {st : Compiling K} {e : FlowElement K} {i : Nat}

theorem AuElement.source_bare (n : Nat) (el : AuElement K) : el.bare.source n = el.source n := by cases el <;> rfl

theorem AuElement.sampleRate_bare (el : AuElement K) : el.bare.sampleRate = el.sampleRate := by cases el <;> rfl

theorem AuElement.isImport_bare (el : AuElement K) : el.bare.isImport = el.isImport := by cases el <;> rfl

theorem AuElement.isExport_bare (el : AuElement K) : el.bare.isExport = el.isExport := by cases el <;> rfl

theorem AuElement.firstInput_bare (el : AuElement K) : el.bare.firstInput = el.firstInput := by cases el <;> rfl

theorem AuElement.bare_setParameters (v : Nat → Nat) (el : AuElement AuFixedPoint) :
    (el.setParameters v).bare = el.bare := by cases el <;> rfl

theorem Compiling.bare_setElement (i : Nat) (e : FlowElement K) :
    (st.setElement i e).bare = st.bare.setElement i e.bare := by
  simp only [bare, setElement, List.map_set]

theorem Compiling.bare_modifyComponent (p : ComponentPtr) (f : Component → Component) :
    (st.modifyComponent p f).bare = st.bare.modifyComponent p f := rfl

theorem Compiling.bare_bucketMinibuf (p : ComponentPtr) (el : AuElement K) :
    st.bare.bucketMinibuf p el.bare = st.bucketMinibuf p el := by
  rw [bucketMinibuf, bucketMinibuf, el.isImport_bare]
  rfl

theorem Compiling.attach_bare (env : CompileEnv K) (st : Compiling K) (i : Nat) (e : FlowElement K) :
    st.bare.attach env.bare i e.bare = bareResult (st.attach env i e) := by
  have hsource : e.bare.raw.source env.bare.auMinibufSamples = e.raw.source env.auMinibufSamples := e.raw.source_bare _
  have hrate : e.bare.raw.sampleRate = e.raw.sampleRate := e.raw.sampleRate_bare
  have himport : e.bare.raw.isImport = e.raw.isImport := e.raw.isImport_bare
  have hminibuf (st : Compiling K) (p : ComponentPtr) : st.bare.bucketMinibuf p e.bare.raw = st.bucketMinibuf p e.raw :=
    bare_bucketMinibuf p e.raw
  have hset (st : Compiling K) (e : FlowElement K) : st.bare.setElement i e.bare = (st.setElement i e).bare :=
    (bare_setElement i e).symm
  unfold attach
  rw [hsource]
  cases e.raw.source env.auMinibufSamples with
  | create c size =>
    have hmem : env.bare.mem st.bare.allocs = env.mem st.allocs := rfl
    dsimp only
    rw [hmem]
    split
    · rfl
    · exact congrArg (fun t : Compiling Unit => (AuStatus.auSuccess, { t with
        allocs := st.allocs + 1
        comps := Function.update st.comps st.nextComponent (some c)
        nextComponent := st.nextComponent + 1 }))
        (hset st { e with compiled := true, component := some st.nextComponent })
  | refused => rfl
  | device id =>
    have hlookup : env.bare.lookup id = env.lookup id := rfl
    dsimp only
    rw [hlookup, hrate, himport]
    cases env.lookup id with
    | none => rfl
    | some p =>
      dsimp only
      split
      · exact congrArg (fun t : Compiling Unit => (AuStatus.auSuccess, t.modifyComponent p
          fun c => { c with refCnt := c.refCnt + 1, sampleRate := e.raw.sampleRate }))
          (hset st { e with compiled := true, component := some p })
      · exact congrArg (fun t : Compiling Unit => (AuStatus.auSuccess, t.modifyComponent p
          fun c => { c with refCnt := c.refCnt + 1 }))
          (hset st { e with compiled := true, component := some p, sampleRate := e.raw.sampleRate })
  | bucket id =>
    have hlookup : env.bare.lookup id = env.lookup id := rfl
    have hmem : env.bare.mem st.bare.allocs = env.mem st.allocs := rfl
    dsimp only
    rw [hlookup, hrate]
    cases env.lookup id with
    | none => rfl
    | some p =>
      have hsize : Compiling.bucketMinibuf { st.bare with allocs := st.bare.allocs + 1 } p e.bare.raw =
          Compiling.bucketMinibuf { st with allocs := st.allocs + 1 } p e.raw :=
        hminibuf { st with allocs := st.allocs + 1 } p
      dsimp only
      rw [hmem, hsize]
      split
      · rfl
      · exact congrArg (fun t : Compiling Unit => (AuStatus.auSuccess, t.modifyComponent p
          fun c => { c with refCnt := c.refCnt + 1 }))
          (hset { st with allocs := st.allocs + 1, minibufs := st.minibufs ++ [i] }
            { e with compiled := true, component := some p, sampleRate := e.raw.sampleRate })

theorem Compiling.share_bare : st.bare.share i e.bare = (st.share i e).bare := by
  have hcomponent : e.bare.component = e.component := rfl
  unfold share
  rw [hcomponent]
  cases e.component with
  | none => rfl
  | some p =>
    dsimp only
    rw [bare_modifyComponent, bare_setElement]
    rfl

theorem Compiling.bare_getElem? (i : Nat) : st.bare.elements[i]? = (st.elements[i]?).map FlowElement.bare :=
  List.getElem?_map

/-- What `compileImport` does once it knows whether there is a component. -/
def CompileEnv.addInput (env : CompileEnv K) (i : Nat) (multiplyConstant addConstant : K) (inTracks : List Nat)
    (firstOutTrack : Nat) (r : AuStatus × Compiling K) : Exec (AuStatus × Compiling K) :=
  if r.1 ≠ .auSuccess then .ok r
  else do
    let component ← Exec.deref ((r.2.elements[i]?).bind (·.component))
    .ok (.auSuccess, { r.2 with inputs := r.2.inputs ++
      [{ component
         flowEl := ⟨env.flow, env.block, i⟩
         multiplyConstant, addConstant
         numTracks := inTracks.length
         inTrack := inTracks
         outTrack := (List.range inTracks.length).map fun j => (firstOutTrack + j) % 2 ^ 8 }] })

theorem compileImport_eq (multiplyConstant addConstant : K) (inTracks : List Nat) (firstOutTrack : Nat)
    (hm : env.mem st.allocs = true) : compileImport env st i e multiplyConstant addConstant inTracks firstOutTrack =
      env.addInput i multiplyConstant addConstant inTracks firstOutTrack
        (if e.compiled then (.auSuccess, Compiling.share { st with allocs := st.allocs + 1 } i e)
          else Compiling.attach env { st with allocs := st.allocs + 1 } i e) := by
  unfold compileImport
  dsimp only
  rw [if_neg (not_not_intro hm)]
  rfl

theorem CompileEnv.addInput_bare (multiplyConstant addConstant : K) (inTracks : List Nat) (firstOutTrack : Nat)
    (r : AuStatus × Compiling K) : env.bare.addInput i () () inTracks firstOutTrack (bareResult r) =
      (env.addInput i multiplyConstant addConstant inTracks firstOutTrack r).map bareResult := by
  unfold addInput
  by_cases hs : r.1 = .auSuccess
  · have hcomponent : ((bareResult r).2.elements[i]?).bind (·.component) = (r.2.elements[i]?).bind (·.component) := by
      rw [show (bareResult r).2 = r.2.bare from rfl, Compiling.bare_getElem?, Option.bind_map]
      rfl
    rw [if_neg (not_not_intro hs), if_neg (not_not_intro (show (bareResult r).1 = .auSuccess from hs)), hcomponent]
    cases (r.2.elements[i]?).bind (·.component) with
    | none => rfl
    | some component =>
      rw [Exec.deref_some, Exec.ok_bind, Exec.ok_bind]
      simp [Except.map, bareResult, Compiling.bare, CompiledInput.bare, CompileEnv.bare]
  · rw [if_pos hs, if_pos (show (bareResult r).1 ≠ .auSuccess from hs)]
    rfl

theorem compileImport_bare (multiplyConstant addConstant : K) (inTracks : List Nat) (firstOutTrack : Nat) :
    compileImport env.bare st.bare i e.bare () () inTracks firstOutTrack =
      (compileImport env st i e multiplyConstant addConstant inTracks firstOutTrack).map bareResult := by
  have hmem : env.bare.mem st.bare.allocs = env.mem st.allocs := rfl
  by_cases hm : env.mem st.allocs
  · let st₁ : Compiling K := { st with allocs := st.allocs + 1 }
    have hattach : (if e.bare.compiled then (AuStatus.auSuccess, st₁.bare.share i e.bare)
        else st₁.bare.attach env.bare i e.bare) =
        bareResult (if e.compiled then (AuStatus.auSuccess, st₁.share i e) else st₁.attach env i e) := by
      have hcompiled : e.bare.compiled = e.compiled := rfl
      rw [hcompiled]
      split
      · exact congrArg (Prod.mk AuStatus.auSuccess) Compiling.share_bare
      · exact Compiling.attach_bare env st₁ i e
    rw [compileImport_eq _ _ _ _ hm, compileImport_eq _ _ _ _ (hmem.trans hm), ← CompileEnv.addInput_bare]
    exact congrArg (env.bare.addInput i () () inTracks firstOutTrack) hattach
  · unfold compileImport
    dsimp only
    rw [hmem, if_pos hm, if_pos hm]
    rfl

/-! ### The walk -/

/-- A call does the same to what is left without the parameters. -/
def BareCall (call : CompileCall K) (call' : CompileCall Unit) : Prop :=
  ∀ st i inTracks firstOutTrack,
    call' st.bare i inTracks firstOutTrack = (call st i inTracks firstOutTrack).map bareResult

theorem Exec.map_bind {α β γ : Type} (x : Exec α) (f : α → Exec β) (g : β → γ) :
    (x >>= f).map g = x >>= fun a => (f a).map g := by
  cases x <;> rfl

theorem Exec.bind_map {α β γ : Type} (x : Exec α) (g : α → β) (f : β → Exec γ) :
    Except.map g x >>= f = x >>= fun a => f (g a) := by
  cases x <;> rfl

theorem compileBundle_bare {call : CompileCall K} {call' : CompileCall Unit} (h : BareCall call call')
    (tracks : List AuInputTrack) (nextInput : Nat) (inputTracks : List Nat) (firstOutTrack : Nat) :
    compileBundle call' tracks nextInput inputTracks firstOutTrack st.bare =
      (compileBundle call tracks nextInput inputTracks firstOutTrack st).map bareResult := by
  induction tracks generalizing nextInput inputTracks firstOutTrack st with
  | nil => exact h st nextInput inputTracks firstOutTrack
  | cons t tracks ih =>
    unfold compileBundle
    split
    · rw [h, Exec.bind_map, Exec.map_bind]
      congr 1
      funext r
      dsimp only [bareResult]
      split
      · rfl
      · exact ih _ _ _
    · split
      · exact ih _ _ _
      · rfl

theorem compileSum_bare {call : CompileCall K} {call' : CompileCall Unit} (h : BareCall call call')
    (inTracks : List Nat) (firstOutTrack : Nat) (inputs : List Nat) :
    compileSum call' inTracks firstOutTrack inputs st.bare =
      (compileSum call inTracks firstOutTrack inputs st).map bareResult := by
  induction inputs generalizing st with
  | nil => rfl
  | cons input inputs ih =>
    unfold compileSum
    rw [h, Exec.bind_map, Exec.map_bind]
    congr 1
    funext r
    dsimp only [bareResult]
    split
    · rfl
    · exact ih

theorem compileInputs_bare (env : CompileEnv K) (fuel : Nat) (multiplyConstant addConstant : K) :
    BareCall (compileInputs env fuel multiplyConstant addConstant) (compileInputs env.bare fuel () ()) := by
  induction fuel generalizing multiplyConstant addConstant with
  | zero => exact fun _ _ _ _ => rfl
  | succ fuel ih =>
    intro st i inTracks firstOutTrack
    unfold compileInputs
    rw [Compiling.bare_getElem?]
    cases hel : st.elements[i]? with
    | none => rfl
    | some e =>
      rw [Option.map_some, Exec.deref_some, Exec.deref_some, Exec.ok_bind, Exec.ok_bind]
      have hmark : st.bare.setElement i e.bare.markCompiled = (st.setElement i e.markCompiled).bare :=
        (Compiling.bare_setElement i e.markCompiled).symm
      rw [hmark]
      unfold compileElement
      have hraw : e.bare.raw = e.raw.bare := rfl
      rw [hraw]
      cases e.raw with
      | importClient | importDevice | importBucket | importWaveForm =>
        exact compileImport_bare multiplyConstant addConstant inTracks firstOutTrack
      | bundle inputs => exact compileBundle_bare (ih _ _) inputs _ _ _
      | multiplyConstant input constant => exact ih _ _ _ _ _ _
      | addConstant input constant => exact ih _ _ _ _ _ _
      | sum inputs => exact compileSum_bare (ih _ _) _ _ inputs
      | _ => rfl

theorem compileOutput_bare (fuel i : Nat) :
    compileOutput env.bare fuel st.bare i = (compileOutput env fuel st i).map bareResult := by
  have hmem : env.bare.mem st.bare.allocs = env.mem st.allocs := rfl
  unfold compileOutput
  rw [Compiling.bare_getElem?]
  cases hel : st.elements[i]? with
  | none => rfl
  | some e =>
    have hexport : e.bare.raw.isExport = e.raw.isExport := e.raw.isExport_bare
    have hfirst : e.bare.raw.firstInput = e.raw.firstInput := e.raw.firstInput_bare
    rw [Option.map_some, Exec.deref_some, Exec.deref_some, Exec.ok_bind, Exec.ok_bind, hexport]
    split
    · rfl
    · dsimp only
      rw [hmem]
      split
      · rfl
      · have hattach : Compiling.attach env.bare { st.bare with allocs := st.bare.allocs + 1 } i e.bare =
            bareResult (Compiling.attach env { st with allocs := st.allocs + 1 } i e) :=
          Compiling.attach_bare env { st with allocs := st.allocs + 1 } i e
        obtain ⟨status, st', hr⟩ : ∃ status st',
          Compiling.attach env { st with allocs := st.allocs + 1 } i e = (status, st') := ⟨_, _, rfl⟩
        rw [hr, bareResult] at hattach
        rw [hr, hattach]
        dsimp only
        by_cases hs : status = .auSuccess
        · have hcomponent : (st'.bare.elements[i]?).bind (·.component) = (st'.elements[i]?).bind (·.component) := by
            rw [Compiling.bare_getElem?, Option.bind_map]
            rfl
          rw [if_neg (not_not_intro hs), if_neg (not_not_intro hs), hcomponent]
          cases (st'.elements[i]?).bind (·.component) with
          | none => rfl
          | some component =>
            have hlength : st'.bare.elements.length = st'.elements.length := List.length_map _
            rw [Exec.deref_some, Exec.ok_bind, Exec.ok_bind, hfirst, hlength]
            split
            · simp [Except.map, bareResult, Compiling.bare, CompiledOutput.bare, CompileEnv.bare]
            · have hinputs := compileInputs_bare env fuel env.arith.one env.arith.zero { st' with inputs := [] }
                e.raw.firstInput [] 0
              rw [Exec.map_bind]
              refine (congrArg (· >>= _) hinputs).trans ?_
              rw [Exec.bind_map]
              congr 1
              funext r
              simp [Except.map, bareResult, Compiling.bare, CompiledOutput.bare, CompileEnv.bare]
        · rw [if_pos hs, if_pos hs]
          rfl

theorem compileOutputs_bare (st : Compiling K) (fuel : Nat) (is : List Nat) :
    compileOutputs env.bare fuel is st.bare = (compileOutputs env fuel is st).map bareResult := by
  induction is generalizing st with
  | nil => rfl
  | cons i is ih =>
    unfold compileOutputs
    rw [compileOutput_bare, Exec.bind_map, Exec.map_bind]
    congr 1
    funext r
    dsimp only [bareResult]
    split
    · rfl
    · exact ih _

/-- What a compilation makes does not depend on any parameter. -/
theorem auCompileFlow_bare (env : CompileEnv K) (st : Compiling K) (fuel : Nat) :
    auCompileFlow env.bare fuel st.bare = (auCompileFlow env fuel st).map bareResult := by
  have hlength : st.bare.elements.length = st.elements.length := List.length_map _
  unfold auCompileFlow
  rw [hlength]
  exact compileOutputs_bare { st with outputs := [] } fuel _

end

/-! ### The constants -/

/-- What a second compilation stores. -/
def CompiledInput.constants (input : CompiledInput K) : K × K := (input.multiplyConstant, input.addConstant)

section
variable {env : CompileEnv K} {st st' : Compiling K} {e : FlowElement K} {raws : List (AuElement K)}
  {els : List (FlowElement K)} {i : Nat}

/-- A part of the walk has added inputs with these constants. -/
def Adds (raws : List (AuElement K)) (st st' : Compiling K) (constants : List (K × K)) : Prop :=
  st'.elements.map (·.raw) = raws ∧ st'.outputs = st.outputs ∧
    st'.inputs.map CompiledInput.constants = st.inputs.map CompiledInput.constants ++ constants

theorem Adds.trans {st'' : Compiling K} {cs cs' : List (K × K)} (h : Adds raws st st' cs)
    (h' : Adds raws st' st'' cs') : Adds raws st st'' (cs ++ cs') :=
  ⟨h'.1, h'.2.1.trans h.2.1, by rw [h'.2.2, h.2.2, List.append_assoc]⟩

/-- The second walk stores what the first one has added. -/
def Repeats (raws : List (AuElement K)) (call : CompileCall K) (again : Nat → Exec (AuStatus × List (K × K))) : Prop :=
  ∀ st input inTracks firstOutTrack st', st.elements.map (·.raw) = raws →
    call st input inTracks firstOutTrack = .ok (.auSuccess, st') →
    ∃ constants, again input = .ok (.auSuccess, constants) ∧ Adds raws st st' constants

theorem compileImport_adds {multiplyConstant addConstant : K} {inTracks : List Nat} {firstOutTrack : Nat}
    (hraws : st.elements.map (·.raw) = raws) (hel : st.elements[i]? = some e) (himport : e.raw.isImport)
    (he : compileImport env (st.setElement i e.markCompiled) i e multiplyConstant addConstant inTracks firstOutTrack =
      .ok (.auSuccess, st')) : Adds raws st st' [(multiplyConstant, addConstant)] := by
  have hwalks := compileImport_walks hraws hel himport he
  refine ⟨hwalks.raws, hwalks.outputs, ?_⟩
  obtain ⟨hne, -⟩ | ⟨-, p, st₁, hst₁, rfl⟩ := compileImport_cases hel he
  · exact absurd rfl hne
  · have hinputs : st₁.inputs = st.inputs := by
      obtain ⟨-, hp, rfl⟩ | ⟨-, hattached⟩ := hst₁
      · rw [Compiling.share, hp]
        rfl
      · exact hattached.inputs
    dsimp only
    rw [List.map_append, hinputs]
    rfl

theorem compileSum_repeats {call : CompileCall K} {again : Nat → Exec (AuStatus × List (K × K))}
    {inTracks inputs : List Nat} {firstOutTrack : Nat} (hcall : Repeats raws call again)
    (hraws : st.elements.map (·.raw) = raws)
    (he : compileSum call inTracks firstOutTrack inputs st = .ok (.auSuccess, st')) :
    ∃ constants, recompileEach again inputs = .ok (.auSuccess, constants) ∧ Adds raws st st' constants := by
  induction inputs generalizing st with
  | nil =>
    cases he
    exact ⟨[], rfl, hraws, rfl, by rw [List.append_nil]⟩
  | cons input inputs ih =>
    obtain ⟨⟨status, st₁⟩, h₁, he⟩ := Exec.bind_eq_ok.1 he
    dsimp only at he
    split at he
    · cases he
      contradiction
    · rename_i hstatus
      obtain rfl : status = .auSuccess := by simpa using hstatus
      obtain ⟨cs, hcs, hadds⟩ := hcall st input inTracks firstOutTrack st₁ hraws h₁
      obtain ⟨cs', hcs', hadds'⟩ := ih hadds.1 he
      refine ⟨cs ++ cs', ?_, hadds.trans hadds'⟩
      rw [recompileEach, hcs, Exec.ok_bind]
      dsimp only
      rw [if_neg (by decide), hcs', Exec.ok_bind]

theorem compileBundle_repeats {call : CompileCall K} {again : Nat → Exec (AuStatus × List (K × K))}
    {tracks : List AuInputTrack} {nextInput firstOutTrack : Nat} {inputTracks : List Nat}
    (hcall : Repeats raws call again) (hraws : st.elements.map (·.raw) = raws)
    (he : compileBundle call tracks nextInput inputTracks firstOutTrack st = .ok (.auSuccess, st')) :
    ∃ calls constants, bundleCalls tracks nextInput inputTracks.length = .ok calls ∧
      recompileEach again calls = .ok (.auSuccess, constants) ∧ Adds raws st st' constants := by
  induction tracks generalizing st nextInput inputTracks firstOutTrack with
  | nil =>
    obtain ⟨cs, hcs, hadds⟩ := hcall st nextInput inputTracks firstOutTrack st' hraws he
    refine ⟨[nextInput], cs, rfl, ?_, hadds⟩
    rw [recompileEach, hcs, Exec.ok_bind]
    dsimp only
    rw [if_neg (by decide), recompileEach, Exec.ok_bind, List.append_nil]
  | cons t tracks ih =>
    unfold compileBundle at he
    unfold bundleCalls
    split at he
    · rename_i hnew
      obtain ⟨⟨status, st₁⟩, h₁, he⟩ := Exec.bind_eq_ok.1 he
      dsimp only at he
      split at he
      · cases he
        contradiction
      · rename_i hstatus
        obtain rfl : status = .auSuccess := by simpa using hstatus
        obtain ⟨cs, hcs, hadds⟩ := hcall st nextInput inputTracks firstOutTrack st₁ hraws h₁
        obtain ⟨calls, cs', hcalls, hcs', hadds'⟩ := ih hadds.1 he
        refine ⟨nextInput :: calls, cs ++ cs', ?_, ?_, hadds.trans hadds'⟩
        · rw [if_pos ⟨by simpa using hnew.1, hnew.2⟩]
          exact Exec.bind_eq_ok.2 ⟨calls, hcalls, rfl⟩
        · rw [recompileEach, hcs, Exec.ok_bind]
          dsimp only
          rw [if_neg (by decide), hcs', Exec.ok_bind]
    · rename_i hsame
      split at he
      · rename_i hroom
        obtain ⟨calls, cs, hcalls, hcs, hadds⟩ := ih hraws he
        refine ⟨calls, cs, ?_, hcs, hadds⟩
        rw [if_neg (fun h => hsame ⟨by simpa using h.1, h.2⟩), if_pos hroom]
        rwa [List.length_append] at hcalls
      · cases he

/-- The walk of a second compilation finds the inputs of the first one in their order. -/
theorem compileInputs_constants (hels : els.map (·.raw) = raws) (fuel : Nat) (multiplyConstant addConstant : K) :
    Repeats raws (compileInputs env fuel multiplyConstant addConstant)
      (recompileInputs env.arith els fuel multiplyConstant addConstant) := by
  induction fuel generalizing multiplyConstant addConstant with
  | zero =>
    intro st input inTracks firstOutTrack st' _ he
    cases he
  | succ fuel ih =>
    intro st input inTracks firstOutTrack st' hraws he
    obtain ⟨e, hel, he⟩ := Exec.bind_eq_ok.1 he
    rw [Exec.deref_eq_ok] at hel
    have hi : raws[input]? = some e.raw := by rw [← hraws, List.getElem?_map, hel]; rfl
    obtain ⟨e', hel', hraw'⟩ : ∃ e', els[input]? = some e' ∧ e'.raw = e.raw := by
      rw [← hels, List.getElem?_map] at hi
      exact Option.map_eq_some_iff.1 hi
    -- the mark on the element is nothing that is looked at
    have hmark : (st.setElement input e.markCompiled).elements.map (·.raw) = raws :=
      (map_set_self hel (by rfl)).trans hraws
    have hadds {cs : List (K × K)} (h : Adds raws (st.setElement input e.markCompiled) st' cs) :
        Adds raws st st' cs := h
    unfold recompileInputs
    rw [hel', Exec.deref_some, Exec.ok_bind, hraw']
    unfold compileElement at he
    cases hraw : e.raw with
    | importClient | importDevice | importBucket | importWaveForm =>
      rw [hraw] at he
      exact ⟨_, rfl, compileImport_adds hraws hel (by rw [hraw]; rfl) he⟩
    | bundle inputs =>
      rw [hraw] at he
      obtain ⟨calls, cs, hcalls, hcs, h⟩ := compileBundle_repeats (ih _ _) hmark he
      exact ⟨cs, Exec.bind_eq_ok.2 ⟨calls, hcalls, hcs⟩, hadds h⟩
    | multiplyConstant next constant =>
      rw [hraw] at he
      obtain ⟨cs, hcs, h⟩ := ih _ _ _ _ _ _ _ hmark he
      exact ⟨cs, hcs, hadds h⟩
    | addConstant next constant =>
      rw [hraw] at he
      obtain ⟨cs, hcs, h⟩ := ih _ _ _ _ _ _ _ hmark he
      exact ⟨cs, hcs, hadds h⟩
    | sum inputs =>
      rw [hraw] at he
      obtain ⟨cs, hcs, h⟩ := compileSum_repeats (ih _ _) hmark he
      exact ⟨cs, hcs, hadds h⟩
    | exportClient | exportDevice | exportBucket | exportMonitor | other =>
      rw [hraw] at he
      cases he

/-- The constants of an output are those the elements have. -/
structure UpToDate (arith : Arith K) (els : List (FlowElement K)) (fuel : Nat) (o : CompiledOutput K) : Prop where
  firstInput_le : o.firstInput ≤ els.length
  constants : recompileInputs arith els fuel arith.one arith.zero o.firstInput =
    .ok (.auSuccess, o.inputs.map CompiledInput.constants)

theorem compileOutput_upToDate {fuel : Nat} (hels : els.map (·.raw) = raws) (hraws : st.elements.map (·.raw) = raws)
    (hel : st.elements[i]? = some e) (he : compileOutput env fuel st i = .ok (.auSuccess, st')) :
    st'.elements.map (·.raw) = raws ∧ ∃ os, st'.outputs = st.outputs ++ os ∧
      os.length = (if e.raw.isExport then 1 else 0) ∧ ∀ o ∈ os, UpToDate env.arith els fuel o := by
  unfold compileOutput at he
  rw [hel, Exec.deref_some, Exec.ok_bind] at he
  split at he
  · rename_i hexport
    cases he
    exact ⟨hraws, [], by rw [List.append_nil], by rw [if_neg hexport]; rfl, by simp⟩
  · rename_i hexport
    rw [not_not] at hexport
    rw [if_pos hexport]
    dsimp only at he
    split at he
    · cases he
    · rcases hattach : Compiling.attach env { st with allocs := st.allocs + 1 } i e with ⟨status₁, st₁⟩
      rw [hattach] at he
      dsimp only at he
      split at he
      · cases he
        contradiction
      · rename_i hstatus
        obtain rfl : status₁ = .auSuccess := by simpa using hstatus
        obtain ⟨p, hp⟩ := attach_attached hattach
        obtain ⟨sampleRate, helements⟩ := hp.element
        obtain ⟨component, -, he⟩ := Exec.bind_eq_ok.1 he
        split at he
        · cases he
        · rename_i hfirst
          obtain ⟨⟨status₂, st₂⟩, h₂, he⟩ := Exec.bind_eq_ok.1 he
          cases he
          have hraws₁ : st₁.elements.map (·.raw) = raws := by
            rw [helements]
            exact Eq.trans (map_set_self hel (by rfl)) hraws
          obtain ⟨cs, hcs, hraws₂, houtputs, hinputs⟩ :=
            compileInputs_constants hels fuel _ _ { st₁ with inputs := [] } _ _ _ st₂ hraws₁ h₂
          have hlength : st₁.elements.length = els.length := by
            rw [← List.length_map (f := fun e : FlowElement K => e.raw), hraws₁, ← hels, List.length_map]
          have hinputs : st₂.inputs.map CompiledInput.constants = cs := hinputs
          refine ⟨hraws₂, _, by rw [houtputs]; exact congrArg (· ++ _) hp.outputs, rfl, fun o ho => ?_⟩
          rw [List.mem_singleton.1 ho]
          exact ⟨by dsimp only at hfirst ⊢; omega, by rw [hinputs]; exact hcs⟩

theorem compileOutputs_upToDate {fuel n k : Nat} (hels : els.map (·.raw) = raws)
    (hraws : st.elements.map (·.raw) = raws)
    (he : compileOutputs env fuel (List.range' n k) st = .ok (.auSuccess, st')) :
    ∃ os, st'.outputs = st.outputs ++ os ∧ os.length = ((raws.drop n).take k).countP (·.isExport) ∧
      ∀ o ∈ os, UpToDate env.arith els fuel o := by
  induction k generalizing n st with
  | zero =>
    cases he
    exact ⟨[], by rw [List.append_nil], by simp, by simp⟩
  | succ k ih =>
    rw [List.range'_succ, compileOutputs] at he
    obtain ⟨⟨status, st₁⟩, h₁, he⟩ := Exec.bind_eq_ok.1 he
    dsimp only at he
    split at he
    · cases he
      contradiction
    · rename_i hstatus
      obtain rfl : status = .auSuccess := by simpa using hstatus
      obtain ⟨e, hel, -⟩ := Exec.bind_eq_ok.1 h₁
      rw [Exec.deref_eq_ok] at hel
      have hn : raws[n]? = some e.raw := by rw [← hraws, List.getElem?_map, hel]; rfl
      obtain ⟨hraws₁, os, hos, hlength, hall⟩ := compileOutput_upToDate hels hraws hel h₁
      obtain ⟨os', hos', hlength', hall'⟩ := ih hraws₁ he
      refine ⟨os ++ os', by rw [hos', hos, List.append_assoc], ?_,
        fun o ho => (List.mem_append.1 ho).elim (hall o) (hall' o)⟩
      obtain ⟨hlt, heq⟩ := List.getElem?_eq_some_iff.1 hn
      rw [List.drop_eq_getElem_cons hlt, List.take_succ_cons, List.countP_cons, List.length_append, hlength, hlength',
        heq]
      omega

theorem auCompileFlow_upToDate {fuel : Nat} (hels : els.map (·.raw) = st.elements.map (·.raw))
    (he : auCompileFlow env fuel st = .ok (.auSuccess, st')) :
    st'.outputs.length = els.countP (·.raw.isExport) ∧ ∀ o ∈ st'.outputs, UpToDate env.arith els fuel o := by
  unfold auCompileFlow at he
  rw [List.range_eq_range'] at he
  obtain ⟨os, hos, hlength, hall⟩ := compileOutputs_upToDate hels
    (show ({ st with outputs := [] } : Compiling K).elements.map (·.raw) = _ from rfl) he
  rw [show st'.outputs = os from hos]
  refine ⟨?_, hall⟩
  rw [hlength, List.drop_zero, ← List.length_map (f := fun e : FlowElement K => e.raw), List.take_length, ← hels,
    List.countP_map]
  rfl

/-! ### A second compilation is a first one -/

theorem storeConstants_constants {inputs inputs' : List (CompiledInput K)}
    (h : inputs.map CompiledInput.bare = inputs'.map CompiledInput.bare) :
    storeConstants inputs (inputs'.map CompiledInput.constants) = .ok inputs' := by
  induction inputs generalizing inputs' with
  | nil =>
    obtain rfl : inputs' = [] := by simpa using h.symm
    rfl
  | cons input inputs ih =>
    cases inputs' with
    | nil => cases h
    | cons input' inputs' =>
      rw [List.map_cons, List.map_cons, List.cons.injEq] at h
      rw [List.map_cons, storeConstants, ih h.2, Exec.ok_bind]
      obtain ⟨component, flowEl, m, a, numTracks, inTrack, outTrack⟩ := input
      obtain ⟨component', flowEl', m', a', numTracks', inTrack', outTrack'⟩ := input'
      simp only [CompiledInput.bare, CompiledInput.mk.injEq, true_and] at h
      obtain ⟨⟨rfl, rfl, rfl, rfl, rfl⟩, -⟩ := h
      rfl

theorem recompileOutputs_upToDate {arith : Arith K} {fuel : Nat} {outputs outputs' : List (CompiledOutput K)}
    (hbare : outputs.map CompiledOutput.bare = outputs'.map CompiledOutput.bare)
    (h : ∀ o ∈ outputs', UpToDate arith els fuel o) :
    recompileOutputs arith els fuel outputs'.length outputs = .ok (.auSuccess, outputs') := by
  induction outputs' generalizing outputs with
  | nil =>
    obtain rfl : outputs = [] := by simpa using hbare
    rfl
  | cons o' outputs' ih =>
    cases outputs with
    | nil => cases hbare
    | cons o outputs =>
      rw [List.map_cons, List.map_cons, List.cons.injEq] at hbare
      obtain ⟨ho, hrest⟩ := hbare
      obtain ⟨hle, hconstants⟩ := h o' List.mem_cons_self
      obtain ⟨component, flowEl, firstInput, inputs⟩ := o
      obtain ⟨component', flowEl', firstInput', inputs'⟩ := o'
      simp only [CompiledOutput.bare, CompiledOutput.mk.injEq] at ho
      obtain ⟨rfl, rfl, rfl, hinputs⟩ := ho
      rw [List.length_cons, recompileOutputs]
      dsimp only at hle hconstants ⊢
      rw [if_neg (by omega), hconstants, Exec.ok_bind]
      dsimp only
      rw [storeConstants_constants hinputs, Exec.ok_bind, if_neg (by decide),
        ih hrest fun o ho => h o (List.mem_cons_of_mem _ ho), Exec.ok_bind]

end

/-- The elements of a compilation with other parameters. -/
def Compiling.withRaws (st : Compiling K) (raws : List (AuElement K)) : Compiling K :=
  { st with elements := List.zipWith (fun e raw => { e with raw }) st.elements raws }

section
variable {env : CompileEnv K} {st st' : Compiling K} {raws : List (AuElement K)} {fuel : Nat}

theorem zipWith_raw {els : List (FlowElement K)} {raws : List (AuElement K)}
    (h : raws.map AuElement.bare = els.map (·.raw.bare)) :
    (List.zipWith (fun e raw => { e with raw }) els raws : List (FlowElement K)).map (·.raw) = raws ∧
      (List.zipWith (fun e raw => { e with raw }) els raws : List (FlowElement K)).map FlowElement.bare =
        els.map FlowElement.bare := by
  induction els generalizing raws with
  | nil =>
    obtain rfl : raws = [] := by simpa using h
    exact ⟨rfl, rfl⟩
  | cons e els ih =>
    cases raws with
    | nil => cases h
    | cons raw raws =>
      rw [List.map_cons, List.map_cons, List.cons.injEq] at h
      obtain ⟨hraws, hbare⟩ := ih h.2
      rw [List.zipWith_cons_cons, List.map_cons, List.map_cons, List.map_cons, hraws, hbare]
      refine ⟨rfl, congrArg (· :: _) ?_⟩
      unfold FlowElement.bare
      rw [← h.1]

/-- A flow whose parameters were changed compiles to what its elements compile to afresh. -/
theorem recompileFlow_fresh (he : auCompileFlow env fuel st = .ok (.auSuccess, st'))
    (hraws : raws.map AuElement.bare = st.elements.map (·.raw.bare)) :
    ∃ st'', auCompileFlow env fuel (st.withRaws raws) = .ok (.auSuccess, st'') ∧
      st''.outputs.map CompiledOutput.bare = st'.outputs.map CompiledOutput.bare ∧
      ∀ f : Flow K, f.els.map (·.raw) = raws →
        f.compiled.outputs.map CompiledOutput.bare = st'.outputs.map CompiledOutput.bare →
        recompileFlow env.arith fuel f = .ok (.auSuccess, { f with compiled := ⟨st''.outputs⟩ }) := by
  obtain ⟨hraw, hbare⟩ := zipWith_raw hraws
  have hsame : (st.withRaws raws).bare = st.bare := by
    unfold Compiling.withRaws Compiling.bare
    dsimp only
    rw [hbare]
  have hfresh := auCompileFlow_bare env (st.withRaws raws) fuel
  rw [hsame, auCompileFlow_bare, he] at hfresh
  cases hr : auCompileFlow env fuel (st.withRaws raws) with
  | error stop =>
    rw [hr] at hfresh
    cases hfresh
  | ok r =>
    obtain ⟨status, st''⟩ := r
    rw [hr] at hfresh
    simp only [Except.map, bareResult, Except.ok.injEq, Prod.mk.injEq] at hfresh
    obtain ⟨rfl, hst''⟩ := hfresh
    have houtputs : st'.outputs.map CompiledOutput.bare = st''.outputs.map CompiledOutput.bare :=
      congrArg Compiling.outputs hst''
    refine ⟨st'', rfl, houtputs.symm, fun f hels hout => ?_⟩
    obtain ⟨hlength, hall⟩ := auCompileFlow_upToDate (hels.trans hraw.symm) hr
    unfold recompileFlow
    rw [← hlength, recompileOutputs_upToDate (hout.trans houtputs) hall, Exec.ok_bind]

end

/-! ### More fuel -/

section
variable {env : CompileEnv K} {st : Compiling K} {fuel fuel' : Nat} {r : AuStatus × Compiling K}

/-- A call that does what another one does where that returns. -/
def Extends (call call' : CompileCall K) : Prop :=
  ∀ st i inTracks firstOutTrack r, call st i inTracks firstOutTrack = .ok r → call' st i inTracks firstOutTrack = .ok r

theorem compileBundle_extends {call call' : CompileCall K} (h : Extends call call') {tracks : List AuInputTrack}
    {nextInput firstOutTrack : Nat} {inputTracks : List Nat}
    (he : compileBundle call tracks nextInput inputTracks firstOutTrack st = .ok r) :
    compileBundle call' tracks nextInput inputTracks firstOutTrack st = .ok r := by
  induction tracks generalizing nextInput inputTracks firstOutTrack st with
  | nil => exact h _ _ _ _ _ he
  | cons t tracks ih =>
    unfold compileBundle at he ⊢
    split at he
    · rename_i hnew
      rw [if_pos hnew]
      obtain ⟨r₁, h₁, he⟩ := Exec.bind_eq_ok.1 he
      refine Exec.bind_eq_ok.2 ⟨r₁, h _ _ _ _ _ h₁, ?_⟩
      dsimp only at he ⊢
      split at he
      · rename_i hne
        rw [if_pos hne]
        exact he
      · rename_i hsuccess
        rw [if_neg hsuccess]
        exact ih he
    · rename_i hsame
      rw [if_neg hsame]
      split at he
      · rename_i hroom
        rw [if_pos hroom]
        exact ih he
      · cases he

theorem compileSum_extends {call call' : CompileCall K} (h : Extends call call') {inTracks inputs : List Nat}
    {firstOutTrack : Nat} (he : compileSum call inTracks firstOutTrack inputs st = .ok r) :
    compileSum call' inTracks firstOutTrack inputs st = .ok r := by
  induction inputs generalizing st with
  | nil => exact he
  | cons input inputs ih =>
    obtain ⟨r₁, h₁, he⟩ := Exec.bind_eq_ok.1 he
    refine Exec.bind_eq_ok.2 ⟨r₁, h _ _ _ _ _ h₁, ?_⟩
    dsimp only at he ⊢
    split at he
    · rename_i hne
      rw [if_pos hne]
      exact he
    · rename_i hsuccess
      rw [if_neg hsuccess]
      exact ih he

theorem compileInputs_extends (hle : fuel ≤ fuel') (multiplyConstant addConstant : K) :
    Extends (compileInputs env fuel multiplyConstant addConstant)
      (compileInputs env fuel' multiplyConstant addConstant) := by
  induction fuel generalizing fuel' multiplyConstant addConstant with
  | zero =>
    intro st i inTracks firstOutTrack r he
    cases he
  | succ fuel ih =>
    intro st i inTracks firstOutTrack r he
    cases fuel' with
    | zero => omega
    | succ fuel' =>
      have ih (m a : K) : Extends (compileInputs env fuel m a) (compileInputs env fuel' m a) := ih (by omega) m a
      obtain ⟨e, hel, he⟩ := Exec.bind_eq_ok.1 he
      refine Exec.bind_eq_ok.2 ⟨e, hel, ?_⟩
      unfold compileElement at he ⊢
      cases hraw : e.raw with
      | bundle inputs =>
        rw [hraw] at he
        exact compileBundle_extends (ih _ _) he
      | multiplyConstant input constant =>
        rw [hraw] at he
        exact ih _ _ _ _ _ _ _ he
      | addConstant input constant =>
        rw [hraw] at he
        exact ih _ _ _ _ _ _ _ he
      | sum inputs =>
        rw [hraw] at he
        exact compileSum_extends (ih _ _) he
      | _ =>
        rw [hraw] at he
        exact he

theorem compileOutput_extends (hle : fuel ≤ fuel') {i : Nat} (he : compileOutput env fuel st i = .ok r) :
    compileOutput env fuel' st i = .ok r := by
  unfold compileOutput at he ⊢
  obtain ⟨e, hel, he⟩ := Exec.bind_eq_ok.1 he
  refine Exec.bind_eq_ok.2 ⟨e, hel, ?_⟩
  dsimp only at he ⊢
  split at he
  · rename_i hexport
    rw [if_pos hexport]
    exact he
  · rename_i hexport
    rw [if_neg hexport]
    split at he
    · rename_i hm
      rw [if_pos hm]
      exact he
    · rename_i hm
      rw [if_neg hm]
      split at he
      · rename_i hne
        rw [if_pos hne]
        exact he
      · rename_i hsuccess
        rw [if_neg hsuccess]
        obtain ⟨component, hcomponent, he⟩ := Exec.bind_eq_ok.1 he
        refine Exec.bind_eq_ok.2 ⟨component, hcomponent, ?_⟩
        split at he
        · rename_i hfirst
          rw [if_pos hfirst]
          exact he
        · rename_i hfirst
          rw [if_neg hfirst]
          obtain ⟨r₁, h₁, he⟩ := Exec.bind_eq_ok.1 he
          exact Exec.bind_eq_ok.2 ⟨r₁, compileInputs_extends hle _ _ _ _ _ _ _ h₁, he⟩

theorem auCompileFlow_extends (hle : fuel ≤ fuel') (he : auCompileFlow env fuel st = .ok r) :
    auCompileFlow env fuel' st = .ok r := by
  have key (is : List Nat) (st : Compiling K) (he : compileOutputs env fuel is st = .ok r) :
      compileOutputs env fuel' is st = .ok r := by
    induction is generalizing st with
    | nil => exact he
    | cons i is ih =>
      obtain ⟨r₁, h₁, he⟩ := Exec.bind_eq_ok.1 he
      refine Exec.bind_eq_ok.2 ⟨r₁, compileOutput_extends hle h₁, ?_⟩
      dsimp only at he ⊢
      split at he
      · rename_i hne
        rw [if_pos hne]
        exact he
      · rename_i hsuccess
        rw [if_neg hsuccess]
        exact ih _ he
  exact key _ _ he

end

/-! ### As long as a flow has its elements -/

theorem Heap.modify_congr {α : Type} {h : Heap α} {p : Nat} {a : α} {g g' : α → α} (ha : h.get p = some a)
    (hg : g a = g' a) : h.modify p g = h.modify p g' := by
  unfold Heap.modify
  simp only [ha, Option.map_some, hg]

/-- A property of a flow that only goes with the elements. -/
structure Lasting (P : ServerFlow → Prop) : Prop where
  fixed {f f'} : P f → f'.fixed = f.fixed → P f'
  compiled {f p} {s : Server} {env : Env} {fuel status st} : P f → f.compiled.outputs = [] →
    auCompileFlow (s.compileEnv env p f) fuel
      { elements := f.els, comps := s.comps, nextComponent := s.nextComponent, allocs := 0, outputs := []
        inputs := [] } = .ok (status, st) → f.elements.isSome → P (f.setCompiled st)
  recompiled {f f' fuel status} : P f → recompileFlow auFixedPoint fuel f = .ok (status, f') →
    P { f with compiled := f'.compiled }
  parameters {f i el v} : P f → f.els[i]? = some el →
    P (f.setElement i { el with raw := el.raw.setParameters v, parmsChanged := true })
  noted {f} (trivial needsRecompile count) : P f → P { f with trivial, needsRecompile, count }

/-- The flow at `p` has the property if it has that block of elements. -/
structure Lasts (P : ServerFlow → Prop) (p : FlowPtr) (block : Nat) (h : List ComponentPtr) (s : Server) : Prop where
  accounts : Accounts h s
  older : block < s.nextBlock
  flow : ∀ f, s.flows.get p = some f → f.elements.isSome → f.block = block → P f

namespace Lasts
variable {P : ServerFlow → Prop} {p : FlowPtr} {block : Nat} {h h' : List ComponentPtr} {s s' : Server}

theorem sameFlows (hs : Lasts P p block h s) (haccounts : Accounts h' s') (hflows : s'.flows = s.flows)
    (hblock : s'.nextBlock = s.nextBlock) : Lasts P p block h' s' :=
  ⟨haccounts, by rw [hblock]; exact hs.older, by rw [hflows]; exact hs.flow⟩

/-- One flow changes. -/
theorem modified {p' : FlowPtr} {g : ServerFlow → ServerFlow} (hs : Lasts P p block h s) (haccounts : Accounts h' s')
    (hflows : s'.flows = s.flows.modify p' g) (hblock : s.nextBlock ≤ s'.nextBlock)
    (hg : ∀ f, s.flows.get p' = some f → (g f).elements.isSome → (g f).block = block →
      f.elements.isSome ∧ f.block = block ∧ (P f → P (g f))) : Lasts P p block h' s' where
  accounts := haccounts
  older := Nat.lt_of_lt_of_le hs.older hblock
  flow f' hf' hsome' hblock' := by
    rw [hflows, Heap.get_modify] at hf'
    split at hf'
    · rename_i hp
      subst hp
      obtain ⟨f, hf, rfl⟩ := Option.map_eq_some_iff.1 hf'
      obtain ⟨hsome, hfblock, hP⟩ := hg f hf hsome' hblock'
      exact hP (hs.flow f hf hsome hfblock)
    · exact hs.flow f' hf' hsome' hblock'

end Lasts

theorem Lasting.rule {P : ServerFlow → Prop} (hP : Lasting P) (p : FlowPtr) (block : Nat) : Rule (Lasts P p block) where
  idle hs hf hnone := accounts_rule.idle hs.accounts hf hnone
  static {h s s'} hs hst := by
    refine ⟨accounts_rule.static hs.accounts hst, Nat.lt_of_lt_of_eq hs.older hst.nextBlock.symm,
      fun f' hf' hsome' hblock' => ?_⟩
    have hfixed := hst.flows p
    rw [hf'] at hfixed
    obtain ⟨f, hf, heq⟩ := Option.map_eq_some_iff.1 hfixed.symm
    refine hP.fixed (hs.flow f hf ?_ ?_) heq.symm
    · rw [← Flow.fixed_isSome heq.symm]
      exact hsome'
    · rw [← Flow.fixed_block heq.symm]
      exact hblock'
  unlinked {h s s'} hs hlinks := hs.sameFlows (accounts_rule.unlinked hs.accounts hlinks) (congrArg (·.flows) hlinks)
    (congrArg (·.nextBlock) hlinks)
  connected hs hnone := hs.sameFlows (accounts_rule.connected hs.accounts hnone) rfl rfl
  created {h s id links} hs := by
    refine ⟨accounts_rule.created hs.accounts, hs.older, fun f' hf' hsome' hblock' => ?_⟩
    dsimp only at hf'
    rw [Heap.get_alloc] at hf'
    split at hf'
    · cases hf'
      cases hsome'
    · exact hs.flow f' hf' hsome' hblock'
  grown hs hc := hs.sameFlows (accounts_rule.grown hs.accounts hc) rfl rfl
  added hs hc := hs.sameFlows (accounts_rule.added hs.accounts hc) rfl rfl
  taken hs := hs.sameFlows (accounts_rule.taken hs.accounts) rfl rfl
  closed hs := hs.sameFlows (accounts_rule.closed hs.accounts) rfl rfl
  givenBack hs he :=
    have hrest := (auFreeComponent_cases he).1
    hs.sameFlows (accounts_rule.givenBack hs.accounts he) (congrArg (·.flows) hrest) (congrArg (·.nextBlock) hrest)
  emptied {h s s' p' f} hs hf he := by
    have hrest := (freeCompiledFlow_survives he).2
    have hflows : s'.flows.modify p' Flow.dropElements = s.flows.modify p' Flow.dropElements := by
      rw [show s'.flows = s.flows from congrArg (·.flows) hrest]
    exact hs.modified (accounts_rule.emptied hs.accounts hf he) hflows
      (Nat.le_of_eq (congrArg (·.nextBlock) hrest).symm) fun f₀ _ hsome _ => by cases hsome
  freed {h s p' f} hs hf hnone := by
    refine ⟨accounts_rule.freed hs.accounts hf hnone, hs.older, fun f' hf' hsome' hblock' => ?_⟩
    dsimp only at hf'
    rw [Heap.get_free] at hf'
    split at hf'
    · cases hf'
    · exact hs.flow f' hf' hsome' hblock'
  installed {h s p' f clocked els raws} hs hf hnone hfresh := by
    refine hs.modified (accounts_rule.installed hs.accounts hf hnone hfresh) rfl (Nat.le_succ _) fun f₀ _ _ hblock => ?_
    -- the block is a new one
    have hlt := hs.older
    have heq : s.nextBlock = block := hblock
    omega
  compiled {h env s s' p' f status} hs hf hnil he := by
    have haccounts := accounts_rule.compiled hs.accounts hf hnil he
    obtain ⟨f', hf', he⟩ := Exec.bind_eq_ok.1 he
    rw [Server.flow, Exec.deref_eq_ok] at hf'
    obtain rfl : f = f' := Option.some.inj (hf.symm.trans hf')
    obtain ⟨⟨status₁, st⟩, hst, he⟩ := Exec.bind_eq_ok.1 he
    cases he
    refine hs.modified haccounts rfl (Nat.le_refl _) fun f₀ hf₀ hsome' hblock' => ?_
    obtain rfl : f = f₀ := Option.some.inj (hf.symm.trans hf₀)
    have hsome : f.elements.isSome := by
      unfold Flow.setCompiled at hsome'
      simpa using hsome'
    exact ⟨hsome, hblock', fun hp => hP.compiled hp hnil hst hsome⟩
  recompiled {h s p' f f' fuel status} hs hf he := by
    refine hs.modified (accounts_rule.recompiled hs.accounts hf he) rfl (Nat.le_refl _) fun f₀ hf₀ hsome hblock => ?_
    obtain rfl : f = f₀ := Option.some.inj (hf.symm.trans hf₀)
    exact ⟨hsome, hblock, fun hp => hP.recompiled hp he⟩
  parameters {h s p' i el v} hs hel := by
    refine hs.modified (accounts_rule.parameters hs.accounts hel) rfl (Nat.le_refl _) fun f hf hsome' hblock' => ?_
    have hsome : f.elements.isSome := by
      unfold Flow.setElement at hsome'
      simpa using hsome'
    rw [Server.element, hf] at hel
    exact ⟨hsome, hblock', fun hp => hP.parameters hp hel⟩
  noted {h s p' g} hs hg := by
    refine hs.modified (accounts_rule.noted hs.accounts hg) rfl (Nat.le_refl _) fun f _ hsome hblock => ?_
    obtain ⟨trivial, needsRecompile, count, heq⟩ := hg f
    rw [heq] at hsome hblock ⊢
    exact ⟨hsome, hblock, hP.noted trivial needsRecompile count⟩
  bucket {h s env a} hs := hs.sameFlows (accounts_rule.bucket hs.accounts) rfl rfl
  contents {h s q c c'} hs hc hstill := hs.sameFlows (accounts_rule.contents hs.accounts hc hstill) rfl rfl

/-- What a flow was compiled to is still there, but for the parameters. -/
def Shaped (f₁ f : ServerFlow) : Prop :=
  f.compiled.outputs.map CompiledOutput.bare = f₁.compiled.outputs.map CompiledOutput.bare ∧
    f.els.map (·.raw.bare) = f₁.els.map (·.raw.bare)

theorem recompileOutputs_bare {arith : Arith K} {els : List (FlowElement K)} {fuel n : Nat} {status : AuStatus}
    {outputs outputs' : List (CompiledOutput K)}
    (he : recompileOutputs arith els fuel n outputs = .ok (status, outputs')) :
    outputs'.map CompiledOutput.bare = outputs.map CompiledOutput.bare := by
  induction n generalizing outputs outputs' status with
  | zero =>
    cases he
    rfl
  | succ n ih =>
    cases outputs with
    | nil => cases he
    | cons output outputs =>
      unfold recompileOutputs at he
      split at he
      · cases he
        rfl
      · obtain ⟨⟨status₁, constants⟩, -, he⟩ := Exec.bind_eq_ok.1 he
        obtain ⟨inputs, hinputs, he⟩ := Exec.bind_eq_ok.1 he
        have hinputs := storeConstants_map (g := CompiledInput.bare) (fun _ _ _ => rfl) hinputs
        have houtput : CompiledOutput.bare { output with inputs } = output.bare := by
          rw [CompiledOutput.bare, CompiledOutput.bare, hinputs]
        dsimp only at he
        split at he
        · cases he
          rw [List.map_cons, List.map_cons, houtput]
        · obtain ⟨⟨status₂, outputs₂⟩, h₂, he⟩ := Exec.bind_eq_ok.1 he
          cases he
          rw [List.map_cons, List.map_cons, houtput, ih h₂]

theorem Flow.els_setElement (f : Flow K) (i : Nat) (e : FlowElement K) : (f.setElement i e).els = f.els.set i e := by
  unfold Flow.els Flow.setElement
  cases f.elements <;> rfl

theorem shaped_lasting {f₁ : ServerFlow} (hidle : f₁.compiled.outputs = [] → ∀ e ∈ f₁.els, e.raw.isExport = false) :
    Lasting (Shaped f₁) where
  fixed {f f'} hf hfixed := by
    have hraws := congrArg (List.map (·.raw.bare)) (Flow.fixed_els hfixed)
    rw [List.map_map, List.map_map] at hraws
    exact ⟨by rw [Flow.fixed_compiled hfixed]; exact hf.1, hraws.trans hf.2⟩
  compiled {f p s env fuel status st} hf hnil hst hsome := by
    have hnil₁ : f₁.compiled.outputs = [] := by
      have := hf.1
      rw [hnil] at this
      simpa using this.symm
    have hexports (e : ServerElement) (he : e ∈ f.els) : e.raw.isExport = false := by
      have hmem : e.raw.bare ∈ f₁.els.map (·.raw.bare) := by
        rw [← hf.2]
        exact List.mem_map_of_mem he
      obtain ⟨e₁, he₁, heq⟩ := List.mem_map.1 hmem
      rw [← e.raw.isExport_bare, ← heq, e₁.raw.isExport_bare]
      exact hidle hnil₁ e₁ he₁
    obtain rfl := compileOutputs_idle hexports hst
    refine ⟨?_, ?_⟩
    · rw [← hf.1, hnil]
      rfl
    · rw [Flow.els_setCompiled hsome]
      exact hf.2
  recompiled {f f' fuel status} hf he := by
    obtain ⟨⟨status₁, outputs⟩, houtputs, he⟩ := Exec.bind_eq_ok.1 he
    cases he
    exact ⟨(recompileOutputs_bare houtputs).trans hf.1, hf.2⟩
  parameters {f i el v} hf hel := by
    refine ⟨hf.1, Eq.trans ?_ hf.2⟩
    rw [Flow.els_setElement]
    exact map_set_self hel (AuElement.bare_setParameters v el.raw)
  noted _ _ _ hf := hf

section
variable {env : Env} {s s' : Server} {p : FlowPtr} {f f' : ServerFlow}

/-- What a flow was compiled from when its elements were set. -/
structure CompiledFrom (env : Env) (r : SetElementsRequest) (s : Server) (p : FlowPtr) (f' : ServerFlow)
    (st st' : Compiling AuFixedPoint) : Prop where
  elements : st.elements.map (·.raw) = r.elements
  compiled : auCompileFlow (s.compileEnv env p f') env.fuel st = .ok (.auSuccess, st')
  outputs : f'.compiled.outputs = st'.outputs
  raws : f'.els.map (·.raw) = r.elements

theorem procAuSetElements_compiled {r : SetElementsRequest} (he : procAuSetElements env r s = .ok (.auSuccess, s')) :
    ∃ p f' st st', lookupIDByType s.clientTable r.flow .auFlowType = some p ∧ s'.flows.get p = some f' ∧
      CompiledFrom env r s p f' st st' := by
  unfold procAuSetElements at he
  split at he
  · cases he
  · rename_i p hp
    split at he
    · cases he
    · split at he
      · cases he
      · obtain ⟨f, hf, he⟩ := Exec.bind_eq_ok.1 he
        rw [Server.flow, Exec.deref_eq_ok] at hf
        obtain ⟨s₁, h₁, he⟩ := Exec.bind_eq_ok.1 he
        -- the old elements are gone
        have hempty : (∃ f₁, s₁.flows.get p = some f₁) ∧ s₁.clientTable = s.clientTable := by
          split at h₁
          · obtain ⟨f₁, hf₁, -⟩ := auFreeFlowElements_get h₁
            exact ⟨⟨f₁, hf₁⟩, (auFreeFlowElements_survives h₁).2⟩
          · cases h₁
            exact ⟨⟨f, hf⟩, rfl⟩
        obtain ⟨⟨f₁, hf₁⟩, htable₁⟩ := hempty
        unfold installElements at he
        split at he
        · cases he
        · dsimp only at he
          split at he
          · rename_i status hstatus
            obtain ⟨t, -, he⟩ := Exec.bind_eq_ok.1 he
            cases he
            exact absurd rfl (initElements_error hstatus)
          · rename_i els hels
            have hfresh := Rule.initElements_fresh hels
            obtain ⟨s₂, h₂, he₂⟩ := Exec.bind_eq_ok.1 he
            obtain ⟨⟨status, s₃⟩, h₃, he₃⟩ := Exec.bind_eq_ok.1 he₂
            obtain ⟨f₂, -, h₂⟩ := Exec.bind_eq_ok.1 h₂
            obtain ⟨links, -, h₂⟩ := Exec.bind_eq_ok.1 h₂
            cases h₂
            obtain ⟨-, htable₂, hflows₂⟩ := setList_rest (s := { s₁ with
              flows := s₁.flows.modify p (·.install r.clocked s₁.nextBlock (r.elements.map (·.varLen)).sum els)
              nextBlock := s₁.nextBlock + 1 }) f₂.clocked links
            obtain ⟨f₃, hf₃, h₃⟩ := Exec.bind_eq_ok.1 h₃
            rw [Server.flow, Exec.deref_eq_ok, hflows₂, Heap.get_modify_self, hf₁] at hf₃
            obtain rfl := Option.some.inj hf₃
            obtain ⟨⟨status₁, st⟩, hst, h₃⟩ := Exec.bind_eq_ok.1 h₃
            cases h₃
            dsimp only at he₃
            split at he₃
            · rename_i hstatus
              obtain rfl : status = .auSuccess := hstatus
              simp only [Except.ok.injEq, Prod.mk.injEq, true_and] at he₃
              subst he₃
              let f' : ServerFlow := { Flow.setCompiled
                (f₁.install r.clocked s₁.nextBlock (r.elements.map (·.varLen)).sum els) st with
                trivial := trivialElements r.elements, count := 0 }
              have henv : s.compileEnv env p f' = Server.compileEnv env (Server.setList { s₁ with
                  flows := s₁.flows.modify p (·.install r.clocked s₁.nextBlock (r.elements.map (·.varLen)).sum els)
                  nextBlock := s₁.nextBlock + 1 } f₂.clocked links) p
                  (f₁.install r.clocked s₁.nextBlock (r.elements.map (·.varLen)).sum els) := by
                unfold Server.compileEnv
                rw [htable₂, htable₁]
                rfl
              refine ⟨p, f', _, st, hp, ?_, ⟨hfresh.raws, by rw [henv]; exact hst, rfl,
                (auCompileFlow_raws hst).trans hfresh.raws⟩⟩
              rw [Heap.get_modify_self, Heap.get_modify_self, hflows₂, Heap.get_modify_self, hf₁]
              rfl
            · rename_i hne
              obtain ⟨t, -, he₄⟩ := Exec.bind_eq_ok.1 he₃
              cases he₄
              exact absurd rfl hne

theorem compileOutputs_idle_ok (env : CompileEnv K) (fuel : Nat) (is : List Nat) (st : Compiling K)
    (h : ∀ e ∈ st.elements, e.raw.isExport = false) (his : ∀ i ∈ is, i < st.elements.length) :
    compileOutputs env fuel is st = .ok (.auSuccess, st) := by
  induction is with
  | nil => rfl
  | cons i is ih =>
    have hi : i < st.elements.length := his i List.mem_cons_self
    have hel : st.elements[i]? = some st.elements[i] := List.getElem?_eq_getElem hi
    rw [compileOutputs, compileOutput, hel, Exec.deref_some, Exec.ok_bind,
      if_pos (by rw [h _ (List.getElem_mem hi)]; decide), Exec.ok_bind]
    exact ih fun i hi => his i (List.mem_cons_of_mem _ hi)

/-- What `AuCompileFlow` makes of the server when a flow is compiled once more. -/
theorem compileFlowAgain_eq {outputs : List (CompiledOutput AuFixedPoint)} (hf : s.flows.get p = some f)
    (hsome : f.elements.isSome) (hidle : f.compiled.outputs = [] → ∀ e ∈ f.els, e.raw.isExport = false)
    (h : recompileFlow auFixedPoint env.fuel f = .ok (.auSuccess, { f with compiled := ⟨outputs⟩ })) :
    compileFlowAgain env p s =
      .ok (.auSuccess, { s with flows := s.flows.modify p fun f => { f with compiled := ⟨outputs⟩ } }) := by
  have hflow : s.flow p = .ok f := by
    rw [Server.flow, hf]
    rfl
  unfold compileFlowAgain
  rw [hflow, Exec.ok_bind]
  split
  · rename_i hnil
    -- without exports there is nothing to do, the first time and again
    have hexports := hidle hnil
    have hcount : f.els.countP (·.raw.isExport) = 0 := by
      rw [List.countP_eq_zero]
      intro e he
      rw [hexports e he]
      decide
    obtain rfl : outputs = [] := by
      unfold recompileFlow at h
      rw [hcount, hnil, recompileOutputs, Exec.ok_bind] at h
      simp only [Except.ok.injEq, Prod.mk.injEq, true_and] at h
      exact (congrArg (fun f : ServerFlow => f.compiled.outputs) h).symm
    have hcompile := compileOutputs_idle_ok (s.compileEnv env p f) env.fuel (List.range f.els.length)
      { elements := f.els, comps := s.comps, nextComponent := s.nextComponent, allocs := 0, outputs := []
        inputs := [] }
      hexports fun i hi => List.mem_range.1 hi
    unfold compileFlow auCompileFlow
    rw [hflow, Exec.ok_bind, hcompile, Exec.ok_bind]
    have hmodify : s.flows.modify p (·.setCompiled { elements := f.els, comps := s.comps
                                                     nextComponent := s.nextComponent, allocs := 0, outputs := []
                                                     inputs := [] }) =
        s.flows.modify p fun f => { f with compiled := ⟨[]⟩ } := by
      refine Heap.modify_congr hf ?_
      obtain ⟨els, hels⟩ := Option.isSome_iff_exists.1 hsome
      unfold Flow.setCompiled Flow.els
      rw [hels]
      rfl
    dsimp only
    rw [hmodify, List.map_nil, List.append_nil]
  · rw [h, Exec.ok_bind]

end

/-- In every run, as long as a flow has the elements of a `SetElements` that succeeded, `AuCompileFlow` run once more
succeeds and gives the outputs that the elements as they are now would have been compiled to then. -/
theorem setElements_recompiles {env : Env} {r : SetElementsRequest} {s₀ s s' : Server} (hs₀ : Started s₀)
    (hreach : Reach step (fun _ _ => True) s₀ s) (he : procAuSetElements env r s = .ok (.auSuccess, s')) :
    ∃ p f' st st', lookupIDByType s.clientTable r.flow .auFlowType = some p ∧ s'.flows.get p = some f' ∧
      CompiledFrom env r s p f' st st' ∧
      ∀ env' s'' f'', env.fuel ≤ env'.fuel → Reach step (fun _ _ => True) s' s'' → s''.flows.get p = some f'' →
        f''.elements.isSome → f''.block = f'.block →
          ∃ st'', auCompileFlow (s.compileEnv env p f') env'.fuel (st.withRaws (f''.els.map (·.raw))) =
              .ok (.auSuccess, st'') ∧
            compileFlowAgain env' p s'' = .ok (.auSuccess,
              { s'' with flows := s''.flows.modify p fun f => { f with compiled := ⟨st''.outputs⟩ } }) := by
  obtain ⟨l, hs⟩ : ∃ l, Accounts ([] ++ l) s :=
    accounts_rule.leaky.reach (Rule.leak Accounts.perm) ⟨[], hs₀.accounts⟩ hreach
  obtain ⟨p, f', st, st', hp, hf', hfrom⟩ := procAuSetElements_compiled he
  obtain ⟨p₁, f₀, f₁, hset⟩ := procAuSetElements_success hs he
  obtain rfl : p = p₁ := Option.some.inj (hp.symm.trans hset.lookup)
  obtain rfl : f' = f₁ := Option.some.inj (hf'.symm.trans hset.after)
  refine ⟨p, f', st, st', hp, hf', hfrom, fun env' s'' f'' hfuel hreach' hf'' hsome hblock => ?_⟩
  have hstart : Lasts (Shaped f') p f'.block ([] ++ l) s' :=
    { accounts := accounts_rule.keeps_setElements hs he
      older := hset.block
      flow := fun f hf _ _ => by
        obtain rfl : f' = f := Option.some.inj (hf'.symm.trans hf)
        exact ⟨rfl, rfl⟩ }
  obtain ⟨l', hlasts⟩ : ∃ l', Lasts (Shaped f') p f'.block ([] ++ l') s'' :=
    ((shaped_lasting hset.idle).rule p f'.block).leaky.reach
      (Rule.leak fun hperm h => ⟨h.accounts.perm hperm, h.older, h.flow⟩) ⟨l, hstart⟩ hreach'
  obtain ⟨houtputs, hraws⟩ := hlasts.flow f'' hf'' hsome hblock
  have hbare : (f''.els.map (·.raw)).map AuElement.bare = st.elements.map (·.raw.bare) := by
    have h₁ := congrArg (List.map AuElement.bare) (hfrom.raws.trans hfrom.elements.symm)
    rw [List.map_map, List.map_map] at h₁
    rw [List.map_map]
    exact hraws.trans h₁
  obtain ⟨st'', hst'', hbare'', hagain⟩ := recompileFlow_fresh (auCompileFlow_extends hfuel hfrom.compiled) hbare
  refine ⟨st'', hst'', compileFlowAgain_eq hf'' hsome (fun hnil e he => ?_) (hagain f'' rfl ?_)⟩
  · have hnil' : f'.compiled.outputs = [] := by
      rw [hnil] at houtputs
      simpa using houtputs.symm
    have hmem : e.raw.bare ∈ f'.els.map (·.raw.bare) := by
      rw [← hraws]
      exact List.mem_map_of_mem he
    obtain ⟨e', he', heq⟩ := List.mem_map.1 hmem
    rw [← e.raw.isExport_bare, ← heq, e'.raw.isExport_bare]
    exact hset.idle hnil' e' he'
  · rw [houtputs, hfrom.outputs]

/-- A mono port into another one, multiplied by a constant. -/
def multiplied (constant : AuFixedPoint) : List (AuElement AuFixedPoint) :=
  [.importClient ⟨8000, 1, 1, false, 8, 2, []⟩, .multiplyConstant 0 constant,
    .exportClient ⟨8000, 1, 1, 1, false, 8, 6, []⟩]

def multipliedRequest : SetElementsRequest where
  client := 1
  flow := 2 ^ 22
  clocked := true
  len := 72
  elements := multiplied 0x10000

/-- Half as loud from now on. -/
def halve : List AuElementParameters := [⟨2 ^ 22, 1, fun _ => 0x8000⟩]

theorem halved_recompiles : ∃ (s : Server) (p : FlowPtr) (f : ServerFlow), s.flows.get p = some f ∧
    f.els.map (·.raw) = multiplied 0x8000 ∧ ∃ outputs, compileFlowAgain straightEnv p s = .ok (.auSuccess,
      { s with flows := s.flows.modify p fun f => { f with compiled := ⟨outputs⟩ } }) := by
  have hrun : (do
      let s ← List.foldlM step {} straightRun
      let x ← procAuSetElements straightEnv multipliedRequest s
      let p ← Exec.deref (lookupIDByType s.clientTable (2 ^ 22) .auFlowType)
      let f' ← x.2.flow p
      let t ← List.foldlM step x.2 [(straightEnv, Input.request (.setElementParameters halve))]
      let f ← t.flow p
      .ok (x.1, f.els.map FlowElement.raw, f.elements.isSome, f.block == f'.block)) =
        .ok (AuStatus.auSuccess, multiplied 0x8000, true, true) := rfl
  obtain ⟨s, hs, hrun⟩ := Exec.bind_eq_ok.1 hrun
  obtain ⟨⟨status, s'⟩, he, hrun⟩ := Exec.bind_eq_ok.1 hrun
  obtain ⟨p, hp, hrun⟩ := Exec.bind_eq_ok.1 hrun
  obtain ⟨f', hf', hrun⟩ := Exec.bind_eq_ok.1 hrun
  obtain ⟨t, ht, hrun⟩ := Exec.bind_eq_ok.1 hrun
  obtain ⟨f, hf, hrun⟩ := Exec.bind_eq_ok.1 hrun
  simp only [Except.ok.injEq, Prod.mk.injEq, beq_iff_eq] at hrun
  obtain ⟨rfl, hraws, hsome, hblock⟩ := hrun
  rw [Exec.deref_eq_ok] at hp
  rw [Server.flow, Exec.deref_eq_ok] at hf hf'
  obtain ⟨q, f₁, st, st', hq, hf₁, -, hagain⟩ := setElements_recompiles started_empty (.run hs) he
  obtain rfl : p = q := Option.some.inj (hp.symm.trans hq)
  obtain rfl : f' = f₁ := Option.some.inj (hf'.symm.trans hf₁)
  obtain ⟨st'', -, h⟩ := hagain straightEnv t f (Nat.le_refl _) (.run ht) hf hsome hblock
  exact ⟨t, p, f, hf, hraws, st''.outputs, h⟩

end Nas
