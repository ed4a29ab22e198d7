import Nas.Port

/-!
# Compiling a flow

`AuCompileFlow` makes an output for each export element of a flow and follows its inputs with
`compileInputs`, which collects the constants and the selection of tracks on its way down and makes
an input of each import element it gets to (`auutil.c`). This is the compilation `ProcAuSetElements`
asks for, with `recompile` off.

`compileInputs` follows whatever indices the client sent, so its model is bounded by `fuel`; an index
outside the element array and a track behind the end of `inputTracks` are faults.
-/

namespace Nas
variable {K : Type}

/-- What a compilation depends on: the constants' arithmetic, which allocation succeeds,
`LookupIDByType` for components, and the flow. -/
structure CompileEnv (K : Type) where
  arith : Arith K
  mem : Nat → Bool
  lookup : AuID → Option ComponentPtr
  auMinibufSamples : Nat
  flow : FlowPtr
  block : Nat

/-- What it changes: the elements, the components, and what is compiled so far. `inputs` are those of
the output at hand, `minibufs` the elements that got a minibuffer of their own. -/
structure Compiling (K : Type) where
  elements : List (FlowElement K)
  comps : ComponentPtr → Option Component
  nextComponent : ComponentPtr
  allocs : Nat
  outputs : List (CompiledOutput K)
  inputs : List (CompiledInput K)
  minibufs : List Nat := []

/-! ### Components -/

/-- `createMonitor` less the allocation. -/
def createMonitor (auMinibufSamples format numTracks : Nat) : Component :=
  { format, numTracks
    minibufSize := auNativeBytesPerSample * auMinibufSamples * numTracks % 2 ^ 32
    bytesPerSample := numTracks * sizeofFormat format }

/-- `createWaveForm` less the allocation. The samples of a wave form it does not know are left
uninitialized. -/
def createWaveForm (auMinibufSamples form : Nat) : Component :=
  { format := auNativeFormat, numTracks := 1
    minibufSize := auNativeBytesPerSample * auMinibufSamples % 2 ^ 32
    bytesPerSample := sizeofFormat auNativeFormat
    waveSamples := if form = 0 then 2 else if form = 1 then 256 else 0 }

/-- Where an element's component comes from: it is made for the element, with the size of the memory
it takes, or looked up, or `createPort` refuses its size. -/
inductive ComponentSource where
  | create (c : Component) (size : Nat)
  | refused
  | device (id : AuID)
  | bucket (id : AuID)

/-- The port of a client element. -/
def portSource (port : Option Component) (sampleRate : Nat) : ComponentSource :=
  match port with
  | none => .refused
  | some c => .create { c with sampleRate }
      (sizeofComponentRec + pad4u c.dataSize + pad4u c.minibufSize * 2)

def AuElement.source (auMinibufSamples : Nat) : AuElement K → ComponentSource
  | .importClient p => portSource (createPort auMinibufSamples p.format p.numTracks p.maxSamples
      p.lowWaterMark 0 p.discard) p.sampleRate
  | .importWaveForm p =>
    let c := createWaveForm auMinibufSamples p.waveForm
    .create { c with sampleRate := p.sampleRate } (sizeofComponentRec + pad4u c.minibufSize)
  | .importDevice p => .device p.device
  | .importBucket p => .bucket p.bucket
  | .exportClient p => portSource (createPort auMinibufSamples p.format p.numTracks p.maxSamples
      0 p.highWaterMark p.discard) p.sampleRate
  | .exportDevice p => .device p.device
  | .exportBucket p => .bucket p.bucket
  | .exportMonitor p =>
    let c := createMonitor auMinibufSamples p.format p.numTracks
    .create { c with sampleRate := p.eventRate } (sizeofComponentRec + pad4u c.minibufSize * 4)
  | _ => .refused

/-- The rate an element of a device or a bucket asks for. -/
def AuElement.sampleRate : AuElement K → Nat
  | .importDevice p => p.sampleRate
  | .importBucket p => p.sampleRate
  | .exportDevice p => p.sampleRate
  | _ => 0

/-- The first input of an export element. -/
def AuElement.firstInput : AuElement K → Nat
  | .exportClient p => p.input
  | .exportDevice p => p.input
  | .exportBucket p => p.input
  | .exportMonitor p => p.input
  | _ => 0

namespace Compiling
variable (env : CompileEnv K) (st : Compiling K)

/-- A change of a component that a pointer leads to. -/
def modifyComponent (p : ComponentPtr) (f : Component → Component) : Compiling K :=
  { st with comps := Function.update st.comps p ((st.comps p).map f) }

def setElement (i : Nat) (e : FlowElement K) : Compiling K :=
  { st with elements := st.elements.set i e }

/-- The size of the minibuffer an element of a bucket has for itself, twice as large for an export. -/
def bucketMinibuf (p : ComponentPtr) (e : AuElement K) : Nat :=
  ((st.comps p).map (·.minibufSize)).getD 0 * if e.isImport then 1 else 2

/-- Get element `i`, an import or an export, its component. -/
def attach (i : Nat) (e : FlowElement K) : AuStatus × Compiling K :=
  match e.raw.source env.auMinibufSamples with
  | .refused => (.auBadAlloc, st)
  | .create c size =>
    if ¬ aualloc (env.mem st.allocs) size then (.auBadAlloc, { st with allocs := st.allocs + 1 })
    else
      let st := st.setElement i { e with compiled := true, component := some st.nextComponent }
      (.auSuccess, { st with
        allocs := st.allocs + 1
        comps := Function.update st.comps st.nextComponent (some c)
        nextComponent := st.nextComponent + 1 })
  | .device id =>
    match env.lookup id with
    | none => (.auBadDevice, st)
    | some p =>
      let rate := e.raw.sampleRate
      -- an import sets the rate of the device, an export its own
      if e.raw.isImport then
        (.auSuccess, (st.setElement i { e with compiled := true, component := some p }).modifyComponent p
          fun c => { c with refCnt := c.refCnt + 1, sampleRate := rate })
      else
        (.auSuccess, (st.setElement i
            { e with compiled := true, component := some p, sampleRate := rate }).modifyComponent p
          fun c => { c with refCnt := c.refCnt + 1 })
  | .bucket id =>
    match env.lookup id with
    | none => (.auBadBucket, st)
    | some p =>
      let mem := env.mem st.allocs
      let st := { st with allocs := st.allocs + 1 }
      if ¬ aualloc mem (st.bucketMinibuf p e.raw) then (.auBadAlloc, st)
      else
        let st := { st with minibufs := st.minibufs ++ [i] }
        (.auSuccess, (st.setElement i
            { e with compiled := true, component := some p, sampleRate := e.raw.sampleRate }).modifyComponent p
          fun c => { c with refCnt := c.refCnt + 1 })

/-- Use the component of import `i`, which is compiled already. -/
def share (i : Nat) (e : FlowElement K) : Compiling K :=
  match e.component with
  | none => st
  | some p => (st.setElement i { e with refCnt := e.refCnt + 1 }).modifyComponent p
      fun c => { c with refCnt := c.refCnt + 1 }

end Compiling

/-! ### The walk -/

/-- The case of an import element in `compileInputs`. `numTracks` is the length of `inTracks`. -/
def compileImport (env : CompileEnv K) (st : Compiling K) (inputNum : Nat) (e : FlowElement K)
    (multiplyConstant addConstant : K) (inTracks : List Nat) (firstOutTrack : Nat) :
    Exec (AuStatus × Compiling K) := do
  let mem := env.mem st.allocs
  let st := { st with allocs := st.allocs + 1 }
  if ¬ mem then .ok (.auBadAlloc, st)
  else do
    let (status, st) := if e.compiled then (.auSuccess, st.share inputNum e) else st.attach env inputNum e
    if status ≠ .auSuccess then .ok (status, st)
    else do
      let component ← Exec.deref ((st.elements[inputNum]?).bind (·.component))
      .ok (.auSuccess, { st with inputs := st.inputs ++
        [{ component
           flowEl := ⟨env.flow, env.block, inputNum⟩
           multiplyConstant, addConstant
           numTracks := inTracks.length
           inTrack := inTracks
           outTrack := (List.range inTracks.length).map fun j => (firstOutTrack + j) % 2 ^ 8 }] })

/-- A call of `compileInputs` that differs from the current one in the element, the tracks and the
first output track. -/
abbrev CompileCall (K : Type) := Compiling K → Nat → List Nat → Nat → Exec (AuStatus × Compiling K)

/-- The loop over the tracks of a bundle, with the call behind the switch. It gathers the tracks of
one element in `inputTracks`, which has `auMaxTracks` places. -/
def compileBundle (call : CompileCall K) :
    List AuInputTrack → (nextInput : Nat) → (inputTracks : List Nat) → (firstOutTrack : Nat) →
    Compiling K → Exec (AuStatus × Compiling K)
  | [], nextInput, inputTracks, firstOutTrack, st => call st nextInput inputTracks firstOutTrack
  | t :: tracks, nextInput, inputTracks, firstOutTrack, st =>
    if inputTracks ≠ [] ∧ t.elementNum ≠ nextInput then do
      let (status, st) ← call st nextInput inputTracks firstOutTrack
      if status ≠ .auSuccess then .ok (status, st)
      else
        let firstOutTrack := (firstOutTrack + inputTracks.length) % 2 ^ 8
        compileBundle call tracks t.elementNum [t.track] firstOutTrack st
    else if inputTracks.length < auMaxTracks then
      compileBundle call tracks t.elementNum (inputTracks ++ [t.track]) firstOutTrack st
    else .error .fault

/-- The loop over the inputs of a sum. -/
def compileSum (call : CompileCall K) (inTracks : List Nat) (firstOutTrack : Nat) :
    List Nat → Compiling K → Exec (AuStatus × Compiling K)
  | [], st => .ok (.auSuccess, st)
  | input :: inputs, st => do
    let (status, st) ← call st input inTracks firstOutTrack
    if status ≠ .auSuccess then .ok (status, st)
    else compileSum call inTracks firstOutTrack inputs st

/-- `indicate that we've compiled this element` -/
def FlowElement.markCompiled (e : FlowElement K) : FlowElement K := { e with compiled := true }

/-- The switch of `compileInputs`, with the calls it makes. -/
def compileElement (env : CompileEnv K) (call : K → K → CompileCall K) (multiplyConstant addConstant : K)
    (st : Compiling K) (inputNum : Nat) (e : FlowElement K) (inTracks : List Nat) (firstOutTrack : Nat) :
    Exec (AuStatus × Compiling K) :=
  match e.raw with
  | .importBucket _ | .importDevice _ | .importClient _ | .importWaveForm _ =>
    compileImport env st inputNum e multiplyConstant addConstant inTracks firstOutTrack
  | .bundle inputs =>
    -- nextInput = -1
    compileBundle (call multiplyConstant addConstant) inputs (2 ^ 32 - 1) [] firstOutTrack st
  | .multiplyConstant input constant =>
    call (env.arith.multiply multiplyConstant constant) addConstant st input inTracks firstOutTrack
  | .addConstant input constant =>
    call multiplyConstant (env.arith.add addConstant constant) st input inTracks firstOutTrack
  | .sum inputs =>
    compileSum (call multiplyConstant addConstant) inTracks firstOutTrack inputs st
  | _ => .ok (.auBadElement, st)

def compileInputs (env : CompileEnv K) : (fuel : Nat) → (multiplyConstant addConstant : K) → CompileCall K
  | 0, _, _, _, _, _, _ => .error .fuel
  | fuel + 1, multiplyConstant, addConstant, st, inputNum, inTracks, firstOutTrack => do
    let e ← Exec.deref st.elements[inputNum]?
    -- XXX - need to check for loops
    compileElement env (compileInputs env fuel) multiplyConstant addConstant
      (st.setElement inputNum e.markCompiled) inputNum e inTracks firstOutTrack

/-- The body of the loop of `AuCompileFlow`, for element `i`. -/
def compileOutput (env : CompileEnv K) (fuel : Nat) (st : Compiling K) (i : Nat) :
    Exec (AuStatus × Compiling K) := do
  let e ← Exec.deref st.elements[i]?
  if ¬ e.raw.isExport then .ok (.auSuccess, st)
  else
    -- space for the new output
    let mem := env.mem st.allocs
    let st := { st with allocs := st.allocs + 1 }
    if ¬ mem then .ok (.auBadAlloc, st)
    else do
      let (status, st) := st.attach env i e
      if status ≠ .auSuccess then .ok (status, st)
      else do
        let component ← Exec.deref ((st.elements[i]?).bind (·.component))
        let output : CompiledOutput K :=
          { component, flowEl := ⟨env.flow, env.block, i⟩, firstInput := e.raw.firstInput, inputs := [] }
        if output.firstInput > st.elements.length then
          .ok (.auBadElement, { st with outputs := st.outputs ++ [output] })
        else do
          let r ← compileInputs env fuel env.arith.one env.arith.zero { st with inputs := [] }
            output.firstInput [] 0
          .ok (r.1, { r.2 with outputs := r.2.outputs ++ [{ output with inputs := r.2.inputs }] })

/-- The loop of `AuCompileFlow` over some of the elements. -/
def compileOutputs (env : CompileEnv K) (fuel : Nat) :
    List Nat → Compiling K → Exec (AuStatus × Compiling K)
  | [], st => .ok (.auSuccess, st)
  | i :: is, st => do
    let (status, st) ← compileOutput env fuel st i
    if status ≠ .auSuccess then .ok (status, st)
    else compileOutputs env fuel is st

def auCompileFlow (env : CompileEnv K) (fuel : Nat) (st : Compiling K) : Exec (AuStatus × Compiling K) :=
  compileOutputs env fuel (List.range st.elements.length) { st with outputs := [] }

end Nas
