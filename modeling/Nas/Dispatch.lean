import Nas.Recompile
import Nas.Server

/-!
# Requests and ticks

The handlers of `audispatch.c` that change the server's state, the freeing of flows, components and
clients, and `AuProcessFlow` as far as it changes states. `step` takes one request or one tick.

A tick takes as its input which elements the data path finds at their end (out of data, or full); the
data itself is the matter of the files on ports.
-/

namespace Nas

open AuStatus

/-! ### Giving back -/

namespace Server
variable (s : Server)

def liveComponent (p : ComponentPtr) : Bool := (s.comps p).isSome

/-- The list the flow is in by its kind. -/
def listHead (clocked : Bool) : Option FlowPtr := if clocked then s.auClockedFlows else s.auUnclockedFlows

def setList (clocked : Bool) (l : (FlowPtr → Links FlowPtr) × Option FlowPtr) : Server :=
  if clocked then { s with links := l.1, auClockedFlows := l.2 }
  else { s with links := l.1, auUnclockedFlows := l.2 }

def linkFlow (p : FlowPtr) : Exec Server := do
  let f ← s.flow p
  let l ← LinkedList.add s.flows.live s.links (s.listHead f.clocked) p
  .ok (s.setList f.clocked l)

def unlinkFlow (p : FlowPtr) : Exec Server := do
  let f ← s.flow p
  let l ← LinkedList.remove s.flows.live s.links (s.listHead f.clocked) p
  .ok (s.setList f.clocked l)

end Server

/-- Take a component out of the list of its kind. -/
def unlinkComponent (p : ComponentPtr) (c : Component) (s : Server) : Exec Server :=
  if c.kind = auComponentKindBucket then do
    let l ← LinkedList.remove s.liveComponent s.compLinks s.auBuckets p
    .ok { s with compLinks := l.1, auBuckets := l.2 }
  else if c.kind = auComponentKindPhysicalInput ∨ c.kind = auComponentKindPhysicalOutput ∨
      c.kind = auComponentKindPhysicalFeedback then do
    let l ← LinkedList.remove s.liveComponent s.compLinks s.auDevices p
    .ok { s with compLinks := l.1, auDevices := l.2 }
  else .ok s

def auFreeComponent (p : ComponentPtr) (s : Server) : Exec Server := do
  let c ← Exec.deref (s.comps p)
  if c.refCnt ≠ 0 then .ok (s.setComponent p { c with refCnt := c.refCnt - 1 })
  else do
    let s ← unlinkComponent p c s
    .ok { s with comps := Function.update s.comps p none }

/-- `freeCompiledFlow` for the compiled flow of a flow, whose components are given back. The minibuffers it frees are
`releasedMinibufs`. -/
def freeCompiledFlow (cmp : CompiledFlow AuFixedPoint) (s : Server) : Exec Server :=
  cmp.outputs.foldlM (fun s output => do
    let s ← output.inputs.foldlM (fun s input => auFreeComponent input.component s) s
    auFreeComponent output.component s) s

/-- The minibuffers a loop frees, and `refCnt` of the elements as it goes down. -/
structure Releasing where
  refCnt : Nat → Int
  freed : List ElementPtr

/-- What `freeCompiledFlow` does with the element of an input. The components do not matter for it. -/
def releaseInput (els : List ServerElement) (r : Releasing) (input : CompiledInput AuFixedPoint) : Releasing :=
  let i := input.flowEl.num
  { refCnt := Function.update r.refCnt i (r.refCnt i - 1)
    freed :=
      if r.refCnt i = 0 ∧ (els[i]?).any (·.raw.isImportBucket) then r.freed ++ [input.flowEl] else r.freed }

def releaseOutput (els : List ServerElement) (r : Releasing) (output : CompiledOutput AuFixedPoint) : Releasing :=
  let r := output.inputs.foldl (releaseInput els) r
  if (els[output.flowEl.num]?).any (·.raw.isExportBucket) then { r with freed := r.freed ++ [output.flowEl] } else r

/-- The minibuffers `freeCompiledFlow` frees. -/
def releasedMinibufs (els : List ServerElement) (cmp : CompiledFlow AuFixedPoint) : List ElementPtr :=
  (cmp.outputs.foldl (releaseOutput els) ⟨fun i => ((els[i]?).map (·.refCnt)).getD 0, []⟩).freed

def Flow.dropElements {K : Type} (f : Flow K) : Flow K := { f with elements := none, compiled := {} }

section Requests
variable (env : Env)

/-- `stop the flow if it's running` -/
def stopFlow (p : FlowPtr) (s : Server) : Exec Server := do
  let f ← s.flow p
  if f.state ≠ auStateStop then do
    let (_, s) ← changeElementState env true ⟨p, auElementAll, auStateStop, auReasonUser⟩ s
    .ok s
  else .ok s

def auFreeFlowElements (p : FlowPtr) (s : Server) : Exec Server := do
  let s ← stopFlow env p s
  let s ← s.unlinkFlow p
  let f ← s.flow p
  let s ← freeCompiledFlow f.compiled s
  .ok { s with
    flows := s.flows.modify p Flow.dropElements
    freedMinibufs := s.freedMinibufs ++ releasedMinibufs f.els f.compiled }

def freeFlow (p : FlowPtr) (s : Server) : Exec Server := do
  let f ← s.flow p
  let s ← (if f.elements.isSome then auFreeFlowElements env p s else .ok s : Exec Server)
  .ok { s with flows := s.flows.free p }

/-- The delete function of a resource's type. -/
def deleteResource (s : Server) (r : Resource) : Exec Server :=
  match r.type with
  | .auComponentType => auFreeComponent r.value s
  | .auFlowType => freeFlow env r.value s

/-- `FreeResource`: a fatal error when there is none. No delete function uses the table. -/
def freeResource (id : AuID) (s : Server) : Exec Server :=
  let (rs, clientTable) := takeResource s.clientTable id
  if rs = [] then .error .fault else rs.foldlM (deleteResource env) { s with clientTable }

def freeClientResources (client : Nat) (s : Server) : Exec Server :=
  let (rs, clientTable) := takeClientResources s.clientTable client
  rs.foldlM (deleteResource env) { s with clientTable }

/-- `AddResource`, with the memory for a larger table and for the record. -/
def addResource (tableMem mem : Bool) (r : Resource) (s : Server) : Exec (Bool × Server) :=
  match s.clientTable (clientId r.id) with
  | none => .ok (false, s)
  | some c =>
    let c := c.grow tableMem
    if ¬ mem then do
      let s ← deleteResource env { s with clientTable := Function.update s.clientTable (clientId r.id) (some c) } r
      .ok (false, s)
    else .ok (true, { s with clientTable := Function.update s.clientTable (clientId r.id) (some (c.add r)) })

/-! ### Flows -/

def procAuCreateFlow (id : AuID) (s : Server) : Exec (AuStatus × Server) :=
  if ¬ env.mem 0 then .ok (auBadAlloc, s)
  else do
    let p := s.flows.next
    let s := { s with
      flows := s.flows.alloc { flowId := id }
      links := Function.update s.links p {} }
    let (added, s) ← addResource env (env.mem 1) (env.mem 2) ⟨id, .auFlowType, p⟩ s
    .ok (if added then auSuccess else auBadAlloc, s)

def procAuDestroyFlow (id : AuID) (s : Server) : Exec (AuStatus × Server) :=
  match lookupIDByType s.clientTable id .auFlowType with
  | none => .ok (auBadFlow, s)
  | some _ => do
    let s ← freeResource env id s
    .ok (auSuccess, s)

/-! ### SetElements -/

structure SetElementsRequest where
  client : Nat
  flow : AuID
  clocked : Bool
  /-- The number of bytes behind the request's fixed part. -/
  len : Nat
  elements : List (AuElement AuFixedPoint)

def sizeofAuElement : Nat := 24
def sizeofAuElementAction : Nat := 12
def sizeofAuInputTrack : Nat := 4
def sizeofFlowElementRec : Nat := 168
def sizeofActionRec : Nat := 16

def AuElement.isOther {K : Type} : AuElement K → Bool
  | .other _ => true
  | _ => false

/-- The size of the variable part of an element. -/
def AuElement.varLen {K : Type} : AuElement K → Nat
  | .bundle inputs => inputs.length * sizeofAuInputTrack
  | .sum inputs => pad4 (inputs.length * 2)
  | el => el.actions.length * sizeofAuElementAction

/-- The actions an element has that comes without. -/
def defaultActions {K : Type} (flow : FlowPtr) : AuElement K → List Action
  | .importClient _ | .exportClient _ =>
    [⟨auStatePause, auStateAny, auReasonAny, .sendNotify⟩,
      ⟨auStateStop, auStateAny, auReasonAny, .sendNotify⟩,
      ⟨auStatePause, auStateAny, auReasonAny, .changeState flow auElementAll auStatePause⟩,
      ⟨auStateStart, auStatePause, auReasonAny, .changeState flow auElementAll auStateStart⟩,
      ⟨auStateStop, auStateAny, auReasonAny, .changeState flow auElementAll auStateStop⟩]
  | .importBucket _ | .importWaveForm _ | .exportBucket _ =>
    [⟨auStatePause, auStateAny, auReasonAny, .sendNotify⟩,
      ⟨auStateStop, auStateAny, auReasonAny, .sendNotify⟩,
      ⟨auStateStop, auStateAny, auReasonAny, .changeState flow auElementAll auStateStop⟩]
  | _ => []

/-- `numActions` of an element. -/
def AuElement.numActions (el : AuElement AuFixedPoint) : Nat :=
  if el.actions = [] then (defaultActions 0 el).length else el.actions.length

/-- What `ProcAuSetElements` allocates. -/
def SetElementsRequest.size (r : SetElementsRequest) : Nat :=
  pad4 (r.elements.length * sizeofFlowElementRec) + pad4 r.len +
    pad4 ((r.elements.map (·.numActions)).sum * sizeofActionRec)

/-- The action pass for one action: what is wrong with it, or what is stored. -/
def storeAction (lookup : AuID → Option FlowPtr) (numElements : Nat) (raw : AuElementAction) :
    Except AuStatus Action :=
  let stored : Action := ⟨raw.triggerState, raw.triggerPrevState, raw.triggerReason, .noop⟩
  if ¬ auValidTriggerState raw.triggerState then .error auBadValue
  else if ¬ auValidTriggerState raw.triggerPrevState then .error auBadValue
  else if ¬ auValidTriggerReason raw.triggerReason then .error auBadValue
  else if raw.action = auElementActionChangeState then
    match lookup raw.flow with
    | none => .error auBadFlow
    | some fl =>
      -- the number of elements is that of the flow the elements are for, not of the one looked up
      if raw.elementNum ≠ auElementAll ∧ raw.elementNum ≥ numElements then .error auBadElement
      else if ¬ auValidState raw.newState then .error auBadValue
      else .ok { stored with action := .changeState fl raw.elementNum raw.newState }
  else if raw.action = auElementActionSendNotify then .ok { stored with action := .sendNotify }
  else if raw.action = auElementActionNoop then .ok stored
  else .error auBadValue

def storeActions (lookup : AuID → Option FlowPtr) (flow : FlowPtr) (numElements : Nat)
    (el : AuElement AuFixedPoint) : Except AuStatus (List Action) :=
  if el.actions = [] then .ok (defaultActions flow el)
  else el.actions.mapM (storeAction lookup numElements)

/-- An element as the loop that initializes it leaves it. -/
def initElement (client : Nat) (i : Nat) (el : AuElement AuFixedPoint) (actions : List Action) : ServerElement :=
  { client, raw := el, elementNum := i, isComponent := el.isComponent, actions }

/-- The loop that initializes the elements, with its action pass. -/
def initElements (lookup : AuID → Option FlowPtr) (client : Nat) (flow : FlowPtr)
    (els : List (AuElement AuFixedPoint)) : Except AuStatus (List ServerElement) :=
  els.zipIdx.mapM fun (el, i) => do
    let actions ← storeActions lookup flow els.length el
    .ok (initElement client i el actions)

/-- A flow gets a block of elements. -/
def Flow.install {K : Type} (f : Flow K) (clocked : Bool) (block varLen : Nat) (els : List (FlowElement K)) : Flow K :=
  { f with clocked, block, varLen, elements := some els, state := auStateStop }

/-- A flow that only moves data between a client and a bucket. -/
def trivialElements : List (AuElement AuFixedPoint) → Bool
  | [.importClient _, .exportBucket _] | [.exportBucket _, .importClient _]
  | [.importBucket _, .exportClient _] | [.exportClient _, .importBucket _] => true
  | _ => false

/-- How the compilation of a flow's elements is called. -/
def Server.compileEnv (s : Server) (p : FlowPtr) (f : ServerFlow) : CompileEnv AuFixedPoint where
  arith := auFixedPoint
  mem n := env.mem (n + 1)
  lookup id := lookupIDByType s.clientTable id .auComponentType
  auMinibufSamples := env.auMinibufSamples
  flow := p
  block := f.block

def Flow.setCompiled {K : Type} (f : Flow K) (st : Compiling K) : Flow K :=
  { f with elements := f.elements.map fun _ => st.elements, compiled := { outputs := st.outputs } }

/-- `AuCompileFlow` for a flow without compiled outputs. -/
def compileFlow (p : FlowPtr) (s : Server) : Exec (AuStatus × Server) := do
  let f ← s.flow p
  let (status, st) ← auCompileFlow (s.compileEnv env p f) env.fuel
    { elements := f.els, comps := s.comps, nextComponent := s.nextComponent, allocs := 0, outputs := []
      inputs := [] }
  .ok (status, { s with
    flows := s.flows.modify p (·.setCompiled st)
    comps := st.comps
    nextComponent := st.nextComponent
    allocatedMinibufs := s.allocatedMinibufs ++ st.minibufs.map fun i => ⟨p, f.block, i⟩ })

/-- `ProcAuSetElements` from the allocation on. -/
def installElements (r : SetElementsRequest) (p : FlowPtr) (s : Server) : Exec (AuStatus × Server) :=
  if ¬ aualloc (env.mem 0) r.size then .ok (auBadAlloc, s)
  else
    let block := s.nextBlock
    let varLen := (r.elements.map (·.varLen)).sum
    let lookup := fun id => lookupIDByType s.clientTable id .auFlowType
    match initElements lookup r.client p r.elements with
    | .error status => do
      -- FREE_FLOW_ERROR, with the flow in no list yet and stopped, so that no action is looked at
      let els := r.elements.zipIdx.map fun (el, i) => initElement r.client i el []
      let s ← auFreeFlowElements env p
        { s with flows := s.flows.modify p (·.install r.clocked block varLen els), nextBlock := block + 1 }
      .ok (status, s)
    | .ok els => do
      let s := { s with flows := s.flows.modify p (·.install r.clocked block varLen els), nextBlock := block + 1 }
      let s ← s.linkFlow p
      let (status, s) ← compileFlow env p s
      if status = auSuccess then
        .ok (status, { s with flows := s.flows.modify p fun f =>
          { f with trivial := trivialElements r.elements, count := 0 } })
      else do
        let s ← auFreeFlowElements env p s
        .ok (status, s)

def procAuSetElements (r : SetElementsRequest) (s : Server) : Exec (AuStatus × Server) :=
  match lookupIDByType s.clientTable r.flow .auFlowType with
  | none => .ok (auBadFlow, s)
  | some p =>
    if r.elements.any (·.isOther) then .ok (auBadElement, s)
    else if (r.elements.map (·.varLen)).sum + r.elements.length * sizeofAuElement ≠ r.len then
      .ok (auBadLength, s)
    else do
      -- get rid of the existing elements
      let f ← s.flow p
      let s ← (if f.elements.isSome then auFreeFlowElements env p s else .ok s : Exec Server)
      installElements env r p s

/-! ### Element states -/

structure AuElementState where
  flow : AuID
  elementNum : Nat
  state : Nat
deriving DecidableEq, Repr

/-- The error checks of `ProcAuSetElementStates`, and the changes that are asked for. -/
def checkElementStates (s : Server) : List AuElementState → Exec (AuStatus × List StateChange)
  | [] => .ok (auSuccess, [])
  | st :: states =>
    match lookupIDByType s.clientTable st.flow .auFlowType with
    | none => .ok (auBadFlow, [])
    | some p => do
      let f ← s.flow p
      if st.elementNum ≠ auElementAll ∧ ¬ (f.els[st.elementNum]?).any (·.isComponent) then
        .ok (auBadElement, [])
      else do
        let (status, cs) ← checkElementStates s states
        .ok (status, ⟨p, st.elementNum, st.state, auReasonUser⟩ :: cs)

def auProcessStateChanges (cs : List StateChange) (s : Server) : Exec Server := do
  let s ← cs.foldlM (fun s c => do
    let (_, s) ← changeElementState env false c s
    .ok s) s
  auProcessClockedFlows env (auProcessUnclockedFlows s)

def procAuSetElementStates (lengthOk : Bool) (states : List AuElementState) (s : Server) :
    Exec (AuStatus × Server) :=
  if ¬ lengthOk then .ok (auBadLength, s)
  else if ¬ aualloc (env.mem 0) (8 * states.length) then .ok (auBadAlloc, s)
  else do
    let (status, cs) ← checkElementStates s states
    if status ≠ auSuccess then .ok (status, s)
    else do
      let s ← auProcessStateChanges env cs s
      .ok (auSuccess, s)

/-! ### Element parameters -/

/-- A block of parameters. `values` are the `CARD32`s from its list on, whatever follows it. -/
structure AuElementParameters where
  flow : AuID
  elementNum : Nat
  values : Nat → Nat

/-- An `AuUint32` as a constant. -/
def auFixedPointOf (v : Nat) : AuFixedPoint := asInt32 v

/-- The parameters an element takes over. -/
def AuElement.setParameters (v : Nat → Nat) : AuElement AuFixedPoint → AuElement AuFixedPoint
  | .importBucket p => .importBucket { p with offset := v 0 }
  | .importWaveForm p => .importWaveForm { p with frequency := v 0, numSamples := v 1 }
  | .multiplyConstant input _ => .multiplyConstant input (auFixedPointOf (v 0))
  | .addConstant input _ => .addConstant input (auFixedPointOf (v 0))
  | .exportBucket p => .exportBucket { p with offset := v 0 }
  | el => el

/-- Whether new parameters start a trivial flow over. -/
def AuElement.resetsCount {K : Type} : AuElement K → Bool
  | .importBucket _ | .exportBucket _ => true
  | _ => false

/-- The loop of `ProcAuSetElementParameters` over the blocks. -/
def setParameters : List AuElementParameters → Server → Exec (AuStatus × Server)
  | [], s => .ok (auSuccess, s)
  | parms :: blocks, s =>
    match lookupIDByType s.clientTable parms.flow .auFlowType with
    | none => .ok (auBadFlow, s)
    | some p => do
      let f ← s.flow p
      match f.els[parms.elementNum]? with
      | none => .ok (auBadElement, s)
      | some el =>
        let s := s.setElement p parms.elementNum
          { el with raw := el.raw.setParameters parms.values, parmsChanged := true }
        let s := { s with flows := s.flows.modify p fun f =>
          { f with needsRecompile := true, count := if el.raw.resetsCount then 0 else f.count } }
        setParameters blocks s

/-- `AuCompileFlow` for any flow. -/
def compileFlowAgain (p : FlowPtr) (s : Server) : Exec (AuStatus × Server) := do
  let f ← s.flow p
  if f.compiled.outputs = [] then compileFlow env p s
  else do
    let (status, f') ← recompileFlow auFixedPoint env.fuel f
    .ok (status, { s with flows := s.flows.modify p fun f => { f with compiled := f'.compiled } })

/-- The loop over a list of flows that compiles those whose parameters were changed. -/
def recompileFlows : List FlowPtr → Server → Exec (AuStatus × Server)
  | [], s => .ok (auSuccess, s)
  | p :: ps, s => do
    let f ← s.flow p
    if f.needsRecompile then do
      let (status, s) ← compileFlowAgain env p s
      let s := { s with flows := s.flows.modify p fun f => { f with needsRecompile := false } }
      if status ≠ auSuccess then .ok (status, s) else recompileFlows ps s
    else recompileFlows ps s

def procAuSetElementParameters (blocks : List AuElementParameters) (s : Server) :
    Exec (AuStatus × Server) := do
  let (status, s) ← setParameters blocks s
  if status ≠ auSuccess then .ok (status, s)
  else do
    let ps ← LinkedList.walk s.flows.live s.links env.fuel s.auUnclockedFlows
    let (status, s) ← recompileFlows env ps s
    if status ≠ auSuccess then .ok (status, s)
    else do
      let s := auProcessUnclockedFlows s
      let ps ← LinkedList.walk s.flows.live s.links env.fuel s.auClockedFlows
      let (status, s) ← recompileFlows env ps s
      if status ≠ auSuccess then .ok (status, s)
      else do
        let s ← auProcessClockedFlows env s
        .ok (auSuccess, s)

/-! ### Buckets -/

/-- The attributes a bucket is created with, less its description's text. -/
structure AuBucketAttributes where
  id : AuID
  access : Nat
  format : Nat
  numTracks : Nat
  sampleRate : Nat
  numSamples : Nat
  descriptionLen : Nat
deriving DecidableEq, Repr

def auAccessDestroyMask : Nat := 2 ^ 2

/-- The component of a new bucket. -/
def newBucket (a : AuBucketAttributes) : Component :=
  let dataSize := a.numSamples * sizeofFormat a.format * a.numTracks % 2 ^ 32
  { id := a.id, kind := auComponentKindBucket, access := a.access, format := a.format
    numTracks := a.numTracks, numSamples := a.numSamples, sampleRate := a.sampleRate, dataSize
    data := List.replicate dataSize 0
    minibufSize := auNativeBytesPerSample * env.auMinibufSamples * a.numTracks % 2 ^ 32
    bytesPerSample := a.numTracks * sizeofFormat a.format }

/-- `lengthOk` and `maskOk`: the request has the attributes it needs. -/
def procAuCreateBucket (id : AuID) (lengthOk maskOk : Bool) (a : AuBucketAttributes) (s : Server) :
    Exec (AuStatus × Server) :=
  let c := newBucket env a
  if ¬ lengthOk then .ok (auBadLength, s)
  else if ¬ maskOk then .ok (auBadValue, s)
  else if ¬ aualloc (env.mem 0) (sizeofComponentRec + pad4u c.dataSize + pad4u a.descriptionLen) then
    .ok (auBadAlloc, s)
  else do
    let p := s.nextComponent
    let s := { s with comps := Function.update s.comps p (some c), nextComponent := p + 1 }
    let l ← LinkedList.add s.liveComponent s.compLinks s.auBuckets p
    let s := { s with compLinks := l.1, auBuckets := l.2 }
    let (added, s) ← addResource env (env.mem 1) (env.mem 2) ⟨id, .auComponentType, p⟩ s
    .ok (if added then auSuccess else auBadAlloc, s)

def procAuDestroyBucket (client : Nat) (id : AuID) (s : Server) : Exec (AuStatus × Server) :=
  match lookupIDByType s.clientTable id .auComponentType with
  | none => .ok (auBadBucket, s)
  | some p => do
    let c ← Exec.deref (s.comps p)
    if c.access &&& auAccessDestroyMask = 0 ∧ clientId id ≠ client then .ok (auBadAccess, s)
    else do
      let s ← freeResource env id (s.setComponent p { c with destroyed := true })
      .ok (auSuccess, s)

/-! ### Data from and for clients -/

def auTransferStateReady : Nat := 0
def auTransferStatePending : Nat := 1
def auTransferStateEnd : Nat := 2

def auValidDataTransferState (s : Nat) : Bool :=
  s == auTransferStateReady || s == auTransferStatePending || s == auTransferStateEnd

/-- The offset in its bucket an element works at. -/
def AuElement.bucketOffset {K : Type} : AuElement K → Nat
  | .importBucket p => p.offset
  | .exportBucket p => p.offset
  | _ => 0

/-- The bucket of a trivial flow, whose other element is `elementNum`, and where the flow has got to. -/
def trivialBucket (f : ServerFlow) (elementNum : Nat) (s : Server) : Exec (ComponentPtr × Component × Nat) := do
  let el ← Exec.deref f.els[if elementNum ≠ 0 then 0 else 1]?
  let (p, c) ← s.component el
  .ok (p, c, el.raw.bucketOffset * c.bytesPerSample % 2 ^ 32 + f.count)

/-- Start an element again that waits for a client. -/
def restartElement (p : FlowPtr) (elementNum : Nat) (s : Server) : Exec Server := do
  let el ← Exec.deref (s.element p elementNum)
  if el.state = auStatePause then do
    let (_, s) ← changeElementState env true ⟨p, elementNum, auStateStart, auReasonUser⟩ s
    .ok s
  else .ok s

structure WriteElementRequest where
  flow : AuID
  elementNum : Nat
  state : Nat
  lengthOk : Bool
  bytes : List UInt8

/-- `ProcAuWriteElement` for a port. -/
def writePort (r : WriteElementRequest) (p : FlowPtr) (el : ServerElement) (s : Server) :
    Exec (AuStatus × Server) := do
  let (q, c) ← s.component el
  match ← writeElementPort c r.bytes with
  | none => .ok (auBadValue, s)
  | some c =>
    if r.state = auTransferStatePending then .ok (auSuccess, s.setComponent q c)
    else do
      let c := if r.state = auTransferStateEnd then { c with eof := true, incoming := 0 } else c
      let s := s.setComponent q c
      let s ← (if r.bytes ≠ [] then restartElement env p r.elementNum s else .ok s : Exec Server)
      .ok (auSuccess, s)

def procAuWriteElement (r : WriteElementRequest) (s : Server) : Exec (AuStatus × Server) :=
  match lookupIDByType s.clientTable r.flow .auFlowType with
  | none => .ok (auBadFlow, s)
  | some p => do
    let f ← s.flow p
    match f.els[r.elementNum]? with
    | none => .ok (auBadElement, s)
    | some el =>
      if ¬ (el.raw matches .importClient _) then .ok (auBadElement, s)
      else if ¬ auValidDataTransferState r.state then .ok (auBadValue, s)
      else if ¬ r.lengthOk then .ok (auBadLength, s)
      else if f.trivial then do
        let (q, c, d) ← trivialBucket f r.elementNum s
        if d + r.bytes.length > c.dataSize then .ok (auBadValue, s)
        else do
          let data ← store c.data d r.bytes
          let count := if r.state = auTransferStateEnd then 0 else f.count + r.bytes.length
          let s := s.setComponent q { c with data }
          .ok (auSuccess, { s with flows := s.flows.modify p fun f => { f with count } })
      else writePort env r p el s

/-- `ProcAuReadElement`, less the reply. -/
def procAuReadElement (flow : AuID) (elementNum num_bytes : Nat) (s : Server) : Exec (AuStatus × Server) :=
  match lookupIDByType s.clientTable flow .auFlowType with
  | none => .ok (auBadFlow, s)
  | some p => do
    let f ← s.flow p
    match f.els[elementNum]? with
    | none => .ok (auBadElement, s)
    | some el =>
      if ¬ (el.raw matches .exportClient _) then .ok (auBadElement, s)
      else if f.trivial then do
        let (_, c, d) ← trivialBucket f elementNum s
        if d > c.dataSize then .error .fault
        else
          let numBytes := min num_bytes (c.dataSize - d)
          .ok (auSuccess, { s with flows := s.flows.modify p fun f => { f with count := f.count + numBytes } })
      else do
        let (q, c) ← s.component el
        let (c, _, _) ← readElementPort c num_bytes
        let s ← restartElement env p elementNum (s.setComponent q c)
        .ok (auSuccess, s)

inductive Request where
  /-- `InitClientResources` for a client whose place in the table is free. -/
  | connect (client : Nat)
  | createFlow (id : AuID)
  | destroyFlow (id : AuID)
  | setElements (r : SetElementsRequest)
  | setElementStates (lengthOk : Bool) (states : List AuElementState)
  | setElementParameters (blocks : List AuElementParameters)
  | createBucket (id : AuID) (lengthOk maskOk : Bool) (a : AuBucketAttributes)
  | destroyBucket (client : Nat) (id : AuID)
  | writeElement (r : WriteElementRequest)
  | readElement (flow : AuID) (elementNum num_bytes : Nat)
  /-- `CloseDownClient` for a client whose resources are not retained. -/
  | closeClient (client : Nat)

/-- A request is dispatched. -/
def dispatch (s : Server) : Request → Exec (AuStatus × Server)
  | .connect client =>
    if (s.clientTable client).isSome then .ok (auBadAlloc, s)
    else .ok (auSuccess, { s with
      clientTable := Function.update s.clientTable client (some initClientResources) })
  | .createFlow id => procAuCreateFlow env id s
  | .destroyFlow id => procAuDestroyFlow env id s
  | .setElements r => procAuSetElements env r s
  | .setElementStates lengthOk states => procAuSetElementStates env lengthOk states s
  | .setElementParameters blocks => procAuSetElementParameters env blocks s
  | .createBucket id lengthOk maskOk a => procAuCreateBucket env id lengthOk maskOk a s
  | .destroyBucket client id => procAuDestroyBucket env client id s
  | .writeElement r => procAuWriteElement env r s
  | .readElement flow elementNum num_bytes => procAuReadElement env flow elementNum num_bytes s
  | .closeClient client => do
    let s ← freeClientResources env client s
    .ok (auSuccess, s)

/-! ### Ticks -/

/-- Which elements the data path finds at their end. -/
abbrev Tick := ElementPtr → Bool

/-- What keeps the tag of the last tick an input was read in. -/
inductive ReadTag where
  | flowEl (p : ElementPtr)
  | component (p : ComponentPtr)
deriving DecidableEq, Repr

def readTag (input : CompiledInput AuFixedPoint) (el : ServerElement) : ReadTag :=
  match el.raw with
  | .importBucket _ => .flowEl input.flowEl
  | _ => .component input.component

def auChangeState (p : ElementPtr) (newState reason : Nat) (s : Server) : Exec (Bool × Server) :=
  changeElementState env false ⟨p.flow, p.num, newState, reason⟩ s

/-- `readInput` for an input of a started element: whether the flow's state changes. -/
def readInput (tick : Tick) (input : CompiledInput AuFixedPoint) (el : ServerElement) (s : Server) :
    Exec (Bool × Server) :=
  if ¬ tick input.flowEl then .ok (false, s)
  else
    match el.raw with
    | .importClient _ => do
      let c ← Exec.deref (s.comps input.component)
      -- if we've received an EOF then stop, otherwise pause
      if c.eof then auChangeState env input.flowEl auStateStop auReasonEOF s
      else auChangeState env input.flowEl auStatePause auReasonUnderrun s
    | .importDevice _ | .importBucket _ | .importWaveForm _ =>
      auChangeState env input.flowEl auStateStop auReasonEOF s
    | _ => .ok (false, s)

/-- `writeOutput` for a started output. -/
def writeOutput (tick : Tick) (output : CompiledOutput AuFixedPoint) (el : ServerElement) (s : Server) :
    Exec (Bool × Server) :=
  if ¬ tick output.flowEl then .ok (false, s)
  else
    match el.raw with
    | .exportClient _ => auChangeState env output.flowEl auStatePause auReasonOverrun s
    | .exportDevice _ | .exportBucket _ => auChangeState env output.flowEl auStateStop auReasonEOF s
    -- an event for the monitor is due
    | .exportMonitor _ => .ok (true, s)
    | _ => .ok (false, s)

/-- What goes through `AuProcessFlow`: `flowStateChanged`, the inputs read so far, and the state. -/
structure Processing where
  flowStateChanged : Bool
  read : List ReadTag
  server : Server

/-- The body of the loop over the inputs of an output. -/
def processInput (tick : Tick) (r : Processing) (input : CompiledInput AuFixedPoint) : Exec Processing := do
  let el ← Exec.deref (r.server.flowEl input.flowEl)
  let tag := readTag input el
  if el.state = auStateStart ∧ tag ∉ r.read then do
    let (changed, s) ← readInput env tick input el r.server
    .ok ⟨r.flowStateChanged || changed, tag :: r.read, s⟩
  else .ok r

/-- The body of the loop over the outputs. -/
def processOutput (tick : Tick) (r : Processing) (output : CompiledOutput AuFixedPoint) : Exec Processing := do
  let oel ← Exec.deref (r.server.flowEl output.flowEl)
  -- the state before the inputs are read
  let outputState := oel.state
  let r ← output.inputs.foldlM (processInput env tick) r
  if outputState = auStateStart then do
    let oel ← Exec.deref (r.server.flowEl output.flowEl)
    let (changed, s) ← writeOutput env tick output oel r.server
    .ok { r with flowStateChanged := r.flowStateChanged || changed, server := s }
  else .ok r

/-- `AuProcessData` -/
def auProcessData (tick : Tick) (s : Server) : Exec Server :=
  match s.auFlow with
  | none => .ok s
  | some fl => do
    let r ← fl.outputs.foldlM (processOutput env tick) ⟨false, [], s⟩
    if r.flowStateChanged then auProcessClockedFlows env r.server else .ok r.server

end Requests

/-! ### Runs -/

inductive Input where
  | request (r : Request)
  | tick (t : Tick)

/-- A step of the server. -/
def step (s : Server) (i : Env × Input) : Exec Server :=
  match i.2 with
  | .request r => do
    let (_, s) ← dispatch i.1 s r
    .ok s
  | .tick t => auProcessData i.1 t s

/-- A server as it starts: with devices and clients perhaps, but without flows. -/
structure Initial (s : Server) : Prop where
  flows : ∀ p, s.flows.get p = none
  auClockedFlows : s.auClockedFlows = none
  auUnclockedFlows : s.auUnclockedFlows = none
  auFlow : s.auFlow = none
  trace : s.trace = []

end Nas
