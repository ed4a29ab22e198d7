import Nas.LinkedList
import Nas.Merge
import Nas.Port
import Nas.Resource

/-!
# The server and its element states

The state of the server, and the functions of `auutil.c` that work on all of it: `AuProcessClockedFlows`,
which makes a new running flow of the clocked flows, and `AuChangeElementState` with
`checkForTriggeredActions`, which call each other as long as changes of state trigger actions.

Flows and components that are freed are gone from the state, and following a pointer to one, or to an
element that is not there, is a fault. The event queue is left out, and with it what a notification does
to `incoming` and `outgoing` of a port.
-/

namespace Nas

abbrev ServerFlow := Flow AuFixedPoint
abbrev ServerElement := FlowElement AuFixedPoint

/-- What is observed of a run. The server keeps no such record. -/
inductive Event where
  /-- An element goes from one state to another. -/
  | moved (flow : FlowPtr) (elementNum oldState newState : Nat)
  /-- An outermost `AuChangeElementState` returns and leaves the flows like this. -/
  | returned (flows : Heap ServerFlow)

structure Server where
  flows : Heap ServerFlow := .empty
  /-- The list links of the flows. -/
  links : FlowPtr → Links FlowPtr := fun _ => {}
  auClockedFlows : Option FlowPtr := none
  auUnclockedFlows : Option FlowPtr := none
  comps : ComponentPtr → Option Component := fun _ => none
  nextComponent : ComponentPtr := 0
  /-- The list links of the components. -/
  compLinks : ComponentPtr → Links ComponentPtr := fun _ => {}
  auBuckets : Option ComponentPtr := none
  auDevices : Option ComponentPtr := none
  auFlow : Option (CompiledFlow AuFixedPoint) := none
  clientTable : ClientTable := fun _ => none
  /-- How many blocks of elements there were. -/
  nextBlock : Nat := 0
  /-- How often `AuProcessFlows` was called. -/
  processed : Nat := 0
  trace : List Event := []
  /-- The minibuffers of bucket elements that were ever allocated, and those that were freed. -/
  allocatedMinibufs : List ElementPtr := []
  freedMinibufs : List ElementPtr := []

/-- What a step of the server depends on besides its input: two options of the server, the bound for
recursions and walks, which allocations of a request succeed, and which of the `n`-th `AuProcessFlows`. -/
structure Env where
  auAverageFlows : Bool
  auMinibufSamples : Nat
  fuel : Nat
  mem : Nat → Bool
  processMem : Nat → Nat → Bool

/-! ### Elements and flows -/

namespace Flow
variable {K : Type}

def setElement (f : Flow K) (i : Nat) (e : FlowElement K) : Flow K :=
  { f with elements := f.elements.map (·.set i e) }

/-- `setFlowState` -/
def aggregate (f : Flow K) : Nat :=
  if f.els.any fun e => e.isComponent && e.state == auStateStart then auStateStart
  else if f.els.any fun e => e.isComponent && e.state != auStateStop then auStatePause
  else auStateStop

def setFlowState (f : Flow K) : Flow K := { f with pendingState := f.aggregate }

end Flow

namespace FlowElement
variable {K : Type}

def rewind (e : FlowElement K) : FlowElement K := { e with currentSample := 0 }

def readAt (e : FlowElement K) (read : Nat) : FlowElement K := { e with read }

def writeAt (e : FlowElement K) (write : Nat) : FlowElement K := { e with write }

/-- `countSamples` and `numBytes` of an element that is to move so many samples. -/
def count (e : FlowElement K) (numSamples bytes : Nat) : FlowElement K :=
  if numSamples = auUnlimitedSamples then { e with countSamples := false }
  else { e with countSamples := true, numBytes := numSamples * bytes % 2 ^ 32 }

/-- The state an element goes to. -/
def move (e : FlowElement K) (newState : Nat) : FlowElement K :=
  { e with prevState := e.state, state := newState, stateChange := true }

def clearStateChange (e : FlowElement K) : FlowElement K := { e with stateChange := false }

/-- Force an empty import that was started to be paused. -/
def pauseEmpty (e : FlowElement K) : FlowElement K := { e with state := auStatePause, prevState := auStateStart }

end FlowElement

namespace Server
variable (s : Server)

def flow (p : FlowPtr) : Exec ServerFlow := Exec.deref (s.flows.get p)

/-- `&flow->elements[i]` -/
def element (p : FlowPtr) (i : Nat) : Option ServerElement := (s.flows.get p).bind fun f => f.els[i]?

/-- The element a pointer leads to, while its block is the one the flow has. -/
def flowEl (p : ElementPtr) : Option ServerElement :=
  (s.flows.get p.flow).bind fun f => if f.block = p.block then f.els[p.num]? else none

def setElement (p : FlowPtr) (i : Nat) (e : ServerElement) : Server :=
  { s with flows := s.flows.modify p (·.setElement i e) }

def setFlowState (p : FlowPtr) : Server := { s with flows := s.flows.modify p (·.setFlowState) }

/-- The component of an element. -/
def component (e : ServerElement) : Exec (ComponentPtr × Component) := do
  let p ← Exec.deref e.component
  let c ← Exec.deref (s.comps p)
  .ok (p, c)

def setComponent (p : ComponentPtr) (c : Component) : Server :=
  { s with comps := Function.update s.comps p (some c) }

end Server

/-! ### Processing the clocked flows -/

/-- `AuStartFlow`: the running flow, `none` when there is nothing to run. -/
def auStartFlow (newFlow : CompiledFlow AuFixedPoint) : Option (CompiledFlow AuFixedPoint) :=
  if newFlow.outputs = [] then none else some newFlow

def auProcessClockedFlows (env : Env) (s : Server) : Exec Server := do
  let ps ← LinkedList.walk s.flows.live s.links env.fuel s.auClockedFlows
  let fl := ps.filterMap s.flows.get
  match ← auProcessFlows env.auAverageFlows (env.processMem s.processed) (fun _ => false) fl with
  | none => .ok { s with processed := s.processed + 1 }
  | some (new, _) => .ok { s with
      processed := s.processed + 1
      -- the states of the flows in the list are up to date now
      flows := s.flows.modifyAll ps Flow.update
      auFlow := auStartFlow new }

/-- XXX: yet to be implemented -/
def auProcessUnclockedFlows (s : Server) : Server := s

/-! ### Changing element states -/

/-- The arguments of `AuChangeElementState`, but for `processFlow`. -/
structure StateChange where
  flow : FlowPtr
  elementNum : Nat
  newState : Nat
  reason : Nat
deriving DecidableEq, Repr

/-- `CHECK_STATE` -/
def checkState (t s : Nat) : Bool := t == auStateAny || t == s

/-- `CHECK_REASON` -/
def checkReason (t r : Nat) : Bool := t == auReasonAny || t == r

/-- Whether a change of state triggers an action. -/
def Action.triggered (a : Action) (state prevState reason : Nat) : Bool :=
  checkState a.triggerState state && checkState a.triggerPrevState prevState &&
    checkReason a.triggerReason reason

/-- `call` is `AuChangeElementState`. The states are those the element has now, whatever the actions
change. -/
def checkForTriggeredActions (call : StateChange → Server → Exec Server) (el : ServerElement) (reason : Nat)
    (s : Server) : Exec Server :=
  el.actions.foldlM (fun s a =>
    if a.triggered el.state el.prevState reason then
      match a.action with
      | .changeState flow elementNum newState => call ⟨flow, elementNum, newState, reason⟩ s
      | .sendNotify | .noop => .ok s
    else .ok s) s

section Change
variable (env : Env)

/-- What a compiled element does when it is started from the stopped state. -/
def startElement (el : ServerElement) (s : Server) : Exec (ServerElement × Server) :=
  match el.raw with
  | .importWaveForm p => do
    let (q, c) ← s.component el
    .ok ((el.rewind.count p.numSamples auNativeBytesPerSample).readAt 0,
      s.setComponent q { c with frequency := p.frequency * c.waveSamples % 2 ^ 32 })
  | .importDevice p | .exportDevice p =>
    if p.numSamples = auUnlimitedSamples then .ok (el.rewind.count p.numSamples 0, s)
    else do
      let (_, c) ← s.component el
      .ok (el.rewind.count p.numSamples c.bytesPerSample, s)
  | .importClient _ => do
    let (q, c) ← s.component el
    .ok (el.rewind, s.setComponent q (startImportPort c))
  | .exportClient _ => do
    let (q, c) ← s.component el
    .ok (el.rewind, s.setComponent q (startExportPort c))
  | .importBucket p => do
    let (_, c) ← s.component el
    .ok ((el.rewind.count p.numSamples c.bytesPerSample).readAt (p.offset * c.bytesPerSample % 2 ^ 32), s)
  | .exportBucket p => do
    let (_, c) ← s.component el
    .ok ((el.rewind.count p.numSamples c.bytesPerSample).writeAt (p.offset * c.bytesPerSample % 2 ^ 32), s)
  | .exportMonitor _ => do
    let (q, c) ← s.component el
    .ok (el.rewind, s.setComponent q
      { c with words := List.replicate (c.numTracks * env.auMinibufSamples) 0x7fff8001, write := c.read })
  | _ => .ok (el.rewind, s)

/-- The first loop of `AuChangeElementState`. -/
def enterElement (c : StateChange) (r : Bool × Server) (i : Nat) : Exec (Bool × Server) := do
  let (stateChange, s) := r
  let el ← Exec.deref (s.element c.flow i)
  -- changing from stopped to paused is not allowed
  if c.newState = el.state ∨ (c.newState = auStatePause ∧ el.state = auStateStop) then .ok (stateChange, s)
  else do
    let (el', s) ← (if el.compiled ∧ c.newState = auStateStart ∧ el.state = auStateStop then startElement env el s
      else .ok (el, s) : Exec (ServerElement × Server))
    let s := s.setElement c.flow i (el'.move c.newState)
    .ok (true, { s with trace := s.trace ++ [.moved c.flow i el.state c.newState] })

/-- Whether an element that has changed its state is an empty import, which has to be paused before
anything gets going. -/
def emptyImport (el : ServerElement) (s : Server) : Exec Bool :=
  match el.raw with
  | .importClient _ => do
    let (_, c) ← s.component el
    .ok (c.discard && el.prevState == auStateStop && el.state == auStateStart)
  | _ => .ok false

/-- The second loop of `AuChangeElementState`. -/
def triggerElement (call : StateChange → Server → Exec Server) (c : StateChange) (s : Server) (i : Nat) :
    Exec Server := do
  let el ← Exec.deref (s.element c.flow i)
  if ¬ el.stateChange then .ok s
  else do
    let el := el.clearStateChange
    if ← emptyImport el s then
      let el := el.pauseEmpty
      let s := s.setElement c.flow i el
      let s := { s with trace := s.trace ++ [.moved c.flow i auStateStart auStatePause] }
      checkForTriggeredActions call el auReasonUnderrun s
    else
      let s := s.setElement c.flow i el
      checkForTriggeredActions call el c.reason s

/-- The elements a change is for. -/
def StateChange.elementNums (c : StateChange) (s : Server) : Exec (List Nat) :=
  if c.elementNum = auElementAll then do
    let f ← s.flow c.flow
    .ok (List.range f.numElements)
  else .ok [c.elementNum]

/-- The end of `AuChangeElementState`. -/
def finishChange (processFlow : Bool) (c : StateChange) (stateChange : Bool) (s : Server) : Exec Server := do
  let s := if stateChange then s.setFlowState c.flow else s
  let f ← s.flow c.flow
  if processFlow ∧ f.state ≠ f.pendingState then
    if f.clocked then auProcessClockedFlows env s else .ok (auProcessUnclockedFlows s)
  else .ok s

/-- `AuChangeElementState` without its result, which the calls it makes itself ignore. -/
def auChangeElementState (processFlow : Bool) : (fuel : Nat) → StateChange → Server → Exec Server
  | 0, _, _ => .error .fuel
  | fuel + 1, c, s => do
    let nums ← c.elementNums s
    let (stateChange, s) ← nums.foldlM (enterElement env c) (false, s)
    let s ← nums.foldlM (triggerElement (auChangeElementState processFlow fuel) c) s
    finishChange env processFlow c stateChange s

/-- A call of `AuChangeElementState` from outside, with its result: whether the flow is not in the state
it should be in. -/
def changeElementState (processFlow : Bool) (c : StateChange) (s : Server) : Exec (Bool × Server) := do
  let s ← auChangeElementState env processFlow env.fuel c s
  let f ← s.flow c.flow
  .ok (decide (f.state ≠ f.pendingState), { s with trace := s.trace ++ [.returned s.flows] })

end Change

end Nas
