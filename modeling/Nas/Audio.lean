import Nas.Exec
import Nas.FixedPoint

/-!
# The server's data

The protocol constants, the elements of a `SetElements` request and the records the server keeps
about flows and components (`au.h`, `audio.h`, `Aproto.h`). Pointers are numbers: a `FlowPtr` or a
`ComponentPtr` is an address handed out once and never used again, so that a pointer to freed memory
can be told from a valid one. State, reason and format codes are the numbers of the protocol, since
a client can send any of them.
-/

namespace Nas

abbrev AuID := Nat
abbrev FlowPtr := Nat
abbrev ComponentPtr := Nat

def auMaxTracks : Nat := 32
def auElementAll : Nat := 255

def auStateStop : Nat := 0
def auStateStart : Nat := 1
def auStatePause : Nat := 2
def auStateAny : Nat := 255

def auReasonUser : Nat := 0
def auReasonUnderrun : Nat := 1
def auReasonOverrun : Nat := 2
def auReasonEOF : Nat := 3
def auReasonWatermark : Nat := 4
def auReasonHardware : Nat := 5
def auReasonAny : Nat := 255

def auUnlimitedSamples : Nat := 0

def auComponentKindOther : Nat := 0
def auComponentKindPhysicalInput : Nat := 1
def auComponentKindPhysicalOutput : Nat := 2
def auComponentKindBucket : Nat := 3
def auComponentKindPhysicalFeedback : Nat := 5

def auElementActionChangeState : Nat := 0
def auElementActionSendNotify : Nat := 1
def auElementActionNoop : Nat := 2

def auValidState (s : Nat) : Bool := s == auStateStop || s == auStatePause || s == auStateStart

def auValidTriggerState (s : Nat) : Bool := s == auStateAny || auValidState s

def auValidTriggerReason (r : Nat) : Bool :=
  r == auReasonAny || r == auReasonUser || r == auReasonUnderrun || r == auReasonOverrun ||
    r == auReasonEOF || r == auReasonWatermark || r == auReasonHardware

/-- The error codes the modelled requests return (`audio.h`). -/
inductive AuStatus where
  | auSuccess | auBadValue | auBadDevice | auBadBucket | auBadFlow | auBadElement | auBadAccess
  | auBadAlloc | auBadLength
deriving DecidableEq, Repr

/-- Differences of `AuUint32` values wrap. -/
def sub32 (a b : Nat) : Nat := (a + 2 ^ 32 - b) % 2 ^ 32

/-- `AuUint32` passed as `AuInt32`. -/
def asInt32 (a : Nat) : Int := if a % 2 ^ 32 < 2 ^ 31 then (a % 2 ^ 32 : Nat) else (a % 2 ^ 32 : Nat) - 2 ^ 32

def pad4 (n : Nat) : Nat := (n + 3) / 4 * 4

/-- `aualloc`: `Xalloc` of an `AuUint32` size. No bytes are no memory; else `memory` decides. -/
def aualloc (memory : Bool) (size : Nat) : Bool := size % 2 ^ 32 ≠ 0 && memory

/-- `auBytesPerSample`. -/
def sizeofFormat (format : Nat) : Nat := [0, 1, 1, 1, 2, 2, 2, 2].getD format 0

def auNativeFormat : Nat := 6
def auNativeBytesPerSample : Nat := 2

/-! ### Elements as the client sends them -/

structure AuElementAction where
  flow : AuID
  elementNum : Nat
  triggerState : Nat
  triggerPrevState : Nat
  triggerReason : Nat
  action : Nat
  newState : Nat
deriving DecidableEq, Repr

structure AuElementImportClient where
  sampleRate : Nat
  format : Nat
  numTracks : Nat
  discard : Bool
  maxSamples : Nat
  lowWaterMark : Nat
  actions : List AuElementAction
deriving DecidableEq, Repr

structure AuElementImportDevice where
  sampleRate : Nat
  numSamples : Nat
  device : AuID
  actions : List AuElementAction
deriving DecidableEq, Repr

structure AuElementImportBucket where
  sampleRate : Nat
  numSamples : Nat
  bucket : AuID
  offset : Nat
  actions : List AuElementAction
deriving DecidableEq, Repr

structure AuElementImportWaveForm where
  sampleRate : Nat
  numSamples : Nat
  waveForm : Nat
  frequency : Nat
  actions : List AuElementAction
deriving DecidableEq, Repr

structure AuInputTrack where
  elementNum : Nat
  track : Nat
deriving DecidableEq, Repr

structure AuElementExportClient where
  sampleRate : Nat
  input : Nat
  format : Nat
  numTracks : Nat
  discard : Bool
  maxSamples : Nat
  highWaterMark : Nat
  actions : List AuElementAction
deriving DecidableEq, Repr

structure AuElementExportDevice where
  sampleRate : Nat
  input : Nat
  numSamples : Nat
  device : AuID
  actions : List AuElementAction
deriving DecidableEq, Repr

structure AuElementExportBucket where
  input : Nat
  numSamples : Nat
  bucket : AuID
  offset : Nat
  actions : List AuElementAction
deriving DecidableEq, Repr

structure AuElementExportMonitor where
  eventRate : Nat
  input : Nat
  format : Nat
  numTracks : Nat
deriving DecidableEq, Repr

/-- An element with its variable part: the union `auElement` and the lists behind it. The constants
of `multiplyConstant` and `addConstant` are in `K`, which is `AuFixedPoint` in the server. -/
inductive AuElement (K : Type) where
  | importClient (p : AuElementImportClient)
  | importDevice (p : AuElementImportDevice)
  | importBucket (p : AuElementImportBucket)
  | importWaveForm (p : AuElementImportWaveForm)
  | bundle (inputs : List AuInputTrack)
  | multiplyConstant (input : Nat) (constant : K)
  | addConstant (input : Nat) (constant : K)
  | sum (inputs : List Nat)
  | exportClient (p : AuElementExportClient)
  | exportDevice (p : AuElementExportDevice)
  | exportBucket (p : AuElementExportBucket)
  | exportMonitor (p : AuElementExportMonitor)
  /-- A type code the server does not know. -/
  | other (type : Nat)
deriving DecidableEq, Repr

namespace AuElement
variable {K : Type}

/-- The raw action list of a component element. -/
def actions : AuElement K → List AuElementAction
  | importClient p => p.actions
  | importDevice p => p.actions
  | importBucket p => p.actions
  | importWaveForm p => p.actions
  | exportClient p => p.actions
  | exportDevice p => p.actions
  | exportBucket p => p.actions
  | _ => []

def isImport : AuElement K → Bool
  | importClient _ | importDevice _ | importBucket _ | importWaveForm _ => true
  | _ => false

def isExport : AuElement K → Bool
  | exportClient _ | exportDevice _ | exportBucket _ | exportMonitor _ => true
  | _ => false

def isImportBucket : AuElement K → Bool
  | importBucket _ => true
  | _ => false

def isExportBucket : AuElement K → Bool
  | exportBucket _ => true
  | _ => false

/-- `e->isComponent` as `ProcAuSetElements` sets it. -/
def isComponent : AuElement K → Bool
  | bundle _ | multiplyConstant .. | addConstant .. | sum _ => false
  | _ => true

end AuElement

/-! ### The server's records -/

/-- What a stored action does (`ActionRec`); the three fields of a change of state are only set for
that kind. -/
inductive ActionKind where
  | changeState (flow : FlowPtr) (elementNum newState : Nat)
  | sendNotify
  | noop
deriving DecidableEq, Repr

structure Action where
  triggerState : Nat
  triggerPrevState : Nat
  triggerReason : Nat
  action : ActionKind
deriving DecidableEq, Repr

/-- `ComponentRec`: a device, a bucket, or the port, monitor or wave form an element owns. `read`
and `write` are offsets from `data`; `words` is the pair store of a monitor. -/
structure Component where
  id : AuID := 0
  kind : Nat := auComponentKindOther
  access : Nat := 0
  format : Nat
  numTracks : Nat
  numSamples : Nat := 0
  sampleRate : Nat := 0
  minibufSize : Nat
  bytesPerSample : Nat
  lowWaterMark : Nat := 0
  highWaterMark : Nat := 0
  dataSize : Nat := 0
  data : List UInt8 := []
  read : Nat := 0
  write : Nat := 0
  incoming : Nat := 0
  outgoing : Nat := 0
  currentSize : Nat := 0
  discard : Bool := false
  eof : Bool := false
  waveSamples : Nat := 0
  frequency : Nat := 0
  words : List Nat := []
  destroyed : Bool := false
  refCnt : Nat := 0
deriving DecidableEq, Repr

/-- `FlowElementRec`. `read` and `write` are offsets from the data of the component. -/
structure FlowElement (K : Type) where
  client : Nat
  raw : AuElement K
  elementNum : Nat
  state : Nat := auStateStop
  prevState : Nat := auStateStop
  stateChange : Bool := false
  compiled : Bool := false
  isComponent : Bool
  parmsChanged : Bool := false
  actions : List Action := []
  component : Option ComponentPtr := none
  refCnt : Nat := 0
  sampleRate : Nat := 0
  countSamples : Bool := false
  numBytes : Nat := 0
  currentSample : Nat := 0
  nextSample : Nat := 0
  minibuf : List UInt8 := []
  minibufSamples : Nat := 0
  minibufBytes : Nat := 0
  minibufChunk : Nat := 0
  read : Nat := 0
  write : Nat := 0
deriving DecidableEq, Repr

/-- A `FlowElementPtr`: which block of elements it points into, and where. A block belongs to the
flow it was allocated for until `AuFreeFlowElements` frees it. -/
structure ElementPtr where
  flow : FlowPtr
  block : Nat
  num : Nat
deriving DecidableEq, Repr

/-- `CompiledFlowInputRec`. -/
structure CompiledInput (K : Type) where
  component : ComponentPtr
  flowEl : ElementPtr
  multiplyConstant : K
  addConstant : K
  numTracks : Nat
  inTrack : List Nat
  outTrack : List Nat
deriving DecidableEq, Repr

/-- `CompiledFlowOutputRec`. -/
structure CompiledOutput (K : Type) where
  component : ComponentPtr
  flowEl : ElementPtr
  firstInput : Nat := 0
  inputs : List (CompiledInput K)
deriving DecidableEq, Repr

/-- `CompiledFlowRec`. -/
structure CompiledFlow (K : Type) where
  outputs : List (CompiledOutput K) := []
deriving DecidableEq, Repr

/-- `FlowRec`, less its two list links. `elements` is `none` for the null pointer. -/
structure Flow (K : Type) where
  flowId : AuID
  state : Nat := auStateStop
  pendingState : Nat := auStateStop
  clocked : Bool := false
  trivial : Bool := false
  needsRecompile : Bool := false
  count : Nat := 0
  block : Nat := 0
  /-- the size of all variable parts -/
  varLen : Nat := 0
  elements : Option (List (FlowElement K)) := none
  compiled : CompiledFlow K := {}
deriving DecidableEq, Repr

namespace Flow
variable {K : Type}

/-- The elements, none for the null pointer. -/
def els (f : Flow K) : List (FlowElement K) := f.elements.getD []

def numElements (f : Flow K) : Nat := f.els.length

end Flow

end Nas
