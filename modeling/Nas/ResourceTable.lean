import Nas.Chain
import Nas.Resource

/-!
# The resource table, while it is changed

`Resource` says what the operations of `resource.c` make of a table. Here the chains consist of records that refer to
each other, and a delete function that one of the operations calls may come back: `FreeResource`, `FreeResourceByType`
and `FreeClientResources` are frames of a stack, and go on where they are when the delete function returns. A step is
a call, the next turn of the loop that is on top, or the return of the delete function that is on top.

`history` is what is observed, the latest first: which records were added, changed, taken out of the table and freed,
whether the delete function was called, and which loops came to their end.
-/

namespace Nas.ResourceTable

abbrev ResourcePtr := Nat

abbrev ResType := Nat

/-- A `pointer`. 0 is `NULL`. -/
abbrev Pointer := Nat

/-- `ResourceRec` less its `next`. -/
structure ResourceItem where
  id : AuID
  type : ResType
  value : Pointer
deriving DecidableEq, Repr

/-- `ClientResourceRec`. `buckets` is the length of `resources`, and 0 if the client is not in use. -/
structure ClientResourceRec where
  resources : List (Option ResourcePtr) := []
  elements : Int := 0
  hashsize : Nat := 0
  expectID : AuID := 0
deriving DecidableEq, Repr

def serverBit : Nat := 0x20000000

/-- The operations that free records, with their arguments. -/
inductive Call where
  | freeResource (id : AuID) (skipDeleteFuncType : ResType)
  | freeResourceByType (id : AuID) (type : ResType) (skipFree : Bool)
  | freeClientResources (client : Nat)
deriving DecidableEq, Repr

inductive Event where
  | added (p : ResourcePtr) (r : ResourceItem)
  | changed (id : AuID) (type : ResType) (value : Pointer)
  /-- A record is taken out, and its delete function called with what is in it, if it is. -/
  | taken (call : Call) (p : ResourcePtr) (deleted : Option ResourceItem)
  | freed (p : ResourcePtr)
  | returned (call : Call)
deriving DecidableEq, Repr

/-- The variables of `FreeResource`: `head` is the index of the chain. -/
structure FreeLoop where
  id : AuID
  skipDeleteFuncType : ResType
  head : Nat
  prev : Slot
  gotOne : Bool
deriving DecidableEq, Repr

/-- Where an operation is: in its loop, or in a delete function that it has called. -/
inductive Frame where
  | addResourceDelete
  | freeResource (l : FreeLoop)
  | freeResourceDelete (l : FreeLoop) (res : ResourcePtr) (elements : Int)
  | freeResourceByTypeDelete (res : ResourcePtr)
  | freeClientResources (client j : Nat)
  | freeClientResourcesDelete (client j : Nat) (this : ResourcePtr)
deriving DecidableEq, Repr

structure State where
  clientTable : Nat → ClientResourceRec := fun _ => {}
  records : Heap (Node ResourceItem) := .empty
  stack : List Frame := []
  history : List Event := []
  /-- `FatalError` was called. -/
  exited : Bool := false

namespace State
variable (s : State)

/-- `buckets` is not 0. -/
def inUse (client : Nat) : Bool := ! (s.clientTable client).resources.isEmpty

/-- `Hash(CLIENT_ID(id), id)` -/
def bucket (id : AuID) : Nat := hash (s.clientTable (clientId id)).hashsize id

def note (e : Event) : State := { s with history := e :: s.history }

def push (f : Frame) : State := { s with stack := f :: s.stack }

def modifyClient (client : Nat) (f : ClientResourceRec → ClientResourceRec) : State :=
  { s with clientTable := Function.update s.clientTable client (f (s.clientTable client)) }

def free (p : ResourcePtr) : Exec State :=
  if s.records.live p then .ok ({ s with records := s.records.free p }.note (.freed p)) else .error .fault

def readSlot (client : Nat) (slot : Slot) : Exec (Option ResourcePtr) :=
  slot.read (s.clientTable client).resources s.records

def writeSlot (client : Nat) (slot : Slot) (v : Option ResourcePtr) : Exec State := do
  let (resources, records) ← slot.write (s.clientTable client).resources s.records v
  .ok { s.modifyClient client ({ · with resources }) with records }

/-- Walk on from a slot. -/
def search (client : Nat) (wanted : ResourceItem → Bool) (slot : Slot) :
    Exec (Option (Slot × ResourcePtr × Node ResourceItem)) := do
  let p ← s.readSlot client slot
  find s.records wanted s.records.next slot p

end State

/-! ### Adding -/

/-- `InitClientResources`, with memory. -/
def initClientResources (client : Nat) (s : State) : State :=
  s.modifyClient client fun _ =>
    { resources := List.replicate initBuckets none, elements := 0, hashsize := initHashSize, expectID := client * 2 ^ 22 }

/-- The variables of `RebuildTable`. A slot of `tails` is one of the new `resources`. -/
structure Rebuild where
  resources : List (Option ResourcePtr)
  tails : List Slot
  records : Heap (Node ResourceItem)

/-- The body of the inner loop: a record goes to the end of its new chain. -/
def moveRecord (hashsize : Nat) (res : ResourcePtr) (t : Rebuild) : Exec (Option ResourcePtr × Rebuild) := do
  let node ← Exec.deref (t.records.get res)
  let records := t.records.modify res ({ · with next := none })
  let j := hash hashsize node.item.id
  let tail ← Exec.deref t.tails[j]?
  let (resources, records) ← tail.write t.resources records (some res)
  .ok (node.next, { resources, tails := t.tails.set j (.next res), records })

def moveChain (hashsize : Nat) : Nat → Rebuild → Option ResourcePtr → Exec Rebuild
  | _, t, none => .ok t
  | 0, _, some _ => .error .fuel
  | n + 1, t, some res => do
    let (next, t) ← moveRecord hashsize res t
    moveChain hashsize n t next

/-- `RebuildTable`. Without memory for `tails` and the new `resources`, it changes nothing. -/
def rebuildTable (mem : Bool) (client : Nat) (s : State) : Exec State :=
  if ¬ mem then .ok s
  else do
    let rrec := s.clientTable client
    let j := 2 * rrec.resources.length
    let t ← rrec.resources.foldlM (moveChain (rrec.hashsize + 1) s.records.next)
      { resources := List.replicate j none, tails := (List.range j).map .head, records := s.records }
    .ok { s.modifyClient client ({ · with resources := t.resources, hashsize := rrec.hashsize + 1 }) with
      records := t.records }

/-- The first part of `AddResource`. -/
def growTable (mem : Bool) (client : Nat) (s : State) : Exec State :=
  if (s.clientTable client).elements ≥ 4 * (s.clientTable client).resources.length ∧
      (s.clientTable client).hashsize < maxHashSize then
    rebuildTable mem client s
  else .ok s

/-- `AddResource`, with the memory for a larger table and for the record. -/
def addResource (tableMem recMem : Bool) (id : AuID) (type : ResType) (value : Pointer) (s : State) : Exec State :=
  let client := clientId id
  if ¬ s.inUse client then .ok s
  else do
    let s ← growTable tableMem client s
    let head := s.bucket id
    if ¬ recMem then .ok (s.push .addResourceDelete)
    else do
      let first ← s.readSlot client (.head head)
      let res := s.records.next
      let s ← ({ s with records := s.records.alloc ⟨⟨id, type, value⟩, first⟩ }).writeSlot client (.head head) (some res)
      let s := s.modifyClient client fun rrec =>
        { rrec with
          elements := rrec.elements + 1
          expectID := if id &&& serverBit = 0 ∧ id ≥ rrec.expectID then id + 1 else rrec.expectID }
      .ok (s.note (.added res ⟨id, type, value⟩))

/-! ### Lookup -/

def lookupIDByType (id : AuID) (type : ResType) (s : State) : Exec Pointer :=
  if ¬ s.inUse (clientId id) then .ok 0
  else do
    match ← s.search (clientId id) (fun r => r.id = id ∧ r.type = type) (.head (s.bucket id)) with
    | none => .ok 0
    | some (_, _, res) => .ok res.item.value

def changeResourceValue (id : AuID) (type : ResType) (value : Pointer) (s : State) : Exec (Bool × State) :=
  if ¬ s.inUse (clientId id) then .ok (false, s)
  else do
    match ← s.search (clientId id) (fun r => r.id = id ∧ r.type = type) (.head (s.bucket id)) with
    | none => .ok (false, s)
    | some (_, p, _) =>
      .ok (true, { s with records := s.records.modify p fun res => { res with item := { res.item with value } } }.note
        (.changed id type value))

/-! ### Freeing -/

/-- The start of `FreeResource`. -/
def freeResource (id : AuID) (skipDeleteFuncType : ResType) (s : State) : State :=
  if s.inUse (clientId id) then
    s.push (.freeResource
      { id, skipDeleteFuncType, head := s.bucket id, prev := .head (s.bucket id), gotOne := false })
  else { s with exited := true }

/-- The loop of `FreeResource`, up to the next record with the id. -/
def freeResourceLoop (l : FreeLoop) (stack : List Frame) (s : State) : Exec State := do
  match ← s.search (clientId l.id) (·.id = l.id) l.prev with
  | none =>
    if l.gotOne then .ok ({ s with stack }.note (.returned (.freeResource l.id l.skipDeleteFuncType)))
    else .ok { s with exited := true }
  | some (prev, p, res) => do
    let s ← s.writeSlot (clientId l.id) prev res.next
    let s := s.modifyClient (clientId l.id) fun rrec => { rrec with elements := rrec.elements - 1 }
    if res.item.type ≠ l.skipDeleteFuncType then
      let s := s.note (.taken (.freeResource l.id l.skipDeleteFuncType) p (some res.item))
      .ok { s with stack :=
        .freeResourceDelete { l with prev } p (s.clientTable (clientId l.id)).elements :: stack }
    else do
      let s ← (s.note (.taken (.freeResource l.id l.skipDeleteFuncType) p none)).free p
      .ok { s with stack := .freeResource { l with prev, gotOne := true } :: stack }

/-- A delete function returns to `FreeResource`. -/
def freeResourceReturn (l : FreeLoop) (res : ResourcePtr) (elements : Int) (stack : List Frame) (s : State) :
    Exec State := do
  let s ← s.free res
  let prev := if (s.clientTable (clientId l.id)).elements ≠ elements then .head l.head else l.prev
  .ok { s with stack := .freeResource { l with prev, gotOne := true } :: stack }

def freeResourceByType (id : AuID) (type : ResType) (skipFree : Bool) (s : State) : Exec State :=
  if ¬ s.inUse (clientId id) then .ok s
  else do
    match ← s.search (clientId id) (fun r => r.id = id ∧ r.type = type) (.head (s.bucket id)) with
    | none => .ok s
    | some (prev, p, res) => do
      let s ← s.writeSlot (clientId id) prev res.next
      if ¬ skipFree then
        .ok ((s.note (.taken (.freeResourceByType id type skipFree) p (some res.item))).push
          (.freeResourceByTypeDelete p))
      else (s.note (.taken (.freeResourceByType id type skipFree) p none)).free p

/-- The loop of `FreeClientResources`: the next record of a chain, or the next chain, or the end. -/
def freeClientResourcesLoop (client j : Nat) (stack : List Frame) (s : State) : Exec State :=
  if j < (s.clientTable client).resources.length then do
    match ← s.readSlot client (.head j) with
    | none => .ok { s with stack := .freeClientResources client (j + 1) :: stack }
    | some this => do
      let res ← Exec.deref (s.records.get this)
      let s ← s.writeSlot client (.head j) res.next
      let s := s.note (.taken (.freeClientResources client) this (some res.item))
      .ok { s with stack := .freeClientResourcesDelete client j this :: stack }
  else
    .ok ({ s.modifyClient client ({ · with resources := [] }) with stack }.note (.returned (.freeClientResources client)))

/-! ### Runs -/

inductive Input where
  | initClientResources (client : Nat)
  | addResource (tableMem recMem : Bool) (id : AuID) (type : ResType) (value : Pointer)
  | changeResourceValue (id : AuID) (type : ResType) (value : Pointer)
  | freeResource (id : AuID) (skipDeleteFuncType : ResType)
  | freeResourceByType (id : AuID) (type : ResType) (skipFree : Bool)
  | freeClientResources (client : Nat)
  | continues
  | deleteReturns
deriving DecidableEq, Repr

/-- A delete function returns. -/
def deleteReturns (s : State) : Exec State :=
  match s.stack with
  | .addResourceDelete :: stack => .ok { s with stack }
  | .freeResourceDelete l res elements :: stack => freeResourceReturn l res elements stack s
  | .freeResourceByTypeDelete res :: stack => ({ s with stack }).free res
  | .freeClientResourcesDelete client j this :: stack => do
    let s ← s.free this
    .ok { s with stack := .freeClientResources client j :: stack }
  | _ => .ok s

/-- The loop that is on top goes on. -/
def continues (s : State) : Exec State :=
  match s.stack with
  | .freeResource l :: stack => freeResourceLoop l stack s
  | .freeClientResources client j :: stack => freeClientResourcesLoop client j stack s
  | _ => .ok s

def step (s : State) : Input → Exec State
  | .initClientResources client => .ok (initClientResources client s)
  | .addResource tableMem recMem id type value => addResource tableMem recMem id type value s
  | .changeResourceValue id type value => (·.2) <$> changeResourceValue id type value s
  | .freeResource id skipDeleteFuncType => .ok (freeResource id skipDeleteFuncType s)
  | .freeResourceByType id type skipFree => freeResourceByType id type skipFree s
  | .freeClientResources client => .ok (s.push (.freeClientResources client 0))
  | .continues => continues s
  | .deleteReturns => deleteReturns s

/-- A frame that is in a delete function. -/
def Frame.inDelete : Frame → Bool
  | .freeResource _ | .freeClientResources .. => false
  | _ => true

/-- What can happen: outside of a loop, the program or a delete function calls an operation. A delete function does
not add resources, and does not free a whole client. The index of a client is given out when it is not in use, and
its resources are freed once. -/
def Allowed (s : State) (r : Input) : Bool :=
  ! s.exited &&
  match r with
  | .initClientResources client => s.stack.isEmpty && decide (client < 128) && ! s.inUse client
  | .addResource .. => s.stack.isEmpty
  | .freeClientResources client => s.stack.isEmpty && s.inUse client
  | .changeResourceValue .. | .freeResource .. | .freeResourceByType .. => s.stack.all (·.inDelete)
  | .continues => s.stack.head?.any (! ·.inDelete)
  | .deleteReturns => s.stack.head?.any (·.inDelete)

end Nas.ResourceTable
