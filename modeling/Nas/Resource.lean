import Nas.Audio

/-!
# The resource table

What clients create is known by 32-bit ids. Each client has a hash table of its own for the ids in its
range (`resource.c`); an id can stand in it more than once, also with different types, and the record
that was added last is found first.
-/

namespace Nas

inductive ResourceType where
  | auComponentType
  | auFlowType
deriving DecidableEq, Repr

/-- `ResourceRec`. `value` is the pointer. -/
structure Resource where
  id : AuID
  type : ResourceType
  value : Nat
deriving DecidableEq, Repr

/-- `ClientResourceRec` of a client in use: its chains, and log₂ of their number. -/
structure ClientResource where
  resources : List (List Resource)
  elements : Nat
  hashsize : Nat
deriving DecidableEq, Repr

/-- `clientTable`: `none` for a client that has no buckets. -/
abbrev ClientTable := Nat → Option ClientResource

def initBuckets : Nat := 64
def initHashSize : Nat := 6
def maxHashSize : Nat := 11

/-- `CLIENT_ID`. -/
def clientId (id : AuID) : Nat := id / 2 ^ 22 % 2 ^ 7

/-- `Hash`, of an id less its client bits. Other sizes do not occur. -/
def hash (hashsize : Nat) (id : AuID) : Nat :=
  let id := id % 2 ^ 22
  match hashsize with
  | 6 => (id ^^^ id >>> 6 ^^^ id >>> 12) % 2 ^ 6
  | 7 => (id ^^^ id >>> 7 ^^^ id >>> 13) % 2 ^ 7
  | 8 => (id ^^^ id >>> 8 ^^^ id >>> 16) % 2 ^ 8
  | 9 => (id ^^^ id >>> 9) % 2 ^ 9
  | 10 => (id ^^^ id >>> 10) % 2 ^ 10
  | _ => (id ^^^ id >>> 11) % 2 ^ 11

namespace ClientResource
variable (c : ClientResource)

/-- The chain of an id. -/
def chain (id : AuID) : List Resource := c.resources.getD (hash c.hashsize id) []

def modifyChain (id : AuID) (f : List Resource → List Resource) : ClientResource :=
  { c with resources := c.resources.modify (hash c.hashsize id) f }

/-- `RebuildTable`: twice as many chains, in which the records keep their order. -/
def rebuildTable : ClientResource :=
  { c with
    resources := (List.range (2 * c.resources.length)).map fun j =>
      c.resources.flatten.filter fun r => hash (c.hashsize + 1) r.id = j
    hashsize := c.hashsize + 1 }

/-- The first part of `AddResource`, with the memory for a larger table. -/
def grow (mem : Bool) : ClientResource :=
  if c.elements ≥ 4 * c.resources.length ∧ c.hashsize < maxHashSize ∧ mem then c.rebuildTable else c

/-- The second part, once there is a record. -/
def add (r : Resource) : ClientResource :=
  { c.modifyChain r.id (r :: ·) with elements := c.elements + 1 }

end ClientResource

/-- `InitClientResources`. -/
def initClientResources : ClientResource :=
  { resources := List.replicate initBuckets [], elements := 0, hashsize := initHashSize }

def lookupIDByType (t : ClientTable) (id : AuID) (type : ResourceType) : Option Nat :=
  ((t (clientId id)).bind fun c => (c.chain id).find? fun r => r.id = id ∧ r.type = type).map (·.value)

/-- The records `FreeResource` takes out of the table, of whatever type, and the table without them. -/
def takeResource (t : ClientTable) (id : AuID) : List Resource × ClientTable :=
  match t (clientId id) with
  | none => ([], t)
  | some c =>
    let rs := (c.chain id).filter (·.id = id)
    (rs, Function.update t (clientId id) (some
      { c.modifyChain id (·.filter (·.id ≠ id)) with elements := c.elements - rs.length }))

/-- The records of a client in the order in which `FreeClientResources` deletes them, and the table
without the client. -/
def takeClientResources (t : ClientTable) (client : Nat) : List Resource × ClientTable :=
  (((t client).map (·.resources.flatten)).getD [], Function.update t client none)

end Nas
