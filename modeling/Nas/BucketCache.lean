import Nas.Attributes
import Nas.Reply
import Mathlib.Data.List.Nodup

/-!
# The client's cache of bucket attributes

`bcache.c` keeps the attributes of buckets that a program has seen, for each of its connections, and never asks for
them again: `AuGetBucketAttributes` answers from there. Structures are blocks of memory with pointers to the texts of
descriptions, and a read of what is freed is a fault. The records of the two linked lists are elements of lists here.

What a cache may answer is what the server would: `Transparent`. That depends on nobody changing the attributes of
buckets, and `compileInputs` does: an import of a device sets the rate of what it finds under the id, be it a bucket
(`transparent_of_kept`, `stale_rate`).
-/

namespace Nas.BucketCache

/-! ### Attributes -/

/-- An `AuBucketAttributes` less the text of the description. -/
structure Attributes where
  valueMask : Nat
  changableMask : Nat
  id : AuID
  kind : Nat
  use : Nat
  format : Nat
  numTracks : Nat
  access : Nat
  descriptionType : Nat
  descriptionLen : Nat
  sampleRate : Nat
  numSamples : Nat
deriving DecidableEq, Repr

def auCompCommonDescriptionMask : Nat := 2 ^ 6

/-- The attributes of a reply, and the text behind them. -/
structure Reply where
  attributes : Attributes
  text : List UInt8
  len : attributes.descriptionLen = text.length
  described : attributes.valueMask &&& auCompCommonDescriptionMask ≠ 0
deriving DecidableEq

/-- What a program gets to see of them. -/
def Reply.content (rep : Reply) : Attributes × List UInt8 := (rep.attributes, rep.text)

/-! ### The server -/

/-- What a component is made with besides the fields of `Component`. -/
structure Description where
  valueMask : Nat
  changableMask : Nat
  use : Nat
  type : Nat
  string : List UInt8
  described : valueMask &&& auCompCommonDescriptionMask ≠ 0

/-- A server, with the descriptions of its components. -/
structure Host where
  server : Server
  description : ComponentPtr → Description

/-- `xferBucketAttributes`. The rate is sent as a `CARD16`. -/
def xferBucketAttributes (c : Component) (d : Description) : Reply where
  attributes := {
    valueMask := d.valueMask, changableMask := d.changableMask, id := c.id, kind := c.kind, use := d.use
    format := c.format, numTracks := c.numTracks, access := c.access, descriptionType := d.type
    descriptionLen := d.string.length, sampleRate := c.sampleRate % 2 ^ 16, numSamples := c.numSamples }
  text := d.string
  len := rfl
  described := d.described

/-- `ProcAuGetBucketAttributes`, with its reply, if it is not an error. -/
def Host.procAuGetBucketAttributes (h : Host) (id : AuID) : Exec (Option Reply) :=
  match lookupIDByType h.server.clientTable id .auComponentType with
  | none => .ok none
  | some p => do
    let c ← Exec.deref (h.server.comps p)
    .ok (some (xferBucketAttributes c (h.description p)))

/-- What becomes of `c->list`. `selects` is what `AuMatchAttributes` makes of the request. -/
def listed (client : Nat) (selects : Component → Description → Bool) (c : Component) (d : Description) : Bool :=
  !c.destroyed && (clientId c.id == client || c.access &&& auAccessListMask != 0) && selects c d

/-- `ProcAuListBuckets` -/
def Host.procAuListBuckets (h : Host) (fuel client : Nat) (selects : Component → Description → Bool) :
    Exec (List Reply) := do
  let ps ← LinkedList.walk h.server.liveComponent h.server.compLinks fuel h.server.auBuckets
  .ok (ps.filterMap fun p => (h.server.comps p).bind fun c =>
    if listed client selects c (h.description p) then some (xferBucketAttributes c (h.description p)) else none)

/-! ### Memory of the program -/

/-- An `AuBucketAttributes` in memory. `data` is the pointer to the text. -/
structure Record where
  attributes : Attributes
  data : Option Nat
deriving DecidableEq, Repr

/-- What is allocated: some structures, or a text with its NUL. -/
inductive Block where
  | attributes (records : List Record)
  | text (bytes : List UInt8)
deriving DecidableEq, Repr

abbrev Memory := Heap Block

/-- The structure at `p[i]`. -/
def record (m : Memory) (p i : Nat) : Exec Record :=
  match m.get p with
  | some (.attributes rs) => Exec.deref rs[i]?
  | _ => .error .fault

/-- So many bytes from `p` on. -/
def bytes (m : Memory) (p n : Nat) : Exec (List UInt8) :=
  match m.get p with
  | some (.text t) => if n ≤ t.length then .ok (t.take n) else .error .fault
  | _ => .error .fault

/-- `Aufree` -/
def aufree (p : Nat) (m : Memory) : Exec Memory := if m.live p then .ok (m.free p) else .error .fault

def copyBucketAttributes (p i : Nat) (m : Memory) : Exec (Nat × Memory) := do
  let r ← record m p i
  match r.data with
  | none => .ok (m.next, m.alloc (.attributes [r]))
  | some d => do
    let t ← bytes m d (r.attributes.descriptionLen + 1)
    let m₁ := m.alloc (.attributes [r])
    .ok (m.next, (m₁.alloc (.text t)).modify m.next fun _ => .attributes [{ r with data := some m₁.next }])

/-- The loop of `AuFreeBucketAttributes`. -/
def freeDescriptions (p : Nat) : (num i : Nat) → Memory → Exec Memory
  | 0, _, m => .ok m
  | num + 1, i, m => do
    let r ← record m p i
    let m ← (match r.data with
      | some d => aufree d m
      | none => .ok m)
    freeDescriptions p num (i + 1) m

def auFreeBucketAttributes (num p : Nat) (m : Memory) : Exec Memory :=
  if num = 0 then .ok m
  else do
    let m ← freeDescriptions p num 0 m
    aufree p m

/-! ### The cache -/

/-- A `ServerRec`. `cache` are the `attr`s of its `AttrRec`s. -/
structure ServerRec where
  aud : Nat
  cache : List Nat
deriving DecidableEq, Repr

/-- The memory of a program and its cache. `held` are the structures that callers have got and have not freed: where
they are, and how many. -/
structure Process where
  mem : Memory := .empty
  servers : List ServerRec := []
  held : List (Nat × Nat) := []

/-- The loop over a list: what is in front of the first record that is wanted, that record, and what is behind. -/
def search {α : Type} (wanted : α → Exec Bool) : List α → Exec (Option (List α × α × List α))
  | [] => .ok none
  | a :: l => do
    if ← wanted a then .ok (some ([], a, l))
    else do
      match ← search wanted l with
      | none => .ok none
      | some (pre, b, post) => .ok (some (a :: pre, b, post))

/-- `s->aud == aud` -/
def sameAud (aud : Nat) (s : ServerRec) : Exec Bool := .ok (s.aud == aud)

/-- `AuBucketIdentifier(e->attr) == bucket` -/
def sameBucket (m : Memory) (bucket : AuID) (e : Nat) : Exec Bool := do
  let r ← record m e 0
  .ok (r.attributes.id == bucket)

/-- `_AuAddToBucketCache`, for the structure at `p[i]`. -/
def auAddToBucketCache (aud p i : Nat) (x : Process) : Exec Process := do
  -- a new record of the server goes in front of the others
  let (pre, s, post) := (← search (sameAud aud) x.servers).getD ([], ⟨aud, []⟩, x.servers)
  let r ← record x.mem p i
  match ← search (sameBucket x.mem r.attributes.id) s.cache with
  | some _ => .ok { x with servers := pre ++ s :: post }
  | none => do
    let (a, mem) ← copyBucketAttributes p i x.mem
    .ok { x with mem, servers := pre ++ { s with cache := a :: s.cache } :: post }

/-- `_AuLookupBucketInCache`: a copy of the entry. -/
def auLookupBucketInCache (aud : Nat) (bucket : AuID) (x : Process) : Exec (Option (Nat × Memory)) := do
  match ← search (sameAud aud) x.servers with
  | none => .ok none
  | some (_, s, _) => do
    match ← search (sameBucket x.mem bucket) s.cache with
    | none => .ok none
    | some (_, e, _) => some <$> copyBucketAttributes e 0 x.mem

/-- `_AuRemoveFromBucketCache` -/
def auRemoveFromBucketCache (aud : Nat) (bucket : AuID) (x : Process) : Exec Process := do
  match ← search (sameAud aud) x.servers with
  | none => .ok x
  | some (pre, s, post) => do
    match ← search (sameBucket x.mem bucket) s.cache with
    | none => .ok x
    | some (pre', e, post') => do
      let mem ← auFreeBucketAttributes 1 e x.mem
      .ok { x with mem, servers := pre ++ { s with cache := pre' ++ post' } :: post }

/-- The loop of `_AuFreeBucketCache`. -/
def freeEntries : List Nat → Memory → Exec Memory
  | [], m => .ok m
  | e :: es, m => do
    let m ← auFreeBucketAttributes 1 e m
    freeEntries es m

/-- `_AuFreeBucketCache` -/
def auFreeBucketCache (aud : Nat) (x : Process) : Exec Process := do
  match ← search (sameAud aud) x.servers with
  | none => .ok x
  | some (pre, s, post) => do
    let mem ← freeEntries s.cache x.mem
    .ok { x with mem, servers := pre ++ post }

/-! ### Requests of the program -/

/-- The attributes of a reply as `AuGetBucketAttributes` puts them into memory: no text is allocated for an empty one. -/
def readAttributes (rep : Reply) (m : Memory) : Nat × Memory :=
  let m₁ := m.alloc (.attributes [⟨rep.attributes, none⟩])
  if rep.attributes.valueMask &&& auCompCommonDescriptionMask ≠ 0 ∧ rep.attributes.descriptionLen ≠ 0 then
    (m.next, (m₁.alloc (.text (rep.text ++ [0]))).modify m.next fun _ => .attributes [⟨rep.attributes, some m₁.next⟩])
  else (m.next, m₁)

/-- `AuGetBucketAttributes`. When an error comes in place of the reply, what is read is none. -/
def auGetBucketAttributes (aud : Nat) (bucket : AuID) (reply : Exec (Option Reply)) (x : Process) :
    Exec (Nat × Process) := do
  match ← auLookupBucketInCache aud bucket x with
  | some (attr, mem) => .ok (attr, { x with mem, held := (attr, 1) :: x.held })
  | none => do
    let rep ← Exec.deref (← reply)
    let (attr, mem) := readAttributes rep x.mem
    let x ← auAddToBucketCache aud attr 0 { x with mem, held := (attr, 1) :: x.held }
    .ok (attr, x)

/-- The loop of `AuListBuckets` that reads the replies: here an empty text is allocated, too. -/
def readList : List Reply → Memory → List Record × Memory
  | [], m => ([], m)
  | rep :: reps, m =>
    if rep.attributes.valueMask &&& auCompCommonDescriptionMask ≠ 0 then
      let (rs, m') := readList reps (m.alloc (.text (rep.text ++ [0])))
      (⟨rep.attributes, some m.next⟩ :: rs, m')
    else
      let (rs, m') := readList reps m
      (⟨rep.attributes, none⟩ :: rs, m')

/-- The loop that adds them to the cache. -/
def addList (aud list : Nat) : (num i : Nat) → Process → Exec Process
  | 0, _, x => .ok x
  | num + 1, i, x => do
    let x ← auAddToBucketCache aud list i x
    addList aud list num (i + 1) x

/-- `AuListBuckets` -/
def auListBuckets (aud : Nat) (reply : Exec (List Reply)) (x : Process) : Exec (Option Nat × Process) := do
  let reps ← reply
  if reps = [] then .ok (none, x)
  else do
    let list := x.mem.next
    let (rs, m) := readList reps (x.mem.alloc (.attributes []))
    let mem := m.modify list fun _ => .attributes rs
    let x ← addList aud list reps.length 0 { x with mem, held := (list, reps.length) :: x.held }
    .ok (some list, x)

/-! ### Programs and servers -/

/-- The server behind an `AuServer`, and the number of the client there. -/
structure Connection where
  host : Nat
  client : Nat
deriving DecidableEq, Repr

structure World where
  host : Nat → Host
  connection : Nat → Option Connection := fun _ => none
  process : Process := {}

/-- What happens: a call of the program, or a request or a tick that is nothing to its cache, whoever it is from. -/
inductive Call where
  | openServer (aud : Nat) (c : Connection)
  | request (i : Nat) (env : Env) (r : Request)
  | tick (i : Nat) (env : Env) (t : Tick)
  | createBucket (i : Nat) (env : Env) (id : AuID) (a : AuBucketAttributes) (d : Description)
  | getAttributes (aud : Nat) (bucket : AuID)
  | listBuckets (fuel aud : Nat) (selects : Component → Description → Bool)
  | destroyBucket (env : Env) (aud : Nat) (bucket : AuID)
  | closeServer (env : Env) (aud : Nat)
  /-- `AuFreeBucketAttributes` of a structure that is held -/
  | free (k : Nat)

namespace World
variable (w : World)

def setServer (i : Nat) (s : Server) : World :=
  { w with host := Function.update w.host i { w.host i with server := s } }

/-- A request at a server. -/
def dispatch (i : Nat) (env : Env) (r : Request) : Exec World := do
  let (_, s) ← Nas.dispatch env (w.host i).server r
  .ok (w.setServer i s)

/-- The bucket gets the next component. -/
def createBucket (i : Nat) (env : Env) (id : AuID) (a : AuBucketAttributes) (d : Description) : Exec World := do
  let h := w.host i
  let (_, s) ← Nas.dispatch env h.server (.createBucket id true true { a with descriptionLen := d.string.length })
  let host : Host := ⟨s, Function.update h.description h.server.nextComponent d⟩
  .ok { w with host := Function.update w.host i host }

/-- `AuGetBucketAttributes` -/
def getAttributes (aud : Nat) (bucket : AuID) : Exec (Nat × World) := do
  let c ← Exec.deref (w.connection aud)
  let (p, process) ← auGetBucketAttributes aud bucket ((w.host c.host).procAuGetBucketAttributes bucket) w.process
  .ok (p, { w with process })

/-- `AuDestroyBucket` -/
def destroyBucket (env : Env) (aud : Nat) (bucket : AuID) : Exec World := do
  let c ← Exec.deref (w.connection aud)
  let process ← auRemoveFromBucketCache aud bucket w.process
  let w := { w with process }
  w.dispatch c.host env (.destroyBucket c.client bucket)

/-- `AuCloseServer` -/
def closeServer (env : Env) (aud : Nat) : Exec World := do
  let c ← Exec.deref (w.connection aud)
  let process ← auFreeBucketCache aud w.process
  let w := { w with process, connection := Function.update w.connection aud none }
  w.dispatch c.host env (.closeClient c.client)

/-- A caller frees what it has got. -/
def free (k : Nat) : Exec World := do
  let (p, num) ← Exec.deref w.process.held[k]?
  let mem ← auFreeBucketAttributes num p w.process.mem
  .ok { w with process := { w.process with mem, held := w.process.held.eraseIdx k } }

end World

def step (w : World) : Call → Exec World
  | .openServer aud c => .ok { w with connection := Function.update w.connection aud (some c) }
  | .request i env r => w.dispatch i env r
  | .tick i env t => do
    let s ← auProcessData env t (w.host i).server
    .ok (w.setServer i s)
  | .createBucket i env id a d => w.createBucket i env id a d
  | .getAttributes aud bucket => do
    let (_, w) ← w.getAttributes aud bucket
    .ok w
  | .listBuckets fuel aud selects => do
    let c ← Exec.deref (w.connection aud)
    let (_, process) ← auListBuckets aud ((w.host c.host).procAuListBuckets fuel c.client selects) w.process
    .ok { w with process }
  | .destroyBucket env aud bucket => w.destroyBucket env aud bucket
  | .closeServer env aud => w.closeServer env aud
  | .free k => w.free k

/-! ### What the cache is for -/

/-- The text a structure has a pointer to. -/
def textOf (m : Memory) (r : Record) : List UInt8 :=
  match r.data.bind m.get with
  | some (.text t) => t.take r.attributes.descriptionLen
  | _ => []

/-- What a program reads at `p[i]`. -/
def view (m : Memory) (p i : Nat) : Option (Attributes × List UInt8) :=
  match m.get p with
  | some (.attributes rs) => (rs[i]?).map fun r => (r.attributes, textOf m r)
  | _ => none

/-- The blocks of the structures at `p`. -/
def footprint (m : Memory) (p : Nat) : List Nat :=
  match m.get p with
  | some (.attributes rs) => p :: rs.filterMap (·.data)
  | _ => [p]

/-- All that is cached for a connection. -/
def Process.entries (x : Process) (aud : Nat) : List (Attributes × List UInt8) :=
  ((x.servers.filter (·.aud = aud)).flatMap (·.cache)).filterMap fun p => view x.mem p 0

/-- `AuGetBucketAttributes` returns what the server's reply would carry now, in storage of its own; nothing is left of
a bucket that is destroyed, or of a connection that is closed. -/
structure Transparent (w : World) : Prop where
  get : ∀ aud c bucket rep, w.connection aud = some c →
    (w.host c.host).procAuGetBucketAttributes bucket = .ok (some rep) →
    ∃ p w', w.getAttributes aud bucket = .ok (p, w') ∧ view w'.process.mem p 0 = some rep.content
  owned : ∀ k < w.process.held.length, ∃ w', w.free k = .ok w' ∧ w'.process.servers = w.process.servers ∧
    ∀ s ∈ w.process.servers, ∀ e ∈ s.cache, ∀ q ∈ footprint w.process.mem e,
      w'.process.mem.get q = w.process.mem.get q
  destroyed : ∀ env aud bucket w', w.destroyBucket env aud bucket = .ok w' → ∀ s ∈ w'.process.servers, s.aud = aud →
    ∀ e ∈ s.cache, ∃ v, view w'.process.mem e 0 = some v ∧ v.1.id ≠ bucket
  closed : ∀ env aud w', w.closeServer env aud = .ok w' → ∀ s ∈ w'.process.servers, s.aud ≠ aud

/-- An id that no component of a server has, and of which no connection to it has anything in its cache. -/
structure FreshId (w : World) (i : Nat) (id : AuID) : Prop where
  ne_zero : id ≠ 0
  table : lookupIDByType (w.host i).server.clientTable id .auComponentType = none
  comps : ∀ p < (w.host i).server.nextComponent, ((w.host i).server.comps p).all (·.id ≠ id)
  cached : ∀ s ∈ w.process.servers, (w.connection s.aud).any (·.host = i) → ∀ e ∈ w.process.entries s.aud, e.1.id ≠ id

/-- What a call is given: addresses of connections are not in use, and neither are the ids of new buckets. An id is
given out once (`_AuAllocID`), and again only to another client when the first one has closed down, which destroys its
buckets. -/
def Allowed (w : World) : Call → Prop
  | .openServer aud _ => w.connection aud = none
  | .request _ _ r => r.Ordinary
  | .createBucket i _ id a _ => a.id = id ∧ FreshId w i id
  | _ => True

/-- The imports of a device that a compilation gets to ask for the rate that is in the cache, where they lead to
something that is. -/
def Kept (w : World) : Call → Prop
  | .request i _ (.setElements r) =>
    ∀ q rate, SetsRate (fun id => lookupIDByType (w.host i).server.clientTable id .auComponentType) r.elements q rate →
      ∀ s ∈ w.process.servers, (w.connection s.aud).any (·.host = i) → ∀ e ∈ w.process.entries s.aud,
        lookupIDByType (w.host i).server.clientTable e.1.id .auComponentType = some q → rate % 2 ^ 16 = e.1.sampleRate
  | _ => True

/-! ### Structures in memory -/

section Memory
variable {m m' m'' : Memory} {p q i n : Nat} {rs : List Record} {r : Record} {s : Nat × Nat} {l l' : List (Nat × Nat)}

/-- `s.2` structures with their texts. -/
def Sound (m : Memory) (s : Nat × Nat) : Prop :=
  ∃ rs, m.get s.1 = some (.attributes rs) ∧ rs.length = s.2 ∧
    ∀ r ∈ rs, ∀ d, r.data = some d → ∃ t, m.get d = some (.text t) ∧ r.attributes.descriptionLen < t.length

/-- No two structures share a block. -/
structure Separate (m : Memory) (l : List (Nat × Nat)) : Prop where
  sound : ∀ s ∈ l, Sound m s
  nodup : (l.flatMap fun s => footprint m s.1).Nodup

theorem footprint_eq (h : m.get p = some (.attributes rs)) : footprint m p = p :: rs.filterMap (·.data) := by
  unfold footprint
  rw [h]

theorem mem_footprint : p ∈ footprint m p := by
  unfold footprint
  split
  · exact List.mem_cons_self
  · exact List.mem_cons_self

theorem data_mem_footprint (h : m.get p = some (.attributes rs)) (hr : r ∈ rs) (hq : r.data = some q) :
    q ∈ footprint m p := by
  rw [footprint_eq h]
  exact List.mem_cons_of_mem _ (List.mem_filterMap.2 ⟨r, hr, hq⟩)

/-- What is in other blocks does not matter for a structure. -/
theorem footprint_congr (h : ∀ q ∈ footprint m p, m'.get q = m.get q) : footprint m' p = footprint m p := by
  unfold footprint
  rw [h p mem_footprint]

theorem Sound.congr (hs : Sound m s) (h : ∀ q ∈ footprint m s.1, m'.get q = m.get q) : Sound m' s := by
  obtain ⟨rs, hget, hlen, htexts⟩ := hs
  refine ⟨rs, by rw [h s.1 mem_footprint, hget], hlen, fun r hr d hd => ?_⟩
  rw [h d (data_mem_footprint hget hr hd)]
  exact htexts r hr d hd

theorem view_congr (h : ∀ q ∈ footprint m p, m'.get q = m.get q) : view m' p i = view m p i := by
  unfold view
  rw [h p mem_footprint]
  split
  · rename_i rs hget
    cases hr : rs[i]? with
    | none => rfl
    | some r =>
      have htext : textOf m' r = textOf m r := by
        unfold textOf
        cases hd : r.data with
        | none => rfl
        | some d => rw [Option.bind_some, Option.bind_some, h d (data_mem_footprint hget (List.mem_of_getElem? hr) hd)]
      rw [Option.map_some, Option.map_some, htext]
  · rfl

/-- Their blocks are there. -/
theorem Sound.live (hs : Sound m s) (hq : q ∈ footprint m s.1) : ∃ b, m.get q = some b := by
  obtain ⟨rs, hget, -, htexts⟩ := hs
  rw [footprint_eq hget] at hq
  rcases List.mem_cons.1 hq with rfl | hq
  · exact ⟨_, hget⟩
  · obtain ⟨r, hr, hd⟩ := List.mem_filterMap.1 hq
    obtain ⟨t, ht, -⟩ := htexts r hr q hd
    exact ⟨_, ht⟩

theorem Sound.lt_next (hs : Sound m s) (hq : q ∈ footprint m s.1) : q < m.next := by
  obtain ⟨b, hb⟩ := hs.live hq
  exact Heap.lt_next hb

theorem Sound.record (hs : Sound m s) (hi : i < s.2) : ∃ r rs, m.get s.1 = some (.attributes rs) ∧ r ∈ rs ∧
    rs[i]? = some r ∧ record m s.1 i = .ok r ∧ view m s.1 i = some (r.attributes, textOf m r) := by
  obtain ⟨rs, hget, hlen, -⟩ := hs
  have hi : i < rs.length := by omega
  refine ⟨rs[i], rs, hget, List.getElem_mem hi, List.getElem?_eq_getElem hi, ?_, ?_⟩
  · rw [BucketCache.record, hget]
    dsimp only
    rw [List.getElem?_eq_getElem hi, Exec.deref_some]
  · rw [view, hget]
    dsimp only
    rw [List.getElem?_eq_getElem hi, Option.map_some]

namespace Separate

theorem perm (h : Separate m l) (hp : l.Perm l') : Separate m l' where
  sound s hs := h.sound s (hp.mem_iff.2 hs)
  nodup := (hp.flatMap_right _).nodup_iff.1 h.nodup

theorem of_sublist (h : Separate m l) (hl : l'.Sublist l) : Separate m l' where
  sound s hs := h.sound s (hl.subset hs)
  nodup := h.nodup.sublist (hl.flatMap _)

theorem congr (h : Separate m l) (hm : ∀ s ∈ l, ∀ q ∈ footprint m s.1, m'.get q = m.get q) : Separate m' l where
  sound s hs := (h.sound s hs).congr (hm s hs)
  nodup := by
    have heq : (l.flatMap fun s => footprint m' s.1) = l.flatMap fun s => footprint m s.1 :=
      List.flatMap_congr fun s hs => footprint_congr (hm s hs)
    rw [heq]
    exact h.nodup

/-- Different structures are in different blocks. -/
theorem disjoint (h : Separate m (s :: l)) {s' : Nat × Nat} (hs' : s' ∈ l) (hq : q ∈ footprint m s'.1) :
    q ∉ footprint m s.1 := by
  have hnodup := h.nodup
  rw [List.flatMap_cons, List.nodup_append] at hnodup
  exact fun hq' => hnodup.2.2 q hq' q (List.mem_flatMap.2 ⟨s', hs', hq⟩) rfl

end Separate

/-- A structure in new blocks. -/
structure Made (m m' : Memory) (s : Nat × Nat) : Prop where
  old : ∀ q < m.next, m'.get q = m.get q
  fresh : ∀ q ∈ footprint m' s.1, m.next ≤ q
  nodup : (footprint m' s.1).Nodup
  sound : Sound m' s

theorem Made.view (h : Made m m' s) {s' : Nat × Nat} (hs' : Sound m s') : view m' s'.1 i = view m s'.1 i :=
  view_congr fun q hq => h.old q (hs'.lt_next hq)

theorem Separate.made (h : Separate m l) (hm : Made m m' s) : Separate m' (s :: l) := by
  have hold : ∀ s' ∈ l, ∀ q ∈ footprint m s'.1, m'.get q = m.get q := fun s' hs' q hq =>
    hm.old q ((h.sound s' hs').lt_next hq)
  have hl := h.congr hold
  refine ⟨List.forall_mem_cons.2 ⟨hm.sound, hl.sound⟩, ?_⟩
  rw [List.flatMap_cons, List.nodup_append]
  refine ⟨hm.nodup, hl.nodup, fun q hq q' hq' => ?_⟩
  obtain ⟨s', hs', hq'⟩ := List.mem_flatMap.1 hq'
  rw [footprint_congr (hold s' hs')] at hq'
  have hle := hm.fresh q hq
  have hlt := (h.sound s' hs').lt_next hq'
  omega

/-- A structure without a text. -/
theorem made_bare (hr : r.data = none) : Made m (m.alloc (.attributes [r])) (m.next, 1) ∧
    view (m.alloc (.attributes [r])) m.next 0 = some (r.attributes, []) := by
  have hnew : (m.alloc (.attributes [r])).get m.next = some (.attributes [r]) := by rw [Heap.get_alloc, if_pos rfl]
  have hfoot : footprint (m.alloc (.attributes [r])) m.next = [m.next] := by
    rw [footprint_eq hnew, List.filterMap_cons_none hr]
    rfl
  refine ⟨⟨fun q hq => ?_, fun q hq => ?_, ?_, [r], hnew, rfl, fun r' hr' d hd => ?_⟩, ?_⟩
  · rw [Heap.get_alloc, if_neg (Nat.ne_of_lt hq)]
  · rw [hfoot, List.mem_singleton] at hq
    exact hq.ge
  · rw [hfoot]
    exact List.nodup_singleton _
  · rw [List.mem_singleton.1 hr', hr] at hd
    cases hd
  · rw [view, hnew]
    dsimp only
    rw [List.getElem?_cons_zero, Option.map_some, textOf, hr]
    rfl

/-- A structure that is allocated, then its text, to which it gets a pointer. -/
theorem made_text {b : Block} {a : Attributes} {t : List UInt8} (ht : a.descriptionLen < t.length)
    (hm : m' = ((m.alloc b).alloc (.text t)).modify m.next fun _ => .attributes [⟨a, some (m.next + 1)⟩]) :
    Made m m' (m.next, 1) ∧ view m' m.next 0 = some (a, t.take a.descriptionLen) := by
  have hnew : m'.get m.next = some (.attributes [⟨a, some (m.next + 1)⟩]) := by
    rw [hm, Heap.get_modify_self, Heap.get_alloc, Heap.alloc_next, if_neg (Nat.ne_of_lt (Nat.lt_succ_self _)),
      Heap.get_alloc, if_pos rfl]
    rfl
  have htext : m'.get (m.next + 1) = some (.text t) := by
    rw [hm, Heap.get_modify, if_neg (Nat.succ_ne_self _), Heap.get_alloc, Heap.alloc_next, if_pos rfl]
  have hfoot : footprint m' m.next = [m.next, m.next + 1] := by
    rw [footprint_eq hnew]
    rfl
  refine ⟨⟨fun q hq => ?_, fun q hq => ?_, ?_, _, hnew, rfl, fun r' hr' d hd => ?_⟩, ?_⟩
  · rw [hm, Heap.get_modify, if_neg (Nat.ne_of_lt hq), Heap.get_alloc, Heap.alloc_next,
      if_neg (Nat.ne_of_lt (Nat.lt_succ_of_lt hq)), Heap.get_alloc, if_neg (Nat.ne_of_lt hq)]
  · rw [hfoot] at hq
    simp only [List.mem_cons, List.not_mem_nil, or_false] at hq
    omega
  · rw [hfoot]
    simp
  · rw [List.mem_singleton.1 hr'] at hd ⊢
    cases hd
    exact ⟨t, htext, ht⟩
  · rw [view, hnew]
    dsimp only
    rw [List.getElem?_cons_zero, Option.map_some, textOf, Option.bind_some, htext]

theorem copyBucketAttributes_spec (hs : Sound m s) (hi : i < s.2) : ∃ a m', copyBucketAttributes s.1 i m = .ok (a, m') ∧
    Made m m' (a, 1) ∧ view m' a 0 = view m s.1 i := by
  obtain ⟨r, rs, hget, hr, -, hrecord, hview⟩ := hs.record hi
  unfold copyBucketAttributes
  rw [hrecord, Exec.ok_bind, hview]
  cases hd : r.data with
  | none =>
    obtain ⟨hmade, hview'⟩ := made_bare (m := m) hd
    refine ⟨m.next, _, rfl, hmade, ?_⟩
    rw [hview', textOf, hd]
    rfl
  | some d =>
    obtain ⟨rs', hget', -, htexts⟩ := hs
    rw [hget, Option.some.injEq, Block.attributes.injEq] at hget'
    subst hget'
    obtain ⟨t, ht, hlen⟩ := htexts r hr d hd
    have hbytes : bytes m d (r.attributes.descriptionLen + 1) = .ok (t.take (r.attributes.descriptionLen + 1)) := by
      rw [bytes, ht]
      exact if_pos hlen
    dsimp only
    rw [hbytes, Exec.ok_bind]
    obtain ⟨hmade, hview'⟩ := made_text (m := m) (b := .attributes [r]) (a := r.attributes)
      (t := t.take (r.attributes.descriptionLen + 1)) (by rw [List.length_take]; omega) rfl
    refine ⟨m.next, _, rfl, hmade, ?_⟩
    refine hview'.trans ?_
    rw [textOf, hd, Option.bind_some, ht]
    dsimp only
    rw [List.take_take, Nat.min_eq_left (Nat.le_succ _)]

theorem readAttributes_spec (rep : Reply) (m : Memory) : ∃ p m', readAttributes rep m = (p, m') ∧ Made m m' (p, 1) ∧
    view m' p 0 = some rep.content := by
  unfold readAttributes
  dsimp only
  split
  · obtain ⟨hmade, hview⟩ := made_text (m := m) (b := .attributes [⟨rep.attributes, none⟩]) (a := rep.attributes)
      (t := rep.text ++ [0]) (by rw [rep.len, List.length_append]; exact Nat.lt_succ_self _) rfl
    refine ⟨m.next, _, rfl, hmade, hview.trans ?_⟩
    rw [rep.len, List.take_left]
    rfl
  · rename_i hempty
    have hlen : rep.text = [] := by
      rw [← List.length_eq_zero_iff, ← rep.len]
      by_contra hlen
      exact hempty ⟨rep.described, hlen⟩
    obtain ⟨hmade, hview⟩ := made_bare (m := m) (r := ⟨rep.attributes, none⟩) rfl
    refine ⟨m.next, _, rfl, hmade, hview.trans ?_⟩
    rw [Reply.content, hlen]

/-- The texts of a list are in new blocks, one behind the other. -/
theorem readList_spec (reps : List Reply) (m : Memory) : ∃ rs m', readList reps m = (rs, m') ∧
    (∀ q < m.next, m'.get q = m.get q) ∧ m.next ≤ m'.next ∧ rs.length = reps.length ∧
    (∀ q ∈ rs.filterMap (·.data), m.next ≤ q) ∧ (rs.filterMap (·.data)).Nodup ∧
    (∀ r ∈ rs, ∀ d, r.data = some d → ∃ t, m'.get d = some (.text t) ∧ r.attributes.descriptionLen < t.length) ∧
    rs.map (fun r => (r.attributes, textOf m' r)) = reps.map Reply.content := by
  induction reps generalizing m with
  | nil => exact ⟨[], m, rfl, fun _ _ => rfl, le_rfl, rfl, by simp, by simp, by simp, rfl⟩
  | cons rep reps ih =>
    obtain ⟨rs, m', he, hold, hle, hlen, hfresh, hnodup, htexts, hviews⟩ := ih (m.alloc (.text (rep.text ++ [0])))
    rw [Heap.alloc_next] at hold hle hfresh
    have htext : m'.get m.next = some (.text (rep.text ++ [0])) := by
      rw [hold m.next (Nat.lt_succ_self _), Heap.get_alloc, if_pos rfl]
    refine ⟨⟨rep.attributes, some m.next⟩ :: rs, m', ?_, fun q hq => ?_, (Nat.le_succ _).trans hle, by simp [hlen],
      fun q hq => ?_, ?_, fun r hr d hd => ?_, ?_⟩
    · unfold readList
      rw [if_pos rep.described, he]
    · rw [hold q (Nat.lt_succ_of_lt hq), Heap.get_alloc, if_neg (Nat.ne_of_lt hq)]
    · rcases List.mem_cons.1 hq with rfl | hq
      · exact le_rfl
      · exact (Nat.le_succ _).trans (hfresh q hq)
    · exact List.nodup_cons.2 ⟨fun h => absurd (hfresh _ h) (Nat.not_succ_le_self _), hnodup⟩
    · rcases List.mem_cons.1 hr with rfl | hr
      · cases hd
        exact ⟨_, htext, by rw [rep.len, List.length_append]; exact Nat.lt_succ_self _⟩
      · exact htexts r hr d hd
    · rw [List.map_cons, List.map_cons, hviews, textOf, Option.bind_some, htext]
      dsimp only
      rw [rep.len, List.take_left]
      rfl

/-- The structures of `AuListBuckets`. -/
theorem list_made (reps : List Reply) (m : Memory) : ∃ rs m₁, readList reps (m.alloc (.attributes [])) = (rs, m₁) ∧
    Made m (m₁.modify m.next fun _ => .attributes rs) (m.next, reps.length) ∧
    ∀ i, view (m₁.modify m.next fun _ => .attributes rs) m.next i = (reps[i]?).map Reply.content := by
  obtain ⟨rs, m₁, he, hold, hle, hlen, hfresh, hnodup, htexts, hviews⟩ := readList_spec reps (m.alloc (.attributes []))
  rw [Heap.alloc_next] at hold hle hfresh
  obtain ⟨m', hm'⟩ : ∃ m', m' = m₁.modify m.next fun _ => .attributes rs := ⟨_, rfl⟩
  refine ⟨rs, m₁, he, ?_⟩
  rw [← hm']
  have hnew : m'.get m.next = some (.attributes rs) := by
    rw [hm', Heap.get_modify_self, hold _ (Nat.lt_succ_self _), Heap.get_alloc, if_pos rfl]
    rfl
  have hother : ∀ q, q ≠ m.next → m'.get q = m₁.get q := fun q hq => by rw [hm', Heap.get_modify, if_neg hq]
  have hdata : ∀ r ∈ rs, ∀ d, r.data = some d → d ≠ m.next := fun r hr d hd => by
    have hle := hfresh d (List.mem_filterMap.2 ⟨r, hr, hd⟩)
    omega
  refine ⟨⟨fun q hq => ?_, fun q hq => ?_, ?_, rs, hnew, hlen, fun r hr d hd => ?_⟩, fun i => ?_⟩
  · rw [hother q (Nat.ne_of_lt hq), hold q (Nat.lt_succ_of_lt hq), Heap.get_alloc, if_neg (Nat.ne_of_lt hq)]
  · rw [footprint_eq hnew] at hq
    rcases List.mem_cons.1 hq with rfl | hq
    · exact le_rfl
    · exact (Nat.le_succ _).trans (hfresh q hq)
  · rw [footprint_eq hnew]
    exact List.nodup_cons.2 ⟨fun h => absurd (hfresh _ h) (Nat.not_succ_le_self _), hnodup⟩
  · rw [hother d (hdata r hr d hd)]
    exact htexts r hr d hd
  · rw [view, hnew]
    dsimp only
    rw [← List.getElem?_map, ← List.getElem?_map, ← hviews]
    congr 1
    refine List.map_congr_left fun r hr => ?_
    unfold textOf
    cases hd : r.data with
    | none => rfl
    | some d => rw [Option.bind_some, Option.bind_some, hother d (hdata r hr d hd)]

/-- The loop frees the texts of the structures from `i` on. -/
theorem freeDescriptions_spec (num i : Nat) (hget : m.get p = some (.attributes rs)) (hlen : i + num = rs.length)
    (hlive : ∀ q ∈ (rs.drop i).filterMap (·.data), m.live q) (hnodup : (p :: (rs.drop i).filterMap (·.data)).Nodup) :
    ∃ m', freeDescriptions p num i m = .ok m' ∧ ∀ q ∉ (rs.drop i).filterMap (·.data), m'.get q = m.get q := by
  induction num generalizing i m with
  | zero => exact ⟨m, rfl, fun _ _ => rfl⟩
  | succ num ih =>
    have hi : i < rs.length := by omega
    have hrecord : record m p i = .ok rs[i] := by
      rw [record, hget]
      dsimp only
      rw [List.getElem?_eq_getElem hi, Exec.deref_some]
    rw [List.drop_eq_getElem_cons hi] at hlive hnodup ⊢
    unfold freeDescriptions
    rw [hrecord, Exec.ok_bind]
    cases hd : rs[i].data with
    | none =>
      rw [List.filterMap_cons_none hd] at hlive hnodup ⊢
      exact ih (i + 1) hget (by omega) hlive hnodup
    | some d =>
      rw [List.filterMap_cons_some hd] at hlive hnodup ⊢
      obtain ⟨hp, hdrest⟩ := List.nodup_cons.1 hnodup
      obtain ⟨hd', hrest⟩ := List.nodup_cons.1 hdrest
      have hne : p ≠ d := fun h => hp (h ▸ List.mem_cons_self)
      dsimp only
      rw [aufree, if_pos (hlive d List.mem_cons_self), Exec.ok_bind]
      obtain ⟨m', hm', hold⟩ := ih (m := m.free d) (i + 1) (by rw [Heap.get_free, if_neg hne, hget]) (by omega)
        (fun q hq => by
          have hlive := hlive q (List.mem_cons_of_mem _ hq)
          rw [Heap.live, Heap.get_free, if_neg (by rintro rfl; exact hd' hq)]
          exact hlive)
        (List.nodup_cons.2 ⟨fun h => hp (List.mem_cons_of_mem _ h), hrest⟩)
      refine ⟨m', hm', fun q hq => ?_⟩
      rw [hold q fun h => hq (List.mem_cons_of_mem _ h), Heap.get_free,
        if_neg (by rintro rfl; exact hq List.mem_cons_self)]

/-- A structure is freed with its texts, and nothing else. -/
theorem auFreeBucketAttributes_spec (h : Separate m (s :: l)) (hs : s.2 ≠ 0) : ∃ m',
    auFreeBucketAttributes s.2 s.1 m = .ok m' ∧ (∀ s' ∈ l, ∀ q ∈ footprint m s'.1, m'.get q = m.get q) ∧
    Separate m' l := by
  have hsound := h.sound s List.mem_cons_self
  have hlive : ∀ q ∈ footprint m s.1, m.live q := fun q hq => by
    obtain ⟨b, hb⟩ := hsound.live hq
    rw [Heap.live, hb]
    rfl
  have hnodup : (footprint m s.1).Nodup := by
    have hnodup := h.nodup
    rw [List.flatMap_cons] at hnodup
    exact (List.nodup_append.1 hnodup).1
  obtain ⟨rs, hget, hlen, -⟩ := hsound
  have hfoot := footprint_eq hget
  rw [hfoot] at hlive hnodup
  obtain ⟨m₁, h₁, hold⟩ := freeDescriptions_spec s.2 0 hget (by omega)
    (fun q hq => hlive q (List.mem_cons_of_mem _ (by rwa [List.drop_zero] at hq))) (by rw [List.drop_zero]; exact hnodup)
  rw [List.drop_zero] at hold
  have hp : m₁.live s.1 := by
    rw [Heap.live, hold s.1 (List.nodup_cons.1 hnodup).1, hget]
    rfl
  have hframe : ∀ q ∉ footprint m s.1, (m₁.free s.1).get q = m.get q := fun q hq => by
    rw [hfoot, List.mem_cons, not_or] at hq
    rw [Heap.get_free, if_neg hq.1, hold q hq.2]
  have hothers : ∀ s' ∈ l, ∀ q ∈ footprint m s'.1, (m₁.free s.1).get q = m.get q := fun s' hs' q hq =>
    hframe q (h.disjoint hs' hq)
  refine ⟨m₁.free s.1, ?_, hothers, (h.of_sublist (List.sublist_cons_self _ _)).congr hothers⟩
  rw [auFreeBucketAttributes, if_neg hs, h₁, Exec.ok_bind, aufree, if_pos hp]

end Memory

/-! ### The cache -/

section Search
variable {α : Type} {l : List α}

theorem search_spec (wanted : α → Exec Bool) (w : α → Bool) (h : ∀ a ∈ l, wanted a = .ok (w a)) :
    (search wanted l = .ok none ∧ ∀ a ∈ l, w a = false) ∨ ∃ pre a post, l = pre ++ a :: post ∧ w a = true ∧ (∀ a ∈ pre, w a = false) ∧
      search wanted l = .ok (some (pre, a, post)) := by
  induction l with
  | nil => exact .inl ⟨rfl, by simp⟩
  | cons a l ih =>
    unfold search
    rw [h a List.mem_cons_self, Exec.ok_bind]
    by_cases hw : w a = true
    · rw [if_pos hw]
      exact .inr ⟨[], a, l, rfl, hw, by simp, rfl⟩
    · rw [if_neg hw]
      rw [Bool.not_eq_true] at hw
      rcases ih fun b hb => h b (List.mem_cons_of_mem _ hb) with ⟨hnone, hall⟩ | ⟨pre, b, post, rfl, hb, hpre, hfound⟩
      · rw [hnone, Exec.ok_bind]
        exact .inl ⟨rfl, List.forall_mem_cons.2 ⟨hw, hall⟩⟩
      · rw [hfound, Exec.ok_bind]
        exact .inr ⟨a :: pre, b, post, rfl, hb, List.forall_mem_cons.2 ⟨hw, hpre⟩, rfl⟩

end Search

/-- The cached structures of a connection. -/
def cached (servers : List ServerRec) (aud : Nat) : List Nat := (servers.filter (·.aud = aud)).flatMap (·.cache)

namespace Process
variable (x : Process)

/-- All structures, those of the cache and those that are held. -/
def structures : List (Nat × Nat) := (x.servers.flatMap (·.cache)).map (·, 1) ++ x.held

/-- Each connection has one record, with one entry for a bucket. -/
structure Ok : Prop where
  separate : Separate x.mem x.structures
  auds : (x.servers.map (·.aud)).Nodup
  ids : ∀ aud, ((x.entries aud).map (·.1.id)).Nodup
  held : ∀ s ∈ x.held, s.2 ≠ 0

end Process

section Cache
variable {x x' : Process} {pre post : List ServerRec} {s : ServerRec} {aud aud' p i n : Nat} {bucket : AuID}

theorem cached_split (h : ((pre ++ s :: post).map (·.aud)).Nodup) (l : List Nat) (aud : Nat) :
    cached (pre ++ { s with cache := l } :: post) aud = if s.aud = aud then l else cached (pre ++ s :: post) aud := by
  have hrest : s.aud = aud → pre.filter (·.aud = aud) = [] ∧ post.filter (·.aud = aud) = [] := by
    rintro rfl
    rw [List.map_append, List.map_cons, List.nodup_append] at h
    obtain ⟨-, hpost, hdisj⟩ := h
    refine ⟨List.filter_eq_nil_iff.2 fun t ht => ?_, List.filter_eq_nil_iff.2 fun t ht => ?_⟩
    · simpa using hdisj _ (List.mem_map_of_mem ht) _ List.mem_cons_self
    · have hne := (List.nodup_cons.1 hpost).1
      rw [decide_eq_true_eq]
      exact fun heq => hne (heq ▸ List.mem_map_of_mem ht)
  unfold cached
  split
  · rename_i hs
    obtain ⟨hpre, hpost⟩ := hrest hs
    rw [List.filter_append, List.filter_cons_of_pos (by simpa using hs), hpre, hpost]
    simp
  · rename_i hs
    rw [List.filter_append, List.filter_append, List.filter_cons_of_neg (by simpa using hs),
      List.filter_cons_of_neg (by simpa using hs)]

theorem entries_eq (x : Process) (aud : Nat) : x.entries aud = (cached x.servers aud).filterMap fun p => view x.mem p 0 := rfl

theorem mem_structures (h : s ∈ x.servers) (hp : p ∈ s.cache) : (p, 1) ∈ x.structures :=
  List.mem_append_left _ (List.mem_map.2 ⟨p, List.mem_flatMap.2 ⟨s, h, hp⟩, rfl⟩)

theorem mem_cached : p ∈ cached x.servers aud ↔ ∃ s ∈ x.servers, s.aud = aud ∧ p ∈ s.cache := by
  unfold cached
  simp only [List.mem_flatMap, List.mem_filter, decide_eq_true_eq]
  exact ⟨fun ⟨s, ⟨hs, ha⟩, hp⟩ => ⟨s, hs, ha, hp⟩, fun ⟨s, hs, ha, hp⟩ => ⟨s, ⟨hs, ha⟩, hp⟩⟩

/-- When the blocks of the cache are as they were, so is what is cached. -/
theorem entries_congr (x : Process) {m' : Memory} {held : List (Nat × Nat)}
    (hmem : ∀ s ∈ x.servers, ∀ p ∈ s.cache, ∀ q ∈ footprint x.mem p, m'.get q = x.mem.get q) (aud : Nat) :
    Process.entries ⟨m', x.servers, held⟩ aud = x.entries aud := by
  rw [entries_eq, entries_eq]
  refine List.filterMap_congr fun p hp => view_congr ?_
  obtain ⟨s, hs, -, hp⟩ := mem_cached.1 hp
  exact hmem s hs p hp

theorem entries_nil (h : ∀ s ∈ x.servers, s.aud ≠ aud) : x.entries aud = [] := by
  rw [entries_eq, cached, List.filter_eq_nil_iff.2 fun s hs => by simpa using h s hs]
  rfl

/-- An entry of a connection is in a record of it. -/
theorem exists_record {e : Attributes × List UInt8} (he : e ∈ x.entries aud) : ∃ s ∈ x.servers, s.aud = aud := by
  obtain ⟨p, hp, -⟩ := List.mem_filterMap.1 he
  obtain ⟨s, hs, haud, -⟩ := mem_cached.1 hp
  exact ⟨s, hs, haud⟩

namespace Process.Ok

/-- The record of a connection, if it has one. -/
theorem search_aud (h : x.Ok) (aud : Nat) : (search (sameAud aud) x.servers = .ok none ∧ ∀ s ∈ x.servers, s.aud ≠ aud) ∨
    ∃ pre s post, x.servers = pre ++ s :: post ∧ s.aud = aud ∧ (∀ t ∈ pre ++ post, t.aud ≠ aud) ∧
      search (sameAud aud) x.servers = .ok (some (pre, s, post)) := by
  rcases search_spec (l := x.servers) (sameAud aud) (fun s => s.aud == aud) fun _ _ => rfl with
    ⟨hnone, hall⟩ | ⟨pre, s, post, hservers, hs, hpre, hfound⟩
  · exact .inl ⟨hnone, fun s hs => by simpa using hall s hs⟩
  · have hs : s.aud = aud := by simpa using hs
    refine .inr ⟨pre, s, post, hservers, hs, fun t ht => ?_, hfound⟩
    rcases List.mem_append.1 ht with ht | ht
    · simpa using hpre t ht
    · have hauds := h.auds
      rw [hservers, List.map_append, List.map_cons, List.nodup_append] at hauds
      exact fun heq => (List.nodup_cons.1 hauds.2.1).1 (hs ▸ heq ▸ List.mem_map_of_mem ht)

theorem sound_cached (h : x.Ok) (hs : s ∈ x.servers) (hp : p ∈ s.cache) : Sound x.mem (p, 1) :=
  h.separate.sound _ (mem_structures hs hp)

/-- The entry for a bucket. -/
theorem search_bucket (h : x.Ok) (hs : s ∈ x.servers) (bucket : AuID) :
    (search (sameBucket x.mem bucket) s.cache = .ok none ∧
      ∀ v ∈ s.cache.filterMap fun p => view x.mem p 0, v.1.id ≠ bucket) ∨
    ∃ pre p post v, s.cache = pre ++ p :: post ∧ view x.mem p 0 = some v ∧ v.1.id = bucket ∧
      search (sameBucket x.mem bucket) s.cache = .ok (some (pre, p, post)) := by
  have hwanted : ∀ p ∈ s.cache, ∃ v, view x.mem p 0 = some v ∧ sameBucket x.mem bucket p = .ok (v.1.id == bucket) := by
    intro p hp
    obtain ⟨r, rs, -, -, -, hrecord, hview⟩ := (h.sound_cached hs hp).record (i := 0) (Nat.lt_succ_self 0)
    refine ⟨_, hview, ?_⟩
    rw [sameBucket, hrecord]
    rfl
  rcases search_spec (l := s.cache) (sameBucket x.mem bucket) (fun p => (view x.mem p 0).any (·.1.id == bucket))
    (fun p hp => by
      obtain ⟨v, hv, hsame⟩ := hwanted p hp
      rw [hv, hsame]
      rfl) with ⟨hnone, hall⟩ | ⟨pre, p, post, hcache, hp, -, hfound⟩
  · refine .inl ⟨hnone, fun v hv => ?_⟩
    obtain ⟨p, hp, hview⟩ := List.mem_filterMap.1 hv
    have hp := hall p hp
    rw [hview] at hp
    simpa using hp
  · obtain ⟨v, hv, -⟩ := hwanted p (by rw [hcache]; simp)
    rw [hv] at hp
    exact .inr ⟨pre, p, post, v, hcache, hv, by simpa using hp, hfound⟩

/-- The structures of a cache less one of them, and that one. -/
theorem structures_split {l l' : List Nat} (pre : List ServerRec) (s : ServerRec) (post : List ServerRec)
    (hl : l.Perm (p :: l')) (m m' : Memory) (held : List (Nat × Nat)) :
    (Process.mk m (pre ++ { s with cache := l } :: post) held).structures.Perm
      ((p, 1) :: (Process.mk m' (pre ++ { s with cache := l' } :: post) held).structures) := by
  unfold Process.structures
  dsimp only
  rw [← List.cons_append]
  refine List.Perm.append_right _ ?_
  rw [List.flatMap_append, List.flatMap_append, List.flatMap_cons, List.flatMap_cons]
  dsimp only
  have hperm : (pre.flatMap (·.cache) ++ (l ++ post.flatMap (·.cache))).Perm
      (p :: (pre.flatMap (·.cache) ++ (l' ++ post.flatMap (·.cache)))) :=
    ((hl.append_right _).append_left _).trans List.perm_middle
  exact hperm.map _

/-- A record for a connection that has none. -/
theorem newRecord (h : x.Ok) (hnone : ∀ s ∈ x.servers, s.aud ≠ aud) :
    Ok { x with servers := ⟨aud, []⟩ :: x.servers } ∧
      ∀ aud', Process.entries { x with servers := ⟨aud, []⟩ :: x.servers } aud' = x.entries aud' := by
  have hentries (aud' : Nat) : Process.entries { x with servers := ⟨aud, []⟩ :: x.servers } aud' = x.entries aud' := by
    rw [entries_eq, entries_eq]
    dsimp only
    unfold cached
    rw [List.filter_cons]
    split
    · rfl
    · rfl
  refine ⟨⟨h.separate, ?_, fun aud' => by rw [hentries]; exact h.ids aud', h.held⟩, hentries⟩
  refine List.nodup_cons.2 ⟨fun hmem => ?_, h.auds⟩
  obtain ⟨s, hs, heq⟩ := List.mem_map.1 hmem
  exact hnone s hs heq

/-- A new entry in front of the others. -/
theorem newEntry {a : Nat} {m' : Memory} {v : Attributes × List UInt8} (h : x.Ok) (hservers : x.servers = pre ++ s :: post)
    (hmade : Made x.mem m' (a, 1)) (hview : view m' a 0 = some v) (hnew : ∀ e ∈ x.entries s.aud, e.1.id ≠ v.1.id) :
    Ok { x with mem := m', servers := pre ++ { s with cache := a :: s.cache } :: post } ∧
      ∀ aud, Process.entries { x with mem := m', servers := pre ++ { s with cache := a :: s.cache } :: post } aud =
        if s.aud = aud then v :: x.entries aud else x.entries aud := by
  have hauds : ((pre ++ s :: post).map (·.aud)).Nodup := hservers ▸ h.auds
  have hold (aud : Nat) : ((cached x.servers aud).filterMap fun p => view m' p 0) = x.entries aud := by
    rw [entries_eq]
    refine List.filterMap_congr fun p hp => ?_
    obtain ⟨t, ht, -, hp⟩ := mem_cached.1 hp
    exact hmade.view (h.sound_cached ht hp)
  have hentries (aud : Nat) : Process.entries
      { x with mem := m', servers := pre ++ { s with cache := a :: s.cache } :: post } aud =
        if s.aud = aud then v :: x.entries aud else x.entries aud := by
    rw [entries_eq]
    dsimp only
    rw [cached_split hauds]
    have hs := cached_split hauds s.cache aud
    split
    · rename_i haud
      rw [if_pos haud] at hs
      rw [List.filterMap_cons, hview, ← hold, hservers, hs]
    · rw [← hservers, hold]
  have hseparate : Separate m' ((a, 1) :: x.structures) := h.separate.made hmade
  refine ⟨⟨?_, ?_, fun aud => ?_, h.held⟩, hentries⟩
  · refine hseparate.perm ?_
    have hsplit := structures_split pre s post (List.Perm.refl (a :: s.cache)) m' x.mem x.held
    rw [show (pre ++ { s with cache := s.cache } :: post) = x.servers from hservers.symm] at hsplit
    exact hsplit.symm
  · rw [List.map_append, List.map_cons]
    rw [List.map_append, List.map_cons] at hauds
    exact hauds
  · rw [hentries]
    split
    · rename_i haud
      subst haud
      rw [List.map_cons, List.nodup_cons]
      refine ⟨fun hmem => ?_, h.ids _⟩
      obtain ⟨e, he, heq⟩ := List.mem_map.1 hmem
      exact hnew e he heq
    · exact h.ids aud

/-- `_AuAddToBucketCache` adds what is at `p[i]`, unless there is an entry for the bucket. -/
theorem auAddToBucketCache_spec {v : Attributes × List UInt8} (h : x.Ok) (aud : Nat) (hs : (p, n) ∈ x.structures) (hi : i < n)
    (hv : view x.mem p i = some v) : ∃ x', auAddToBucketCache aud p i x = .ok x' ∧ x'.Ok ∧ x'.held = x.held ∧
      (∀ q < x.mem.next, x'.mem.get q = x.mem.get q) ∧ (∀ s ∈ x'.servers, s.aud = aud ∨ ∃ t ∈ x.servers, t.aud = s.aud) ∧
      ∀ aud', x'.entries aud' =
        if aud = aud' ∧ ∀ e ∈ x.entries aud, e.1.id ≠ v.1.id then v :: x.entries aud' else x.entries aud' := by
  have hsound := h.separate.sound _ hs
  obtain ⟨r, rs, -, -, -, hrecord, hview⟩ := hsound.record hi
  dsimp only at hrecord hview
  obtain rfl : v = (r.attributes, textOf x.mem r) := Option.some.inj (hv.symm.trans hview)
  obtain ⟨a, m', hcopy, hmade, hviewa⟩ := copyBucketAttributes_spec hsound hi
  dsimp only at hcopy hviewa
  rw [hview] at hviewa
  unfold auAddToBucketCache
  rcases h.search_aud aud with ⟨hsearch, hnone⟩ | ⟨pre, s, post, hservers, rfl, hothers, hsearch⟩
  · -- the connection has no record
    rw [hsearch, Exec.ok_bind, Option.getD_none]
    dsimp only
    rw [hrecord, Exec.ok_bind, search, Exec.ok_bind]
    dsimp only
    rw [hcopy, Exec.ok_bind]
    obtain ⟨hok, hsame⟩ := h.newRecord hnone
    have hempty : ∀ e ∈ x.entries aud, e.1.id ≠ r.attributes.id := by
      rw [entries_nil hnone]
      simp
    obtain ⟨hok', hentries⟩ := hok.newEntry (show _ = [] ++ (⟨aud, []⟩ : ServerRec) :: x.servers from rfl) hmade hviewa
      (by rw [hsame]; exact hempty)
    refine ⟨_, rfl, hok', rfl, hmade.old, fun s hs => ?_, fun aud' => ?_⟩
    · rcases List.mem_cons.1 hs with rfl | hs
      · exact .inl rfl
      · exact .inr ⟨s, hs, rfl⟩
    · refine (hentries aud').trans ?_
      rw [hsame]
      refine if_congr ?_ rfl rfl
      exact ⟨fun haud => ⟨haud, hempty⟩, fun haud => haud.1⟩
  · rw [hsearch, Exec.ok_bind, Option.getD_some]
    dsimp only
    rw [hrecord, Exec.ok_bind]
    have hs : s ∈ x.servers := by rw [hservers]; simp
    have hcached : (s.cache.filterMap fun p => view x.mem p 0) = x.entries s.aud := by
      rw [entries_eq]
      have hsplit := cached_split (hservers ▸ h.auds) s.cache s.aud
      rw [if_pos rfl] at hsplit
      rw [hservers, ← hsplit]
    rcases h.search_bucket hs r.attributes.id with ⟨hfound, hnew⟩ | ⟨pre', e, post', w, hcache, hw, hid, hfound⟩
    · rw [hfound, Exec.ok_bind]
      dsimp only
      rw [hcopy, Exec.ok_bind]
      rw [hcached] at hnew
      obtain ⟨hok', hentries⟩ := h.newEntry hservers hmade hviewa hnew
      refine ⟨_, rfl, hok', rfl, hmade.old, fun t ht => ?_, fun aud' => ?_⟩
      · rw [hservers]
        rcases List.mem_append.1 ht with ht | ht
        · exact .inr ⟨t, List.mem_append_left _ ht, rfl⟩
        · rcases List.mem_cons.1 ht with rfl | ht
          · exact .inl rfl
          · exact .inr ⟨t, List.mem_append_right _ (List.mem_cons_of_mem _ ht), rfl⟩
      · refine (hentries aud').trans (if_congr ?_ rfl rfl)
        exact ⟨fun haud => ⟨haud, hnew⟩, fun haud => haud.1⟩
    · rw [hfound, Exec.ok_bind]
      dsimp only
      rw [← hservers]
      refine ⟨x, rfl, h, rfl, fun _ _ => rfl, fun t ht => .inr ⟨t, ht, rfl⟩, fun aud' => ?_⟩
      rw [if_neg]
      rintro ⟨-, hnew⟩
      refine hnew w ?_ hid
      rw [← hcached]
      exact List.mem_filterMap.2 ⟨e, by rw [hcache]; simp, hw⟩

/-- A structure that a caller gets. -/
theorem hold {m' : Memory} {t : Nat × Nat} (h : x.Ok) (hmade : Made x.mem m' t) (ht : t.2 ≠ 0) :
    Ok { x with mem := m', held := t :: x.held } ∧
      ∀ aud, Process.entries { x with mem := m', held := t :: x.held } aud = x.entries aud := by
  have hentries (aud : Nat) : Process.entries { x with mem := m', held := t :: x.held } aud = x.entries aud :=
    entries_congr x (fun s hs p hp q hq => hmade.old q ((h.sound_cached hs hp).lt_next hq)) aud
  refine ⟨⟨?_, h.auds, fun aud => by rw [hentries]; exact h.ids aud, List.forall_mem_cons.2 ⟨ht, h.held⟩⟩, hentries⟩
  exact (h.separate.made hmade).perm List.perm_middle.symm

theorem entries_split (h : x.Ok) (hservers : x.servers = pre ++ s :: post) :
    (s.cache.filterMap fun p => view x.mem p 0) = x.entries s.aud := by
  rw [entries_eq]
  have hsplit := cached_split (hservers ▸ h.auds) s.cache s.aud
  rw [if_pos rfl] at hsplit
  rw [hservers, ← hsplit]

/-- `_AuLookupBucketInCache` returns a copy of the entry for the bucket. -/
theorem auLookupBucketInCache_spec (h : x.Ok) (aud : Nat) (bucket : AuID) :
    (auLookupBucketInCache aud bucket x = .ok none ∧ ∀ e ∈ x.entries aud, e.1.id ≠ bucket) ∨
    ∃ p m' v, auLookupBucketInCache aud bucket x = .ok (some (p, m')) ∧ Made x.mem m' (p, 1) ∧ view m' p 0 = some v ∧
      v ∈ x.entries aud ∧ v.1.id = bucket := by
  unfold auLookupBucketInCache
  rcases h.search_aud aud with ⟨hsearch, hnone⟩ | ⟨pre, s, post, hservers, rfl, -, hsearch⟩
  · refine .inl ⟨by rw [hsearch]; rfl, ?_⟩
    rw [entries_nil hnone]
    simp
  · rw [hsearch, Exec.ok_bind]
    dsimp only
    have hs : s ∈ x.servers := by rw [hservers]; simp
    have hcached := h.entries_split hservers
    rcases h.search_bucket hs bucket with ⟨hfound, hnew⟩ | ⟨pre', e, post', w, hcache, hw, hid, hfound⟩
    · rw [hcached] at hnew
      exact .inl ⟨by rw [hfound]; rfl, hnew⟩
    · have he : e ∈ s.cache := by rw [hcache]; simp
      obtain ⟨a, m', hcopy, hmade, hview⟩ := copyBucketAttributes_spec (i := 0) (h.sound_cached hs he) (Nat.lt_succ_self 0)
      dsimp only at hcopy hview
      refine .inr ⟨a, m', w, ?_, hmade, hview.trans hw, ?_, hid⟩
      · rw [hfound, Exec.ok_bind]
        dsimp only
        rw [hcopy]
        rfl
      · rw [← hcached]
        exact List.mem_filterMap.2 ⟨e, he, hw⟩

/-- An entry is taken out. -/
theorem oldEntry {m' : Memory} {cache : List Nat} (h : x.Ok) (hservers : x.servers = pre ++ s :: post)
    (hsub : cache.Sublist s.cache)
    (hothers : ∀ t ∈ (Process.mk x.mem (pre ++ { s with cache := cache } :: post) x.held).structures,
      ∀ q ∈ footprint x.mem t.1, m'.get q = x.mem.get q)
    (hseparate : Separate m' (Process.mk x.mem (pre ++ { s with cache := cache } :: post) x.held).structures) :
    Ok { x with mem := m', servers := pre ++ { s with cache := cache } :: post } ∧
      ∀ aud, Process.entries { x with mem := m', servers := pre ++ { s with cache := cache } :: post } aud =
        if s.aud = aud then cache.filterMap fun p => view x.mem p 0 else x.entries aud := by
  have hauds : ((pre ++ s :: post).map (·.aud)).Nodup := hservers ▸ h.auds
  have hentries (aud : Nat) : Process.entries
      { x with mem := m', servers := pre ++ { s with cache := cache } :: post } aud =
        if s.aud = aud then cache.filterMap fun p => view x.mem p 0 else x.entries aud := by
    have hframe : Process.entries { x with mem := m', servers := pre ++ { s with cache := cache } :: post } aud =
        Process.entries { x with servers := pre ++ { s with cache := cache } :: post } aud :=
      entries_congr { x with servers := pre ++ { s with cache := cache } :: post }
        (fun t ht e he => hothers (e, 1) (mem_structures ht he)) aud
    rw [hframe, entries_eq]
    dsimp only
    rw [cached_split hauds, ← hservers]
    split
    · rfl
    · rfl
  refine ⟨⟨hseparate, ?_, fun aud => ?_, h.held⟩, hentries⟩
  · rw [List.map_append, List.map_cons] at hauds ⊢
    exact hauds
  · rw [hentries]
    split
    · rename_i haud
      have hids := h.ids s.aud
      rw [← h.entries_split hservers] at hids
      exact hids.sublist ((hsub.filterMap _).map _)
    · exact h.ids aud

/-- `_AuRemoveFromBucketCache` leaves no entry for the bucket. -/
theorem auRemoveFromBucketCache_spec (h : x.Ok) (aud : Nat) (bucket : AuID) : ∃ x',
    auRemoveFromBucketCache aud bucket x = .ok x' ∧ x'.Ok ∧ (∀ t ∈ x'.servers, ∃ t' ∈ x.servers, t'.aud = t.aud) ∧
      (∀ aud', ∀ e ∈ x'.entries aud', e ∈ x.entries aud') ∧ ∀ e ∈ x'.entries aud, e.1.id ≠ bucket := by
  unfold auRemoveFromBucketCache
  rcases h.search_aud aud with ⟨hsearch, hnone⟩ | ⟨pre, s, post, hservers, rfl, -, hsearch⟩
  · refine ⟨x, by rw [hsearch]; rfl, h, fun t ht => ⟨t, ht, rfl⟩, fun _ _ he => he, ?_⟩
    rw [entries_nil hnone]
    simp
  · rw [hsearch, Exec.ok_bind]
    dsimp only
    have hs : s ∈ x.servers := by rw [hservers]; simp
    have hcached := h.entries_split hservers
    rcases h.search_bucket hs bucket with ⟨hfound, hnew⟩ | ⟨pre', e, post', w, hcache, hw, hid, hfound⟩
    · rw [hcached] at hnew
      exact ⟨x, by rw [hfound]; rfl, h, fun t ht => ⟨t, ht, rfl⟩, fun _ _ he => he, hnew⟩
    · have hperm : s.cache.Perm (e :: (pre' ++ post')) := by
        rw [hcache]
        exact List.perm_middle
      have hsub : (pre' ++ post').Sublist s.cache := by
        rw [hcache]
        exact (List.sublist_cons_self _ _).append_left _
      have hsplit := structures_split pre s post hperm x.mem x.mem x.held
      rw [show (pre ++ { s with cache := s.cache } :: post) = x.servers from hservers.symm] at hsplit
      obtain ⟨m', hfree, hothers, hseparate⟩ := auFreeBucketAttributes_spec (h.separate.perm hsplit) Nat.one_ne_zero
      obtain ⟨hok, hentries⟩ := h.oldEntry hservers hsub hothers hseparate
      refine ⟨_, ?_, hok, fun t ht => ?_, fun aud' e' he' => ?_, fun e' he' => ?_⟩
      · rw [hfound, Exec.ok_bind]
        dsimp only
        rw [hfree, Exec.ok_bind]
      · rw [hservers]
        rcases List.mem_append.1 ht with ht | ht
        · exact ⟨t, List.mem_append_left _ ht, rfl⟩
        · rcases List.mem_cons.1 ht with rfl | ht
          · exact ⟨s, by simp, rfl⟩
          · exact ⟨t, List.mem_append_right _ (List.mem_cons_of_mem _ ht), rfl⟩
      · rw [hentries] at he'
        split at he'
        · rename_i haud
          subst haud
          rw [← hcached]
          exact (hsub.filterMap _).subset he'
        · exact he'
      · -- another entry for the bucket would be one too many
        rw [hentries, if_pos rfl, List.filterMap_append] at he'
        have hids := h.ids s.aud
        rw [← hcached, hcache, List.filterMap_append, List.filterMap_cons, hw, List.map_append, List.map_cons,
          List.nodup_append] at hids
        obtain ⟨-, hpost, hdisj⟩ := hids
        rcases List.mem_append.1 he' with he' | he'
        · exact fun heq => hdisj _ (List.mem_map_of_mem he') _ List.mem_cons_self (heq.trans hid.symm)
        · exact fun heq => (List.nodup_cons.1 hpost).1 (hid.trans heq.symm ▸ List.mem_map_of_mem he')

/-- The entries of a connection are freed. -/
theorem freeEntries_spec {es : List Nat} {m : Memory} {l : List (Nat × Nat)} (h : Separate m (es.map (·, 1) ++ l)) : ∃ m',
    freeEntries es m = .ok m' ∧ (∀ t ∈ l, ∀ q ∈ footprint m t.1, m'.get q = m.get q) ∧ Separate m' l := by
  induction es generalizing m with
  | nil => exact ⟨m, rfl, fun _ _ _ _ => rfl, h⟩
  | cons e es ih =>
    obtain ⟨m₁, h₁, hothers₁, hseparate₁⟩ := auFreeBucketAttributes_spec h Nat.one_ne_zero
    obtain ⟨m', h', hothers, hseparate⟩ := ih hseparate₁
    refine ⟨m', ?_, fun t ht q hq => ?_, hseparate⟩
    · unfold freeEntries
      dsimp only at h₁
      rw [h₁, Exec.ok_bind, h']
    · have hsame := hothers₁ t (List.mem_append_right _ ht)
      rw [hothers t ht q (by rw [footprint_congr hsame]; exact hq), hsame q hq]

/-- `_AuFreeBucketCache` leaves nothing of a connection. -/
theorem auFreeBucketCache_spec (h : x.Ok) (aud : Nat) : ∃ x', auFreeBucketCache aud x = .ok x' ∧ x'.Ok ∧
    (∀ t ∈ x'.servers, t ∈ x.servers ∧ t.aud ≠ aud) ∧ ∀ aud', ∀ e ∈ x'.entries aud', e ∈ x.entries aud' := by
  unfold auFreeBucketCache
  rcases h.search_aud aud with ⟨hsearch, hnone⟩ | ⟨pre, s, post, hservers, rfl, hothers, hsearch⟩
  · exact ⟨x, by rw [hsearch]; rfl, h, fun t ht => ⟨ht, hnone t ht⟩, fun _ _ he => he⟩
  · have hperm : x.structures.Perm (s.cache.map (·, 1) ++ (Process.mk x.mem (pre ++ post) x.held).structures) := by
      unfold Process.structures
      rw [hservers, ← List.append_assoc, ← List.map_append]
      refine List.Perm.append_right _ (List.Perm.map _ ?_)
      rw [List.flatMap_append, List.flatMap_append, List.flatMap_cons]
      exact List.perm_append_comm_assoc _ _ _
    obtain ⟨m', hfree, hsame, hseparate⟩ := freeEntries_spec (h.separate.perm hperm)
    have hsub : (pre ++ post).Sublist x.servers := by
      rw [hservers]
      exact (List.sublist_cons_self _ _).append_left _
    have hentries (aud : Nat) : (Process.mk m' (pre ++ post) x.held).entries aud =
        (Process.mk x.mem (pre ++ post) x.held).entries aud :=
      entries_congr (Process.mk x.mem (pre ++ post) x.held) (fun t ht e he => hsame (e, 1) (mem_structures ht he)) aud
    have hentries' (aud : Nat) : ((Process.mk m' (pre ++ post) x.held).entries aud).Sublist (x.entries aud) := by
      rw [hentries, entries_eq, entries_eq]
      exact ((hsub.filter _).flatMap _).filterMap _
    refine ⟨⟨m', pre ++ post, x.held⟩, ?_, ⟨hseparate, ?_, fun aud => ?_, h.held⟩, fun t ht => ⟨hsub.subset ht, hothers t ht⟩,
      fun aud e he => (hentries' aud).subset he⟩
    · rw [hsearch, Exec.ok_bind]
      dsimp only
      rw [hfree, Exec.ok_bind]
    · exact h.auds.sublist (hsub.map _)
    · exact (h.ids aud).sublist ((hentries' aud).map _)

/-- What a caller frees is in no block of the cache. -/
theorem free_spec (h : x.Ok) {k : Nat} {t : Nat × Nat} (ht : x.held[k]? = some t) : ∃ m',
    auFreeBucketAttributes t.2 t.1 x.mem = .ok m' ∧ Ok { x with mem := m', held := x.held.eraseIdx k } ∧
      ∀ s ∈ x.servers, ∀ e ∈ s.cache, ∀ q ∈ footprint x.mem e, m'.get q = x.mem.get q := by
  obtain ⟨hk, hget⟩ := List.getElem?_eq_some_iff.1 ht
  have hperm : x.structures.Perm (t :: (Process.mk x.mem x.servers (x.held.eraseIdx k)).structures) := by
    unfold Process.structures
    refine List.Perm.trans ?_ List.perm_middle
    refine List.Perm.append_left _ ?_
    rw [← hget]
    exact (List.getElem_cons_eraseIdx_perm hk).symm
  have hne : t.2 ≠ 0 := h.held t (List.mem_of_getElem? ht)
  obtain ⟨m', hfree, hothers, hseparate⟩ := auFreeBucketAttributes_spec (h.separate.perm hperm) hne
  have hcache : ∀ s ∈ x.servers, ∀ e ∈ s.cache, ∀ q ∈ footprint x.mem e, m'.get q = x.mem.get q := fun s hs e he =>
    hothers (e, 1) (List.mem_append_left _ (List.mem_map.2 ⟨e, List.mem_flatMap.2 ⟨s, hs, he⟩, rfl⟩))
  refine ⟨m', hfree, ⟨hseparate, h.auds, fun aud => ?_, fun s hs => h.held s (List.mem_of_mem_eraseIdx hs)⟩, hcache⟩
  rw [entries_congr x hcache]
  exact h.ids aud

end Process.Ok

/-- What a request for attributes makes of the cache of a connection: its new entries are as `P` says. -/
structure Grows (aud : Nat) (P : Attributes × List UInt8 → Prop) (x x' : Process) : Prop where
  ok : x'.Ok
  servers : ∀ s ∈ x'.servers, s.aud = aud ∨ ∃ t ∈ x.servers, t.aud = s.aud
  entries : ∀ aud', ∀ e ∈ x'.entries aud', e ∈ x.entries aud' ∨ aud' = aud ∧ P e

namespace Process.Ok

/-- `AuGetBucketAttributes` returns an entry for the bucket, and what the reply carries if there is none. -/
theorem auGetBucketAttributes_spec (h : x.Ok) (aud : Nat) (bucket : AuID) (reply : Exec (Option Reply)) :
    (∃ v p x', v ∈ x.entries aud ∧ v.1.id = bucket ∧ auGetBucketAttributes aud bucket reply x = .ok (p, x') ∧
      view x'.mem p 0 = some v ∧ Grows aud (fun _ => False) x x') ∨
    (∀ rep, reply = .ok (some rep) → ∃ p x', auGetBucketAttributes aud bucket reply x = .ok (p, x') ∧
      view x'.mem p 0 = some rep.content ∧ Grows aud (· = rep.content) x x') ∧
    (∀ r, auGetBucketAttributes aud bucket reply x = .ok r → ∃ rep, reply = .ok (some rep)) := by
  unfold auGetBucketAttributes
  rcases h.auLookupBucketInCache_spec aud bucket with ⟨hnone, -⟩ | ⟨p, m', v, hfound, hmade, hview, hv, hid⟩
  · right
    rw [hnone, Exec.ok_bind]
    dsimp only
    constructor
    · rintro rep rfl
      obtain ⟨p, m', hread, hmade, hview⟩ := readAttributes_spec rep x.mem
      obtain ⟨hok, hsame⟩ := h.hold hmade Nat.one_ne_zero
      obtain ⟨x', hadd, hok', -, hold, hservers, hentries⟩ := hok.auAddToBucketCache_spec aud
        (List.mem_append_right _ List.mem_cons_self) Nat.one_pos hview
      refine ⟨p, x', ?_, ?_, hok', hservers, fun aud' e he => ?_⟩
      · rw [Exec.ok_bind, Exec.deref_some, Exec.ok_bind, hread]
        dsimp only
        rw [hadd, Exec.ok_bind]
      · rw [← hview]
        exact view_congr fun q hq => hold q (hmade.sound.lt_next hq)
      · rw [hentries, hsame, hsame] at he
        split at he
        · rename_i haud
          rcases List.mem_cons.1 he with rfl | he
          · exact .inr ⟨haud.1.symm, rfl⟩
          · exact .inl he
        · exact .inl he
    · intro r hr
      obtain ⟨o, ho, hr⟩ := Exec.bind_eq_ok.1 hr
      obtain ⟨rep, hrep, -⟩ := Exec.bind_eq_ok.1 hr
      rw [Exec.deref_eq_ok] at hrep
      exact ⟨rep, by rw [ho, hrep]⟩
  · left
    obtain ⟨hok, hsame⟩ := h.hold hmade Nat.one_ne_zero
    refine ⟨v, p, { x with mem := m', held := (p, 1) :: x.held }, hv, hid, ?_, hview, hok, fun s hs => .inr ⟨s, hs, rfl⟩,
      fun aud' e he => ?_⟩
    · rw [hfound, Exec.ok_bind]
    · rw [hsame] at he
      exact .inl he

/-- The loop of `AuListBuckets` over what it has read. -/
theorem addList_spec {list num : Nat} {reps : List Reply} (h : x.Ok) (aud i : Nat) (hlist : (list, n) ∈ x.held)
    (hn : i + num ≤ n) (hviews : ∀ i < n, ∃ rep ∈ reps, view x.mem list i = some rep.content) : ∃ x', addList aud list num i x = .ok x' ∧
      Grows aud (fun e => ∃ rep ∈ reps, e = rep.content) x x' := by
  induction num generalizing x i with
  | zero => exact ⟨x, rfl, h, fun s hs => .inr ⟨s, hs, rfl⟩, fun _ _ he => .inl he⟩
  | succ num ih =>
    obtain ⟨rep, hrep, hview⟩ := hviews i (by omega)
    have hmem : (list, n) ∈ x.structures := List.mem_append_right _ hlist
    obtain ⟨x₁, hadd, hok₁, hheld₁, hold₁, hservers₁, hentries₁⟩ := h.auAddToBucketCache_spec aud hmem
      (show i < n by omega) hview
    have hlist₁ : (list, n) ∈ x₁.held := by
      rw [hheld₁]
      exact hlist
    have hviews₁ : ∀ i < n, ∃ rep ∈ reps, view x₁.mem list i = some rep.content := fun i hi => by
      rw [show view x₁.mem list i = view x.mem list i from
        view_congr fun q hq => hold₁ q ((h.separate.sound _ hmem).lt_next hq)]
      exact hviews i hi
    obtain ⟨x', hrest, hgrows⟩ := ih hok₁ (i + 1) hlist₁ (by omega) hviews₁
    refine ⟨x', ?_, hgrows.ok, fun s hs => ?_, fun aud' e he => ?_⟩
    · unfold addList
      rw [hadd, Exec.ok_bind, hrest]
    · rcases hgrows.servers s hs with haud | ⟨t, ht, haud⟩
      · exact .inl haud
      · rcases hservers₁ t ht with haud' | ⟨t', ht', haud'⟩
        · exact .inl (haud ▸ haud')
        · exact .inr ⟨t', ht', haud'.trans haud⟩
    · rcases hgrows.entries aud' e he with he | he
      · rw [hentries₁] at he
        split at he
        · rename_i haud
          rcases List.mem_cons.1 he with rfl | he
          · exact .inr ⟨haud.1.symm, rep, hrep, rfl⟩
          · exact .inl he
        · exact .inl he
      · exact .inr he

/-- `AuListBuckets` adds nothing but what the replies carry. -/
theorem auListBuckets_spec (h : x.Ok) (aud : Nat) (reps : List Reply) : ∃ o x',
    auListBuckets aud (.ok reps) x = .ok (o, x') ∧ Grows aud (fun e => ∃ rep ∈ reps, e = rep.content) x x' := by
  unfold auListBuckets
  rw [Exec.ok_bind]
  split
  · exact ⟨none, x, rfl, h, fun s hs => .inr ⟨s, hs, rfl⟩, fun _ _ he => .inl he⟩
  · rename_i hne
    obtain ⟨rs, m₁, hread, hmade, hviews⟩ := list_made reps x.mem
    obtain ⟨hok, hsame⟩ := h.hold hmade (by simpa using hne)
    have hviews' : ∀ i < reps.length, ∃ rep ∈ reps,
        view (m₁.modify x.mem.next fun _ => .attributes rs) x.mem.next i = some rep.content := fun i hi =>
      ⟨reps[i], List.getElem_mem hi, by rw [hviews, List.getElem?_eq_getElem hi, Option.map_some]⟩
    obtain ⟨x', hadd, hgrows⟩ := hok.addList_spec aud 0 List.mem_cons_self (by rw [Nat.zero_add]) hviews'
    refine ⟨some x.mem.next, x', ?_, hgrows.ok, hgrows.servers, fun aud' e he => ?_⟩
    · dsimp only
      rw [hread]
      dsimp only
      rw [hadd, Exec.ok_bind]
    · have he := hgrows.entries aud' e he
      rwa [hsame] at he

end Process.Ok

end Cache

/-! ### What a server keeps -/

abbrev Host.find (h : Host) (id : AuID) : Option ComponentPtr :=
  lookupIDByType h.server.clientTable id .auComponentType

/-- A component is found under its own id, and under no other. -/
structure Host.Ok (h : Host) : Prop where
  placed : h.server.clientTable.Placed
  fresh : h.server.Fresh
  lt : ∀ id p, h.find id = some p → p < h.server.nextComponent
  own : ∀ id p c, h.find id = some p → h.server.comps p = some c → c.id = id
  unique : ∀ p c q, h.server.comps p = some c → h.find c.id = some q → q = p
  zero : h.find 0 = none

/-- If a server finds the bucket of an entry, it would send the entry. -/
def Host.Agrees (h : Host) (e : Attributes × List UInt8) : Prop :=
  ∀ q c, h.find e.1.id = some q → h.server.comps q = some c → (xferBucketAttributes c (h.description q)).content = e

section Host
variable {h : Host} {h' : Host} {R : ComponentPtr → Nat → Prop} {made : Option AuID} {e : Attributes × List UInt8} {id : AuID}

/-- What is sent depends on what a component is made with, its rate and its description. -/
theorem xferBucketAttributes_congr {c c' : Component} {d : Description} (hlook : c'.look = c.look)
    (hrate : c'.sampleRate % 2 ^ 16 = c.sampleRate % 2 ^ 16) : xferBucketAttributes c' d = xferBucketAttributes c d := by
  have hid := congrArg Look.id hlook
  have hkind := congrArg Look.kind hlook
  have haccess := congrArg Look.access hlook
  have hformat := congrArg Look.format hlook
  have htracks := congrArg Look.numTracks hlook
  have hsamples := congrArg Look.numSamples hlook
  dsimp only [Component.look] at hid hkind haccess hformat htracks hsamples
  simp only [xferBucketAttributes, hid, hkind, haccess, hformat, htracks, hsamples, hrate]

/-- An id that a request makes a bucket with is new. -/
def Host.New (h : Host) (made : Option AuID) : Prop :=
  ∀ id, made = some id → id ≠ 0 ∧ h.find id = none ∧ ∀ p c, h.server.comps p = some c → c.id ≠ id

theorem Host.new_none (h : Host) : h.New none := fun _ hid => by cases hid

/-- A component after a request: one that was there, or the one that is made, or one without an id. -/
theorem old_or_new (hmoved : Moved R made h.server h'.server) {p : ComponentPtr} {c' : Component}
    (hc' : h'.server.comps p = some c') : (∃ c, h.server.comps p = some c ∧ c'.id = c.id) ∨
      (p = h.server.nextComponent ∧ made = some c'.id) ∨ c'.id = 0 := by
  by_cases hp : p < h.server.nextComponent
  · obtain ⟨c, hc, hlook, -⟩ := hmoved.old p hp c' hc'
    exact .inl ⟨c, hc, congrArg Look.id hlook⟩
  · have hid := (hmoved.new p c' (Nat.le_of_not_lt hp) hc').2
    cases made with
    | none => exact .inr (.inr (hid.trans (ite_self 0)))
    | some id =>
      by_cases hp' : p = h.server.nextComponent
      · rw [if_pos hp', Option.getD_some] at hid
        exact .inr (.inl ⟨hp', by rw [hid]⟩)
      · rw [if_neg hp'] at hid
        exact .inr (.inr hid)

theorem Host.Ok.moved (hok : h.Ok) (hmoved : Moved R made h.server h'.server) (hnew : h.New made) : h'.Ok where
  placed := hmoved.placed
  fresh p c' hc' := by
    by_cases hp : p < h.server.nextComponent
    · exact hp.trans_le hmoved.le
    · exact (hmoved.new p c' (Nat.le_of_not_lt hp) hc').1
  lt id p hp := by
    rcases hmoved.lookup id p hp with hold | ⟨-, -, hlt⟩
    · exact (hok.lt id p hold).trans_le hmoved.le
    · exact hlt
  own id p c' hp hc' := by
    rcases hmoved.lookup id p hp with hold | ⟨rfl, rfl, -⟩
    · obtain ⟨c, hc, hlook, -⟩ := hmoved.old p (hok.lt id p hold) c' hc'
      exact (congrArg Look.id hlook).trans (hok.own id p c hold hc)
    · exact (hmoved.new _ c' le_rfl hc').2.trans (if_pos rfl)
  unique p c' q hc' hq := by
    rcases hmoved.lookup c'.id q hq with hold | ⟨hmade, rfl, -⟩
    · rcases old_or_new hmoved hc' with ⟨c, hc, hid⟩ | ⟨-, hmade⟩ | hid
      · exact hok.unique p c q hc (hid ▸ hold)
      · cases hold.symm.trans (hnew _ hmade).2.1
      · rw [hid] at hold
        cases hold.symm.trans hok.zero
    · rcases old_or_new hmoved hc' with ⟨c, hc, hid⟩ | ⟨rfl, -⟩ | hid
      · exact absurd hid.symm ((hnew _ hmade).2.2 p c hc)
      · rfl
      · exact absurd hid (hnew _ hmade).1
  zero := by
    cases hzero : h'.find 0 with
    | none => rfl
    | some q =>
      rcases hmoved.lookup 0 q hzero with hold | ⟨hmade, -⟩
      · cases hold.symm.trans hok.zero
      · exact absurd rfl (hnew _ hmade).1

/-- An entry stays right when its bucket's rate is set to the one it has. -/
theorem Host.Agrees.moved (he : h.Agrees e) (hok : h.Ok) (hmoved : Moved R made h.server h'.server)
    (hdesc : ∀ p < h.server.nextComponent, h'.description p = h.description p) (hother : made ≠ some e.1.id)
    (hrate : ∀ q rate, h.find e.1.id = some q → R q rate → rate % 2 ^ 16 = e.1.sampleRate) : h'.Agrees e := by
  intro q c' hq hc'
  rcases hmoved.lookup e.1.id q hq with hold | ⟨hmade, -⟩
  · have hlt := hok.lt _ q hold
    obtain ⟨c, hc, hlook, hset⟩ := hmoved.old q hlt c' hc'
    have hagrees := he q c hold hc
    rw [hdesc q hlt, ← hagrees]
    rw [xferBucketAttributes_congr hlook]
    rcases hset with hsame | hset
    · rw [hsame]
    · rw [hrate q _ hold hset, ← hagrees]
      rfl
  · exact absurd hmade hother

/-- What the server sends agrees with the server. -/
theorem Host.Ok.agrees (hok : h.Ok) {p : ComponentPtr} {c : Component} (hc : h.server.comps p = some c) :
    h.Agrees (xferBucketAttributes c (h.description p)).content := by
  intro q c' hq hc'
  obtain rfl : q = p := hok.unique p c q hc hq
  rw [hc, Option.some.injEq] at hc'
  rw [hc']

theorem Host.Ok.reply (hok : h.Ok) {bucket : AuID} {rep : Reply}
    (hrep : h.procAuGetBucketAttributes bucket = .ok (some rep)) : h.Agrees rep.content ∧ rep.attributes.id = bucket ∧
      ∀ e, h.Agrees e → e.1.id = bucket → e = rep.content := by
  unfold Host.procAuGetBucketAttributes at hrep
  split at hrep
  · cases hrep
  · rename_i p hp
    obtain ⟨c, hc, hrep⟩ := Exec.bind_eq_ok.1 hrep
    rw [Exec.deref_eq_ok] at hc
    cases hrep
    refine ⟨hok.agrees hc, hok.own bucket p c hp hc, fun e he hid => ?_⟩
    exact (he p c (hid ▸ hp) hc).symm

theorem Host.Ok.list (hok : h.Ok) {fuel client : Nat} {selects : Component → Description → Bool} {reps : List Reply}
    (hreps : h.procAuListBuckets fuel client selects = .ok reps) : ∀ rep ∈ reps, h.Agrees rep.content := by
  obtain ⟨ps, -, hreps⟩ := Exec.bind_eq_ok.1 hreps
  cases hreps
  intro rep hrep
  obtain ⟨p, -, hrep⟩ := List.mem_filterMap.1 hrep
  obtain ⟨c, hc, hrep⟩ := Option.bind_eq_some_iff.1 hrep
  split at hrep
  · cases hrep
    exact hok.agrees hc
  · cases hrep

end Host

/-! ### Along a run -/

/-- A world whose caches hold what the servers would send. -/
structure Inv (w : World) : Prop where
  process : w.process.Ok
  host : ∀ i, (w.host i).Ok
  connected : ∀ s ∈ w.process.servers, (w.connection s.aud).isSome
  coherent : ∀ aud c, w.connection aud = some c → ∀ e ∈ w.process.entries aud, (w.host c.host).Agrees e

section Run
variable {w w' : World} {aud i : Nat} {c : Connection} {env : Env}

namespace Inv

/-- The process gets to have entries that agree with their servers. -/
theorem setProcess (h : Inv w) {x : Process} (hok : x.Ok) (hservers : ∀ s ∈ x.servers, (w.connection s.aud).isSome)
    (hentries : ∀ aud c, w.connection aud = some c → ∀ e ∈ x.entries aud,
      e ∈ w.process.entries aud ∨ (w.host c.host).Agrees e) : Inv { w with process := x } where
  process := hok
  host := h.host
  connected := hservers
  coherent aud c hc e he := (hentries aud c hc e he).elim (h.coherent aud c hc e) id

/-- What a request for attributes adds. -/
theorem grows (h : Inv w) {x : Process} {P : Attributes × List UInt8 → Prop} (hc : w.connection aud = some c)
    (hgrows : Grows aud P w.process x) (hP : ∀ e, P e → (w.host c.host).Agrees e) : Inv { w with process := x } := by
  refine h.setProcess hgrows.ok (fun s hs => ?_) fun aud' c' hc' e he => ?_
  · rcases hgrows.servers s hs with rfl | ⟨t, ht, haud⟩
    · rw [hc]
      rfl
    · rw [← haud]
      exact h.connected t ht
  · refine (hgrows.entries aud' e he).imp_right fun ⟨haud, hPe⟩ => ?_
    obtain rfl : c' = c := Option.some.inj (hc'.symm.trans (haud ▸ hc))
    exact hP e hPe

/-- A server takes a step. -/
theorem setHost (h : Inv w) {R : ComponentPtr → Nat → Prop} {made : Option AuID} (host : Host)
    (hmoved : Moved R made (w.host i).server host.server) (hnew : (w.host i).New made)
    (hdesc : ∀ p < (w.host i).server.nextComponent, host.description p = (w.host i).description p)
    (hrate : ∀ aud c, w.connection aud = some c → c.host = i → ∀ e ∈ w.process.entries aud, made ≠ some e.1.id ∧
      ∀ q rate, (w.host i).find e.1.id = some q → R q rate → rate % 2 ^ 16 = e.1.sampleRate) :
    Inv { w with host := Function.update w.host i host } where
  process := h.process
  host j := by
    by_cases hj : j = i
    · subst hj
      dsimp only
      rw [Function.update_self]
      exact (h.host j).moved hmoved hnew
    · dsimp only
      rw [Function.update_of_ne hj]
      exact h.host j
  connected := h.connected
  coherent aud c hc e he := by
    have hagrees := h.coherent aud c hc e he
    by_cases hi : c.host = i
    · subst hi
      dsimp only
      rw [Function.update_self]
      obtain ⟨hother, hrate⟩ := hrate aud c hc rfl e he
      exact hagrees.moved (h.host _) hmoved hdesc hother hrate
    · dsimp only
      rw [Function.update_of_ne hi]
      exact hagrees

/-- A request that makes no bucket. -/
theorem dispatch (h : Inv w) {r : Request} (hr : r.Ordinary) (hkept : Kept w (.request i env r))
    (he : w.dispatch i env r = .ok w') : Inv w' := by
  obtain ⟨⟨status, s⟩, hs, he⟩ := Exec.bind_eq_ok.1 he
  cases he
  have hmoved := dispatch_moved hr (h.host i).fresh (h.host i).placed hs
  refine h.setHost { w.host i with server := s } hmoved (w.host i).new_none (fun _ _ => rfl)
    fun aud c hc hi e hentry => ⟨nofun, fun q rate hq hset => ?_⟩
  cases r with
  | setElements r =>
    obtain ⟨s, hs, rfl⟩ := exists_record hentry
    exact hkept q rate hset s hs (by rw [hc]; simpa using hi) e hentry hq
  | connect | createFlow | destroyFlow | setElementStates | destroyBucket | closeClient => exact hset.elim
  | createBucket | setElementParameters | writeElement | readElement => exact hr.elim

theorem tick (h : Inv w) {t : Tick} {s : Server} (hs : auProcessData env t (w.host i).server = .ok s) :
    Inv (w.setServer i s) := by
  have hmoved : Moved (fun _ _ => False) none (w.host i).server s :=
    auProcessData_moved (h.host i).fresh (h.host i).placed hs
  exact h.setHost { w.host i with server := s } hmoved (w.host i).new_none (fun _ _ => rfl)
    fun _ _ _ _ _ _ => ⟨nofun, fun _ _ _ hset => hset.elim⟩

theorem createBucket (h : Inv w) {id : AuID} {a : AuBucketAttributes} {d : Description} (hid : a.id = id)
    (hfresh : FreshId w i id) (he : w.createBucket i env id a d = .ok w') : Inv w' := by
  obtain ⟨⟨status, s⟩, hs, he⟩ := Exec.bind_eq_ok.1 he
  cases he
  unfold Nas.dispatch at hs
  have hmoved : Moved (fun _ _ => False) (some id) (w.host i).server s :=
    createBucket_moved (by exact hid) (h.host i).fresh (h.host i).placed hs
  have hnew : (w.host i).New (some id) := by
    rintro id' hid'
    obtain rfl : id = id' := Option.some.inj hid'
    refine ⟨hfresh.ne_zero, hfresh.table, fun p c hc => ?_⟩
    have hall := hfresh.comps p ((h.host i).fresh p c hc)
    rw [hc] at hall
    simpa using hall
  refine h.setHost ⟨s, Function.update (w.host i).description (w.host i).server.nextComponent d⟩ hmoved hnew
    (fun p hp => Function.update_of_ne (Nat.ne_of_lt hp) _ _)
    fun aud c hc hi e hentry => ⟨fun hmade => ?_, fun _ _ _ hset => hset.elim⟩
  obtain ⟨t, ht, rfl⟩ := exists_record hentry
  exact hfresh.cached t ht (by rw [hc]; simpa using hi) e hentry (Option.some.inj hmade).symm

/-- Entries and connections go. -/
theorem shrink (h : Inv w) {x : Process} {connection : Nat → Option Connection} (hok : x.Ok)
    (hservers : ∀ s ∈ x.servers, (connection s.aud).isSome)
    (hconnection : ∀ aud c, connection aud = some c → w.connection aud = some c)
    (hentries : ∀ aud, ∀ e ∈ x.entries aud, e ∈ w.process.entries aud) : Inv ⟨w.host, connection, x⟩ where
  process := hok
  host := h.host
  connected := hservers
  coherent aud c hc e he := h.coherent aud c (hconnection aud c hc) e (hentries aud e he)

theorem destroyBucket (h : Inv w) {bucket : AuID} (he : w.destroyBucket env aud bucket = .ok w') : Inv w' := by
  obtain ⟨c, -, he⟩ := Exec.bind_eq_ok.1 he
  obtain ⟨x, hx, he⟩ := Exec.bind_eq_ok.1 he
  obtain ⟨x', hx', hok, hservers, hentries, -⟩ := h.process.auRemoveFromBucketCache_spec aud bucket
  obtain rfl : x = x' := Except.ok.inj (hx.symm.trans hx')
  have hinv : Inv { w with process := x } := by
    refine h.shrink hok (fun s hs => ?_) (fun _ _ hc => hc) hentries
    obtain ⟨t, ht, haud⟩ := hservers s hs
    rw [← haud]
    exact h.connected t ht
  exact hinv.dispatch (by trivial) (by trivial) he

theorem closeServer (h : Inv w) (he : w.closeServer env aud = .ok w') : Inv w' := by
  obtain ⟨c, -, he⟩ := Exec.bind_eq_ok.1 he
  obtain ⟨x, hx, he⟩ := Exec.bind_eq_ok.1 he
  obtain ⟨x', hx', hok, hservers, hentries⟩ := h.process.auFreeBucketCache_spec aud
  obtain rfl : x = x' := Except.ok.inj (hx.symm.trans hx')
  have hinv : Inv { w with process := x, connection := Function.update w.connection aud none } := by
    refine h.shrink hok (fun s hs => ?_) (fun aud' c' hc' => ?_) hentries
    · obtain ⟨ht, hne⟩ := hservers s hs
      rw [Function.update_of_ne hne]
      exact h.connected s ht
    · by_cases hne : aud' = aud
      · rw [hne, Function.update_self] at hc'
        cases hc'
      · rwa [Function.update_of_ne hne] at hc'
  exact hinv.dispatch (by trivial) (by trivial) he

theorem free (h : Inv w) {k : Nat} (he : w.free k = .ok w') : Inv w' := by
  obtain ⟨t, ht, he⟩ := Exec.bind_eq_ok.1 he
  rw [Exec.deref_eq_ok] at ht
  obtain ⟨m, hm, he⟩ := Exec.bind_eq_ok.1 he
  cases he
  obtain ⟨m', hm', hok, hcache⟩ := h.process.free_spec ht
  obtain rfl : m = m' := Except.ok.inj (hm.symm.trans hm')
  refine h.shrink hok h.connected (fun _ _ hc => hc) fun aud e he => ?_
  rwa [entries_congr w.process hcache] at he

theorem openServer (h : Inv w) (hnew : w.connection aud = none) :
    Inv { w with connection := Function.update w.connection aud (some c) } where
  process := h.process
  host := h.host
  connected s hs := by
    by_cases haud : s.aud = aud
    · dsimp only
      rw [haud, Function.update_self]
      rfl
    · dsimp only
      rw [Function.update_of_ne haud]
      exact h.connected s hs
  coherent aud' c' hc' e he := by
    -- nothing is cached for an address that is not in use
    have hne : aud' ≠ aud := by
      rintro rfl
      obtain ⟨s, hs, haud⟩ := exists_record he
      have hsome := h.connected s hs
      rw [haud, hnew] at hsome
      cases hsome
    dsimp only at hc'
    rw [Function.update_of_ne hne] at hc'
    exact h.coherent aud' c' hc' e he

theorem getAttributes (h : Inv w) {bucket : AuID} {p : Nat} (he : w.getAttributes aud bucket = .ok (p, w')) : Inv w' := by
  obtain ⟨c, hc, he⟩ := Exec.bind_eq_ok.1 he
  rw [Exec.deref_eq_ok] at hc
  obtain ⟨⟨p', x⟩, hx, he⟩ := Exec.bind_eq_ok.1 he
  cases he
  rcases h.process.auGetBucketAttributes_spec aud bucket ((w.host c.host).procAuGetBucketAttributes bucket) with
    ⟨v, p', x', -, -, hget, -, hgrows⟩ | ⟨hreply, hread⟩
  · obtain ⟨-, rfl⟩ := Prod.mk.inj (Except.ok.inj (hx.symm.trans hget))
    exact h.grows hc hgrows fun _ hP => hP.elim
  · obtain ⟨rep, hrep⟩ := hread _ hx
    obtain ⟨p', x', hget, -, hgrows⟩ := hreply rep hrep
    obtain ⟨-, rfl⟩ := Prod.mk.inj (Except.ok.inj (hx.symm.trans hget))
    refine h.grows hc hgrows ?_
    rintro _ rfl
    exact ((h.host c.host).reply hrep).1

theorem listBuckets (h : Inv w) {fuel : Nat} {selects : Component → Description → Bool}
    (he : step w (.listBuckets fuel aud selects) = .ok w') : Inv w' := by
  obtain ⟨c, hc, he⟩ := Exec.bind_eq_ok.1 he
  rw [Exec.deref_eq_ok] at hc
  obtain ⟨⟨o, x⟩, hx, he⟩ := Exec.bind_eq_ok.1 he
  cases he
  obtain ⟨reps, hreps, -⟩ := Exec.bind_eq_ok.1 hx
  rw [hreps] at hx
  obtain ⟨o', x', hlist, hgrows⟩ := h.process.auListBuckets_spec aud reps
  obtain ⟨-, rfl⟩ := Prod.mk.inj (Except.ok.inj (hx.symm.trans hlist))
  refine h.grows hc hgrows ?_
  rintro _ ⟨rep, hrep, rfl⟩
  exact (h.host c.host).list hreps rep hrep

theorem step (h : Inv w) {call : Call} (hallowed : Allowed w call) (hkept : Kept w call)
    (he : BucketCache.step w call = .ok w') : Inv w' := by
  cases call with
  | openServer aud c =>
    cases he
    exact h.openServer hallowed
  | request i env r => exact h.dispatch hallowed hkept he
  | tick i env t =>
    obtain ⟨s, hs, he⟩ := Exec.bind_eq_ok.1 he
    cases he
    exact h.tick hs
  | createBucket i env id a d => exact h.createBucket hallowed.1 hallowed.2 he
  | getAttributes aud bucket =>
    obtain ⟨⟨p, w₁⟩, hw₁, he⟩ := Exec.bind_eq_ok.1 he
    cases he
    exact h.getAttributes hw₁
  | listBuckets fuel aud selects => exact h.listBuckets he
  | destroyBucket env aud bucket => exact h.destroyBucket he
  | closeServer env aud => exact h.closeServer he
  | free k => exact h.free he

/-- What is left of a cache after a request at a server is what there was. -/
theorem process_dispatch {r : Request} (he : w.dispatch i env r = .ok w') : w'.process = w.process := by
  obtain ⟨_, -, he⟩ := Exec.bind_eq_ok.1 he
  cases he
  rfl

theorem transparent (h : Inv w) : Transparent w where
  get aud c bucket rep hc hrep := by
    have hget {p : Nat} {x : Process} (hx : auGetBucketAttributes aud bucket
        ((w.host c.host).procAuGetBucketAttributes bucket) w.process = .ok (p, x)) :
        w.getAttributes aud bucket = .ok (p, { w with process := x }) := by
      unfold World.getAttributes
      rw [hc, Exec.deref_some, Exec.ok_bind, hx, Exec.ok_bind]
    rcases h.process.auGetBucketAttributes_spec aud bucket ((w.host c.host).procAuGetBucketAttributes bucket) with
      ⟨v, p, x, hv, hid, hx, hview, -⟩ | ⟨hreply, -⟩
    · refine ⟨p, _, hget hx, ?_⟩
      rw [hview, ((h.host c.host).reply hrep).2.2 v (h.coherent aud c hc v hv) hid]
    · obtain ⟨p, x, hx, hview, -⟩ := hreply rep hrep
      exact ⟨p, _, hget hx, hview⟩
  owned k hk := by
    obtain ⟨⟨p, num⟩, ht⟩ : ∃ t, w.process.held[k]? = some t := ⟨_, List.getElem?_eq_getElem hk⟩
    obtain ⟨m, hm, -, hcache⟩ := h.process.free_spec ht
    dsimp only at hm
    refine ⟨{ w with process := { w.process with mem := m, held := w.process.held.eraseIdx k } }, ?_, rfl, hcache⟩
    unfold World.free
    rw [ht, Exec.deref_some, Exec.ok_bind]
    dsimp only
    rw [hm, Exec.ok_bind]
  destroyed env aud bucket w' he s hs haud e hmem := by
    obtain ⟨c, -, he⟩ := Exec.bind_eq_ok.1 he
    obtain ⟨x, hx, he⟩ := Exec.bind_eq_ok.1 he
    obtain ⟨x', hx', hok, -, -, hgone⟩ := h.process.auRemoveFromBucketCache_spec aud bucket
    obtain rfl : x = x' := Except.ok.inj (hx.symm.trans hx')
    have hprocess : w'.process = x := process_dispatch he
    rw [hprocess] at hs ⊢
    obtain ⟨r, rs, -, -, -, -, hview⟩ := (hok.sound_cached hs hmem).record (i := 0) Nat.one_pos
    refine ⟨_, hview, hgone _ ?_⟩
    exact List.mem_filterMap.2 ⟨e, mem_cached.2 ⟨s, hs, haud, hmem⟩, hview⟩
  closed env aud w' he s hs := by
    obtain ⟨c, -, he⟩ := Exec.bind_eq_ok.1 he
    obtain ⟨x, hx, he⟩ := Exec.bind_eq_ok.1 he
    obtain ⟨x', hx', -, hservers, -⟩ := h.process.auFreeBucketCache_spec aud
    obtain rfl : x = x' := Except.ok.inj (hx.symm.trans hx')
    have hprocess : w'.process = x := process_dispatch he
    rw [hprocess] at hs
    exact (hservers s hs).2

end Inv

/-- A program that has not done anything yet, and servers with what they have set up. -/
structure Started (w : World) : Prop where
  process : w.process = {}
  connection : ∀ aud, w.connection aud = none
  host : ∀ i, (w.host i).Ok

theorem Started.inv (h : Started w) : Inv w where
  process := by
    rw [h.process]
    exact ⟨⟨nofun, List.nodup_nil⟩, List.nodup_nil, fun _ => List.nodup_nil, nofun⟩
  host := h.host
  connected s hs := by
    rw [h.process] at hs
    cases hs
  coherent aud c hc := by
    rw [h.connection] at hc
    cases hc

/-- The cache is transparent along every run in which the imports of a device get the rate that is in the cache. -/
theorem transparent_of_kept {calls : List Call} {w₀ : World} (h₀ : Started w₀)
    (hallowed : Each step Allowed calls w₀) (hkept : Each step Kept calls w₀) : Always step Transparent calls w₀ := by
  have hinv := h₀.inv
  clear h₀
  induction calls generalizing w₀ with
  | nil => exact hinv.transparent
  | cons call calls ih =>
    exact ⟨hinv.transparent, fun w' he => ih (hallowed.2 w' he) (hkept.2 w' he) (hinv.step hallowed.1 hkept.1 he)⟩

/-! ### An import of a bucket as a device -/

def bucketEnv : Env where
  auAverageFlows := false
  auMinibufSamples := 4
  fuel := 4
  mem _ := true
  processMem _ _ := true

/-- The text `tone`. -/
def bucketDescription : Description where
  valueMask := 2 ^ 17 + 2 ^ 16 + 2 ^ 7 - 1
  changableMask := 0
  use := 3
  type := 1
  string := [116, 111, 110, 101]
  described := by decide

/-- A bucket that is exported, as if it were a device. -/
def importElements (sampleRate : Nat) : SetElementsRequest where
  client := 1
  flow := 2 ^ 22 + 1
  clocked := true
  len := 48
  elements := [.importDevice ⟨sampleRate, 4, 2 ^ 22, []⟩, .exportClient ⟨8000, 0, 1, 1, false, 8, 6, []⟩]

def startWorld : World where
  host _ := ⟨{}, fun _ => bucketDescription⟩

/-- A bucket of 8000 samples a second is created and its attributes are asked for. -/
def bucketCalls : List Call :=
  [.openServer 0 ⟨0, 1⟩, .request 0 bucketEnv (.connect 1),
    .createBucket 0 bucketEnv (2 ^ 22) ⟨2 ^ 22, 0, 1, 1, 8000, 4, 0⟩ bucketDescription, .getAttributes 0 (2 ^ 22),
    .request 0 bucketEnv (.createFlow (2 ^ 22 + 1))]

/-- Then it is imported. -/
def importCalls (sampleRate : Nat) : List Call :=
  bucketCalls ++ [.request 0 bucketEnv (.setElements (importElements sampleRate)), .getAttributes 0 (2 ^ 22)]

theorem started_startWorld : Started startWorld where
  process := rfl
  connection _ := rfl
  host _ :=
    { placed := nofun
      fresh := nofun
      lt := nofun
      own := nofun
      unique := nofun
      zero := rfl }

theorem importCalls_allowed (sampleRate : Nat) : Each step Allowed (importCalls sampleRate) startWorld := by
  refine ⟨rfl, fun w hw => ⟨trivial, fun w' hw' => ?_⟩⟩
  cases hw
  cases hw'
  refine ⟨⟨rfl, by decide, rfl, nofun, nofun⟩, fun _ _ => ?_⟩
  exact ⟨trivial, fun _ _ => ⟨trivial, fun _ _ => ⟨trivial, fun _ _ => ⟨trivial, fun _ _ => trivial⟩⟩⟩⟩

/-- With the rate that the bucket has, the cache is transparent all along. -/
theorem sameRate_transparent : Always step Transparent (importCalls 8000) startWorld := by
  obtain ⟨w, hw, hrates⟩ : ∃ w, List.foldlM step startWorld bucketCalls = .ok w ∧
      (w.process.servers.all fun s => (w.process.entries s.aud).all (·.1.sampleRate = 8000)) = true := ⟨_, rfl, rfl⟩
  refine transparent_of_kept started_startWorld (importCalls_allowed 8000) (Each.append ?_ hw ⟨?_, fun _ _ => ?_⟩)
  · refine ⟨trivial, fun _ _ => ⟨trivial, fun _ _ => ⟨trivial, fun _ _ => ?_⟩⟩⟩
    exact ⟨trivial, fun _ _ => ⟨trivial, fun _ _ => trivial⟩⟩
  · rintro q rate ⟨i, e, d, p, -, -, -, hp, -, rfl⟩ s hs - e he -
    rw [List.all_eq_true] at hrates
    have hrate := List.all_eq_true.1 (hrates s hs) e he
    have hmem := List.mem_of_getElem? hp
    obtain rfl : p = ⟨8000, 4, 2 ^ 22, []⟩ := by simpa [importElements] using hmem
    exact (of_decide_eq_true hrate).symm
  · exact ⟨trivial, fun _ _ => trivial⟩

/-- With another rate it returns the old one. -/
theorem stale_rate : ¬ ∀ (calls : List Call) (w₀ : World), Started w₀ → Each step Allowed calls w₀ →
    Always step Transparent calls w₀ := by
  intro h
  have htransparent := h (importCalls 16000) startWorld started_startWorld (importCalls_allowed 16000)
  obtain ⟨w, c, rep, hw, hc, hrep, hrate, hold⟩ : ∃ w c rep, List.foldlM step startWorld (importCalls 16000) = .ok w ∧
      w.connection 0 = some c ∧ (w.host c.host).procAuGetBucketAttributes (2 ^ 22) = .ok (some rep) ∧
      rep.attributes.sampleRate = 16000 ∧
      ∃ p w' v, w.getAttributes 0 (2 ^ 22) = .ok (p, w') ∧ view w'.process.mem p 0 = some v ∧ v.1.sampleRate = 8000 :=
    ⟨_, _, _, rfl, rfl, rfl, rfl, _, _, _, rfl, rfl, rfl⟩
  obtain ⟨p, w', hget, hview⟩ := (htransparent.run hw).get 0 c (2 ^ 22) rep hc hrep
  obtain ⟨p', w'', v, hget', hview', hv⟩ := hold
  obtain ⟨rfl, rfl⟩ := Prod.mk.inj (Except.ok.inj (hget.symm.trans hget'))
  obtain rfl : rep.content = v := Option.some.inj (hview.symm.trans hview')
  cases hv.symm.trans hrate

end Run

end Nas.BucketCache
