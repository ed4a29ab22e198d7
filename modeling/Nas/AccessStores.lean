import Nas.Chain
import Mathlib.Data.Finset.Basic
import Mathlib.Data.Finset.Dedup
import Mathlib.Data.Finset.Insert
import Mathlib.Algebra.Group.Nat.Defs

/-!
# The authorisation cookies and the list of hosts

`mitauth.c` and the host list of `access.c`: two singly linked lists whose records are put in at the head. A
`Ledger` is what they are for, a list of cookies and a set of hosts; `Represents` says that the stores hold what the
ledger has and accept what is in it.

`mitRemoveCookie` looks as if it kept the record in front of the one it stands at, but never does, so it drops that
record along with the one that it is asked for (`Good`).
-/

namespace Nas.AccessStores

/-- `bcmp(a, b, n) == 0` -/
def bcmp (a b : List UInt8) (n : Nat) : Bool := a.take n = b.take n

theorem bcmp_self_length {a b : List UInt8} (h : a.length = b.length) : bcmp a b a.length = true ↔ a = b := by
  unfold bcmp
  rw [decide_eq_true_iff, List.take_length, h, List.take_length]

/-! ### Cookies -/

abbrev AuID := BitVec 32

/-- The bytes that an `unsigned short` length can go with. -/
abbrev CookieData := { data : List UInt8 // data.length < 2 ^ 16 }

/-- `struct auth` -/
structure Auth where
  data : CookieData
  id : AuID
deriving DecidableEq

def Auth.len (auth : Auth) : Nat := auth.data.val.length

def Auth.matches (data : CookieData) (auth : Auth) : Bool :=
  data.val.length = auth.len && bcmp data.val auth.data.val data.val.length

@[simp] theorem Auth.matches_iff {data : CookieData} {auth : Auth} : auth.matches data = true ↔ auth.data = data := by
  unfold Auth.matches Auth.len
  rw [Bool.and_eq_true, decide_eq_true_iff, Subtype.ext_iff]
  constructor
  · rintro ⟨hlen, hdata⟩
    exact ((bcmp_self_length hlen).1 hdata).symm
  · intro heq
    exact ⟨by rw [heq], (bcmp_self_length (by rw [heq])).2 heq.symm⟩

structure Cookies where
  mitAuth : Option Nat := none
  mem : Heap (Node Auth) := .empty

/-- `xalloc(0)` is null. The flags tell whether there is memory for the record, and for the data. -/
def mitAddCookie (forAuth forData : Bool) (data : CookieData) (id : AuID) (s : Cookies) : Bool × Cookies :=
  if forAuth = false then (false, s)
  else if data.val.length = 0 ∨ forData = false then (false, s)
  else (true, { mitAuth := some s.mem.next, mem := s.mem.alloc ⟨⟨data, id⟩, s.mitAuth⟩ })

def mitCheckCookie (data : CookieData) (s : Cookies) : Exec AuID := do
  match ← find s.mem (Auth.matches data) s.mem.next (.head 0) s.mitAuth with
  | some (_, _, node) => .ok node.item.id
  | none => .ok (-1)

/-- `xfree(auth->data); xfree(auth)` for each record -/
def freeAll : Nat → Option Nat → Heap (Node Auth) → Exec (Heap (Node Auth))
  | _, none, mem => .ok mem
  | 0, some _, _ => .error .fuel
  | n + 1, some auth, mem => do
    let node ← Exec.deref (mem.get auth)
    freeAll n node.next (mem.free auth)

def mitResetCookie (s : Cookies) : Exec Cookies := do
  let mem ← freeAll s.mem.next s.mitAuth s.mem
  .ok { mitAuth := none, mem }

def mitRemoveCookie (data : CookieData) (s : Cookies) : Exec (Bool × Cookies) := do
  -- the loop never assigns to it
  let prev : Option Nat := none
  match ← find s.mem (Auth.matches data) s.mem.next (.head 0) s.mitAuth with
  | none => .ok (false, s)
  | some (_, auth, node) =>
    let s' : Cookies := match prev with
      | some prev => { s with mem := s.mem.modify prev ({ · with next := node.next }) }
      | none => { s with mitAuth := node.next }
    .ok (true, { s' with mem := s'.mem.free auth })

/-! ### Hosts -/

/-- A `HOST` -/
structure Host where
  family : Int16
  addr : List UInt8
deriving DecidableEq

/-- A `short`. -/
def Host.len (host : Host) : Int16 := .ofInt host.addr.length

/-- A host whose length is one. -/
structure ShortHost extends Host where
  fits : addr.length < 2 ^ 15

def addrEqual (family : Int) (address : List UInt8) (host : Host) : Bool :=
  family = host.family.toInt && (address.length : Int) = host.len.toInt && bcmp address host.addr address.length

theorem addrEqual_iff {family : Int} {address : List UInt8} {host : Host} (h : host.addr.length < 2 ^ 15) :
    addrEqual family address host = true ↔ family = host.family.toInt ∧ address = host.addr := by
  have hlen : host.len.toInt = (host.addr.length : Int) := by
    unfold Host.len
    rw [Int16.toInt_ofInt_of_le (by omega) (by omega)]
  unfold addrEqual
  rw [Bool.and_eq_true, Bool.and_eq_true, decide_eq_true_iff, decide_eq_true_iff, hlen, Int.ofNat_inj, and_assoc]
  refine and_congr_right fun _ => ⟨fun ⟨hl, hb⟩ => (bcmp_self_length hl).1 hb, ?_⟩
  rintro rfl
  exact ⟨rfl, (bcmp_self_length rfl).2 rfl⟩

/-- `struct sockaddr` -/
structure SockAddr where
  saFamily : Nat
  sinAddr : { addr : List UInt8 // addr.length = 4 }

/-- What `ConvertAddr` returns. -/
inductive Address where
  | unknown
  | familyLocal
  | internet (addr : { addr : List UInt8 // addr.length = 4 })

abbrev AF_UNSPEC := 0
abbrev AF_UNIX := 1
abbrev AF_INET := 2

abbrev auNetworkInternet : Int16 := 0

def convertAddr (saddr : SockAddr) (len : Int) : Address :=
  if len = 0 then .familyLocal
  else if saddr.saFamily = AF_UNSPEC ∨ saddr.saFamily = AF_UNIX then .familyLocal
  else if saddr.saFamily = AF_INET then .internet saddr.sinAddr
  else .unknown

/-- The other variables that decide who is let in. -/
structure Config where
  accessEnabled : Bool
  localHostEnabled : Bool
  defeatAccessControl : Bool
  selfhosts : List Host

/-- A client, as far as `getpeername` tells it. -/
structure Client where
  peer : Option (SockAddr × Int)

def authorizedClient (config : Config) (client : Option Client) : Bool :=
  match client with
  | none => true
  | some client =>
    if config.defeatAccessControl then true
    else match client.peer with
      | none => false
      | some (sockaddr, alen) =>
        match convertAddr sockaddr alen with
        | .unknown => false
        | .familyLocal => true
        | .internet addr => config.selfhosts.any (addrEqual auNetworkInternet.toInt addr)

/-- The length of an address, if it is a valid one. -/
def checkAddr (family : Int) (length : Nat) : Option Nat :=
  if family = auNetworkInternet.toInt then
    if length = 4 then some length else none
  else none

structure Hosts where
  validhosts : Option Nat := none
  mem : Heap (Node Host) := .empty

/-- `MakeHost` writes to the record before it is looked at whether there is one. -/
def newHost (memory : Bool) (family : Int16) (addr : List UInt8) (s : Hosts) : Exec (Bool × Hosts) := do
  match ← find s.mem (addrEqual family.toInt addr) s.mem.next (.head 0) s.validhosts with
  | some _ => .ok (true, s)
  | none =>
    if memory then
      .ok (true, { validhosts := some s.mem.next, mem := s.mem.alloc ⟨⟨family, addr⟩, s.validhosts⟩ })
    else .error .fault

/-- What a request is answered with, and what `client->errorValue` is then. -/
inductive Status where
  | auSuccess
  | auBadAccess
  | auBadAlloc
  | auBadValue (errorValue : Int)
deriving DecidableEq, Repr

def validFamily (family : Int) : Bool := family = auNetworkInternet.toInt || family = 1 || family = 2

def addHost (config : Config) (client : Option Client) (memory : Bool) (family : Int) (pAddr : List UInt8) (s : Hosts) :
    Exec (Status × Hosts) :=
  if !authorizedClient config client then .ok (.auBadAccess, s)
  else if !validFamily family then .ok (.auBadValue family, s)
  else match checkAddr family pAddr.length with
    | none => .ok (.auBadValue pAddr.length, s)
    | some len => do
      let (ok, s) ← newHost memory (.ofInt family) (pAddr.take len) s
      .ok (if ok then .auSuccess else .auBadAlloc, s)

def removeHost (config : Config) (client : Option Client) (family : Int) (pAddr : List UInt8) (s : Hosts) :
    Exec (Status × Hosts) :=
  if !authorizedClient config client then .ok (.auBadAccess, s)
  else if !validFamily family then .ok (.auBadValue family, s)
  else match checkAddr family pAddr.length with
    | none => .ok (.auBadValue pAddr.length, s)
    | some len => do
      match ← find s.mem (addrEqual family (pAddr.take len)) s.mem.next (.head 0) s.validhosts with
      | none => .ok (.auSuccess, s)
      | some (prev, host, node) =>
        let (heads, mem) ← prev.write [s.validhosts] s.mem node.next
        .ok (.auSuccess, { validhosts := heads.head?.join, mem := mem.free host })

/-- Whether one of some hosts is in the list. -/
def anyValid (s : Hosts) : List Host → Exec Bool
  | [] => .ok false
  | selfhost :: rest => do
    match ← find s.mem (addrEqual selfhost.family.toInt selfhost.addr) s.mem.next (.head 0) s.validhosts with
    | some _ => .ok true
    | none => anyValid s rest

/-- 1 if the host is not in the list. -/
def invalidHost (config : Config) (saddr : SockAddr) (len : Int) (s : Hosts) : Exec Nat :=
  if !config.accessEnabled then .ok 0
  else match convertAddr saddr len with
    | .unknown => .ok 1
    | .familyLocal =>
      if config.localHostEnabled then .ok 0
      else do
        if ← anyValid s config.selfhosts then .ok 0 else .ok 1
    | .internet addr => do
      match ← find s.mem (addrEqual auNetworkInternet.toInt addr) s.mem.next (.head 0) s.validhosts with
      | some _ => .ok 0
      | none => .ok 1

/-! ### Runs -/

structure Stores where
  cookies : Cookies := {}
  hosts : Hosts := {}

inductive Op where
  | mitAddCookie (forAuth forData : Bool) (data : CookieData) (id : AuID)
  | mitCheckCookie (data : CookieData)
  | mitRemoveCookie (data : CookieData)
  | mitResetCookie
  | newHost (memory : Bool) (host : ShortHost)
  | addHost (config : Config) (client : Option Client) (memory : Bool) (family : Int) (pAddr : List UInt8)
  | removeHost (config : Config) (client : Option Client) (family : Int) (pAddr : List UInt8)
  | invalidHost (config : Config) (saddr : SockAddr) (len : Int)

def Stores.step (s : Stores) : Op → Exec Stores
  | .mitAddCookie forAuth forData data id =>
    .ok { s with cookies := (AccessStores.mitAddCookie forAuth forData data id s.cookies).2 }
  | .mitCheckCookie data => do
    let _ ← AccessStores.mitCheckCookie data s.cookies
    .ok s
  | .mitRemoveCookie data => do
    let (_, cookies) ← AccessStores.mitRemoveCookie data s.cookies
    .ok { s with cookies }
  | .mitResetCookie => do
    let cookies ← AccessStores.mitResetCookie s.cookies
    .ok { s with cookies }
  | .newHost memory host => do
    let (_, hosts) ← AccessStores.newHost memory host.family host.addr s.hosts
    .ok { s with hosts }
  | .addHost config client memory family pAddr => do
    let (_, hosts) ← AccessStores.addHost config client memory family pAddr s.hosts
    .ok { s with hosts }
  | .removeHost config client family pAddr => do
    let (_, hosts) ← AccessStores.removeHost config client family pAddr s.hosts
    .ok { s with hosts }
  | .invalidHost config saddr len => do
    let _ ← AccessStores.invalidHost config saddr len s.hosts
    .ok s

/-! ### What they are for -/

/-- The cookies, the latest first, and the hosts that were added and not removed. -/
structure Ledger where
  cookies : List Auth := []
  hosts : Finset Host := ∅

/-- A request for a host that is carried out. -/
def Accepted (config : Config) (client : Option Client) (family : Int) (pAddr : List UInt8) : Prop :=
  authorizedClient config client = true ∧ family = auNetworkInternet.toInt ∧ pAddr.length = 4

instance (config : Config) (client : Option Client) (family : Int) (pAddr : List UInt8) :
    Decidable (Accepted config client family pAddr) := inferInstanceAs (Decidable (_ ∧ _ ∧ _))

def Ledger.step (a : Ledger) : Op → Ledger
  | .mitAddCookie forAuth forData data id =>
    if forAuth ∧ forData ∧ data.val ≠ [] then { a with cookies := ⟨data, id⟩ :: a.cookies } else a
  | .mitRemoveCookie data => { a with cookies := a.cookies.eraseP (·.data = data) }
  | .mitResetCookie => { a with cookies := [] }
  | .newHost _ host => { a with hosts := insert host.toHost a.hosts }
  | .addHost config client _ family pAddr =>
    if Accepted config client family pAddr then { a with hosts := insert ⟨auNetworkInternet, pAddr⟩ a.hosts } else a
  | .removeHost config client family pAddr =>
    if Accepted config client family pAddr then { a with hosts := a.hosts.erase ⟨auNetworkInternet, pAddr⟩ } else a
  | .mitCheckCookie _ | .invalidHost .. => a

/-- Who is let in. -/
def Admitted (hosts : Finset Host) (config : Config) (saddr : SockAddr) (len : Int) : Prop :=
  config.accessEnabled = true → match convertAddr saddr len with
    | .unknown => False
    | .familyLocal => config.localHostEnabled = true ∨ ∃ host ∈ config.selfhosts, host ∈ hosts
    | .internet addr => ⟨auNetworkInternet, addr⟩ ∈ hosts

structure Represents (s : Stores) (a : Ledger) : Prop where
  cookies : Holds s.cookies.mem s.cookies.mitAuth a.cookies
  check : ∀ data, ∃ id, mitCheckCookie data s.cookies = .ok id ∧ (id ≠ -1 ↔ ∃ auth ∈ a.cookies, auth.data = data)
  hosts : ∃ l : List Host, Holds s.hosts.mem s.hosts.validhosts l ∧ l.Nodup ∧ l.toFinset = a.hosts
  invalid : ∀ config saddr len, ∃ v, invalidHost config saddr len s.hosts = .ok v ∧
    (v = 0 ↔ Admitted a.hosts config saddr len)

/-! ### The cookies are kept -/

section Cookies
variable {s : Cookies} {cookies : List Auth} {data : CookieData}

theorem check_spec (h : Holds s.mem s.mitAuth cookies) (hid : ∀ auth ∈ cookies, auth.id ≠ -1) (data : CookieData) :
    ∃ id, mitCheckCookie data s = .ok id ∧ (id ≠ -1 ↔ ∃ auth ∈ cookies, auth.data = data) := by
  rcases h.find (Auth.matches data) (.head 0) with ⟨hfind, hnone⟩ | ⟨l₁, p, node, pre, post, hloc, hfind⟩
  · refine ⟨-1, by rw [mitCheckCookie, hfind]; rfl, ⟨fun hne => absurd rfl hne, fun ⟨auth, hmem, heq⟩ => ?_⟩⟩
    have hnot := hnone auth hmem
    rw [Auth.matches_iff.2 heq] at hnot
    cases hnot
  · have hmem : node.item ∈ cookies := by simp [hloc.items_eq]
    exact ⟨node.item.id, by rw [mitCheckCookie, hfind]; rfl,
      fun _ => ⟨node.item, hmem, Auth.matches_iff.1 hloc.first⟩, fun _ => hid _ hmem⟩

/-- The latest cookie is found first. -/
theorem check_first (data : CookieData) (id : AuID) (s : Cookies) (hne : data.val ≠ []) :
    mitCheckCookie data (mitAddCookie true true data id s).2 = .ok id := by
  have hget : (s.mem.alloc ⟨(⟨data, id⟩ : Auth), s.mitAuth⟩).get s.mem.next = some ⟨⟨data, id⟩, s.mitAuth⟩ := by
    rw [Heap.get_alloc, if_pos rfl]
  rw [mitAddCookie, if_neg (by simp), if_neg (by simp [hne]), mitCheckCookie, Heap.alloc_next, find, hget, Exec.deref_some,
    Exec.ok_bind]
  dsimp only
  rw [if_pos ((@Auth.matches_iff data ⟨data, id⟩).2 rfl)]
  rfl

theorem freeAll_spec {mem : Heap (Node Auth)} {head : Option Nat} {l : List Nat} (h : Segment mem head l none) {n : Nat}
    (hn : l.length ≤ n) : ∃ mem', freeAll n head mem = .ok mem' := by
  induction l generalizing head n mem with
  | nil =>
    cases h
    unfold freeAll
    exact ⟨mem, rfl⟩
  | cons p l ih =>
    have hnodup := List.nodup_cons.1 h.nodup
    obtain ⟨rfl, node, hget, h⟩ := h
    obtain ⟨n, rfl⟩ : ∃ m, n = m + 1 := ⟨n - 1, by simp at hn; omega⟩
    have hrest : Segment (mem.free p) node.next l none := h.congr fun q hq => by
      rw [Heap.get_free, if_neg]
      rintro rfl
      exact hnodup.1 hq
    rw [freeAll, hget, Exec.deref_some, Exec.ok_bind]
    exact ih hrest (by simpa using hn)

theorem reset_spec (h : Holds s.mem s.mitAuth cookies) :
    ∃ s', mitResetCookie s = .ok s' ∧ Holds s'.mem s'.mitAuth [] := by
  obtain ⟨l, hl, -⟩ := h
  obtain ⟨mem, hmem⟩ := freeAll_spec hl hl.length_le
  exact ⟨⟨none, mem⟩, by rw [mitResetCookie, hmem]; rfl, [], rfl, rfl⟩

/-- What is left of the cookies: those behind the one that is removed. -/
theorem remove_spec (h : Holds s.mem s.mitAuth cookies) (data : CookieData) :
    (∃ s', mitRemoveCookie data s = .ok (false, s') ∧ s' = s ∧ ∀ auth ∈ cookies, auth.data ≠ data) ∨
      ∃ s' pre auth post, mitRemoveCookie data s = .ok (true, s') ∧ cookies = pre ++ auth :: post ∧ auth.data = data ∧
        (∀ auth ∈ pre, auth.data ≠ data) ∧ Holds s'.mem s'.mitAuth post := by
  rcases h.find (Auth.matches data) (.head 0) with ⟨hfind, hnone⟩ | ⟨l₁, p, node, pre, post, hloc, hfind⟩
  · refine .inl ⟨s, by rw [mitRemoveCookie, hfind]; rfl, rfl, fun auth hmem heq => ?_⟩
    have hnot := hnone auth hmem
    rw [Auth.matches_iff.2 heq] at hnot
    cases hnot
  · refine .inr ⟨⟨node.next, s.mem.free p⟩, pre, node.item, post, by rw [mitRemoveCookie, hfind]; rfl, hloc.items_eq,
      Auth.matches_iff.1 hloc.first, fun auth hmem heq => ?_, Holds.behind hloc⟩
    have hnot := hloc.unwanted auth hmem
    rw [Auth.matches_iff.2 heq] at hnot
    cases hnot

/-- A cookie that is removed takes those in front of it with it. -/
theorem eraseP_of_front {pre post : List Auth} {auth : Auth} (hauth : auth.data = data)
    (hpre : ∀ auth ∈ pre, auth.data ≠ data) :
    (pre ++ auth :: post).eraseP (·.data = data) = pre ++ post := by
  rw [List.eraseP_append_right _ (by simpa using hpre), List.eraseP_cons_of_pos (by simpa using hauth)]

end Cookies

/-! ### The hosts are kept -/

section Hosts
variable {s : Hosts} {hosts : Finset Host} {family : Int16} {addr : List UInt8}

/-- The list has no duplicates, and is the set. -/
structure HostsAre (s : Hosts) (hosts : Finset Host) : Prop where
  list : ∃ l : List Host, Holds s.mem s.validhosts l ∧ l.Nodup ∧ l.toFinset = hosts
  fits : ∀ host ∈ hosts, host.addr.length < 2 ^ 15

theorem HostsAre.find (h : HostsAre s hosts) (family : Int16) (addr : List UInt8) :
    (Nas.find s.mem (addrEqual family.toInt addr) s.mem.next (.head 0) s.validhosts = .ok none ∧
      (⟨family, addr⟩ : Host) ∉ hosts) ∨
    ∃ l₁ p node pre post, Located s.mem s.validhosts (pre ++ node.item :: post) (addrEqual family.toInt addr) l₁ p node pre post ∧
      Nas.find s.mem (addrEqual family.toInt addr) s.mem.next (.head 0) s.validhosts =
        .ok (some ((Slot.head 0).after l₁, p, node)) ∧
      node.item = ⟨family, addr⟩ ∧ (pre ++ node.item :: post).Nodup ∧ (pre ++ node.item :: post).toFinset = hosts := by
  obtain ⟨l, hl, hnodup, rfl⟩ := h.list
  have hfits : ∀ host ∈ l, host.addr.length < 2 ^ 15 := fun host hmem => h.fits host (List.mem_toFinset.2 hmem)
  rcases hl.find (addrEqual family.toInt addr) (.head 0) with ⟨hfind, hnone⟩ | ⟨l₁, p, node, pre, post, hloc, hfind⟩
  · refine .inl ⟨hfind, fun hmem => ?_⟩
    have hmem := List.mem_toFinset.1 hmem
    have hnot := hnone _ hmem
    rw [(addrEqual_iff (hfits _ hmem)).2 ⟨rfl, rfl⟩] at hnot
    cases hnot
  · have heq := hloc.items_eq
    subst heq
    obtain ⟨hfamily, haddr⟩ := (addrEqual_iff (hfits node.item (by simp))).1 hloc.first
    refine .inr ⟨l₁, p, node, pre, post, hloc, hfind, ?_, hnodup, rfl⟩
    rcases hitem : node.item with ⟨f, a⟩
    rw [hitem] at hfamily haddr
    rw [haddr, Int16.toInt_inj.1 hfamily]

theorem newHost_spec (h : HostsAre s hosts) (hfits : addr.length < 2 ^ 15) {memory : Bool}
    (hmem : memory = true ∨ (⟨family, addr⟩ : Host) ∈ hosts) :
    ∃ s', newHost memory family addr s = .ok (true, s') ∧ HostsAre s' (insert ⟨family, addr⟩ hosts) := by
  rcases h.find family addr with ⟨hfind, hnot⟩ | ⟨l₁, p, node, pre, post, -, hfind, hitem, -, hset⟩
  · obtain ⟨l, hl, hnodup, rfl⟩ := h.list
    have hmemory : memory = true := hmem.resolve_right hnot
    refine ⟨_, by rw [newHost, hfind, Exec.ok_bind]; dsimp only; rw [if_pos hmemory], ⟨_, hl.push _, ?_, ?_⟩,
      fun host hhost => ?_⟩
    · exact List.nodup_cons.2 ⟨fun hin => hnot (List.mem_toFinset.2 hin), hnodup⟩
    · rw [List.toFinset_cons]
    · rcases Finset.mem_insert.1 hhost with rfl | hhost
      · exact hfits
      · exact h.fits host hhost
  · refine ⟨s, by rw [newHost, hfind]; rfl, ?_⟩
    have hin : (⟨family, addr⟩ : Host) ∈ hosts := by
      rw [← hset, ← hitem]
      simp
    rwa [Finset.insert_eq_of_mem hin]

/-- Without memory it has no result for a host that is not in the list. -/
theorem newHost_fault (h : HostsAre s hosts) (hnot : (⟨family, addr⟩ : Host) ∉ hosts) :
    newHost false family addr s = .error .fault := by
  rcases h.find family addr with ⟨hfind, -⟩ | ⟨l₁, p, node, pre, post, -, -, hitem, -, hset⟩
  · rw [newHost, hfind]
    rfl
  · refine absurd ?_ hnot
    rw [← hset, ← hitem]
    simp

theorem accepted_iff {config : Config} {client : Option Client} {family : Int} {pAddr : List UInt8} :
    Accepted config client family pAddr ↔ authorizedClient config client = true ∧ validFamily family = true ∧
      checkAddr family pAddr.length = some pAddr.length := by
  unfold Accepted validFamily checkAddr
  by_cases hf : family = auNetworkInternet.toInt <;> by_cases hl : pAddr.length = 4 <;> simp [hf, hl]

/-- A request that is not carried out. -/
theorem refused {config : Config} {client : Option Client} {family : Int} {pAddr : List UInt8}
    (h : ¬ Accepted config client family pAddr) (s : Hosts) (memory : Bool) :
    (∃ status, addHost config client memory family pAddr s = .ok (status, s)) ∧
      ∃ status, removeHost config client family pAddr s = .ok (status, s) := by
  unfold addHost removeHost
  by_cases hauth : authorizedClient config client = true
  · by_cases hfamily : validFamily family = true
    · rcases hcheck : checkAddr family pAddr.length with _ | len
      · rw [hauth, hfamily]
        exact ⟨⟨_, rfl⟩, _, rfl⟩
      · refine absurd (accepted_iff.2 ⟨hauth, hfamily, ?_⟩) h
        unfold checkAddr at hcheck ⊢
        split at hcheck
        · split at hcheck
          · rename_i hf hl
            rw [if_pos hf, if_pos hl]
          · cases hcheck
        · cases hcheck
    · rw [hauth, Bool.eq_false_iff.2 hfamily]
      exact ⟨⟨_, rfl⟩, _, rfl⟩
  · rw [Bool.eq_false_iff.2 hauth]
    exact ⟨⟨_, rfl⟩, _, rfl⟩

theorem addHost_accepted {config : Config} {client : Option Client} {family : Int} {pAddr : List UInt8}
    (h : Accepted config client family pAddr) (s : Hosts) (memory : Bool) :
    addHost config client memory family pAddr s = (fun r => (if r.1 then .auSuccess else .auBadAlloc, r.2)) <$>
      newHost memory auNetworkInternet pAddr s := by
  obtain ⟨hauth, hfamily, hcheck⟩ := accepted_iff.1 h
  unfold addHost
  rw [hauth, hfamily, hcheck, h.2.1]
  dsimp only
  rw [List.take_length, Int16.ofInt_toInt]
  rcases newHost memory auNetworkInternet pAddr s <;> rfl

theorem removeHost_spec {config : Config} {client : Option Client} {family : Int} {pAddr : List UInt8}
    (h : HostsAre s hosts) (hacc : Accepted config client family pAddr) :
    ∃ s', removeHost config client family pAddr s = .ok (.auSuccess, s') ∧
      HostsAre s' (hosts.erase ⟨auNetworkInternet, pAddr⟩) := by
  obtain ⟨hauth, hfamily, hcheck⟩ := accepted_iff.1 hacc
  unfold removeHost
  rw [hauth, hfamily, hcheck]
  dsimp only
  rw [List.take_length, hacc.2.1]
  rcases h.find auNetworkInternet pAddr with ⟨hfind, hnot⟩ | ⟨l₁, p, node, pre, post, hloc, hfind, hitem, hnodup, hset⟩
  · rw [hfind]
    exact ⟨s, rfl, by rwa [Finset.erase_eq_of_notMem hnot]⟩
  · obtain ⟨heads, mem, head, hwrite, hhead, hholds⟩ := Holds.unlink (j := 0) hloc (show [s.validhosts][0]? = _ from rfl)
    rw [hfind, Exec.ok_bind]
    dsimp only
    rw [hwrite]
    refine ⟨_, rfl, ⟨pre ++ post, ?_, ?_, ?_⟩, fun host hhost => h.fits host (Finset.mem_of_mem_erase hhost)⟩
    · rw [List.head?_eq_getElem?, hhead]
      exact hholds
    · exact hnodup.sublist ((List.Sublist.refl pre).append (List.sublist_cons_self _ post))
    · rw [List.nodup_middle, List.nodup_cons] at hnodup
      rw [← hset, ← hitem]
      ext host
      rw [Finset.mem_erase, List.mem_toFinset, List.mem_toFinset, List.mem_append, List.mem_append, List.mem_cons]
      constructor
      · intro hin
        refine ⟨fun heq => hnodup.1 ?_, hin.imp_right .inr⟩
        rw [← heq]
        exact List.mem_append.2 hin
      · rintro ⟨hne, hin | heq | hin⟩
        · exact .inl hin
        · exact absurd heq hne
        · exact .inr hin

theorem anyValid_spec (h : HostsAre s hosts) (l : List Host) :
    ∃ b, anyValid s l = .ok b ∧ (b = true ↔ ∃ host ∈ l, host ∈ hosts) := by
  induction l with
  | nil => exact ⟨false, rfl, by simp⟩
  | cons selfhost l ih =>
    unfold anyValid
    rcases h.find selfhost.family selfhost.addr with ⟨hfind, hnot⟩ | ⟨l₁, p, node, pre, post, -, hfind, hitem, -, hset⟩
    · obtain ⟨b, hb, hiff⟩ := ih
      rw [hfind]
      exact ⟨b, hb, by rw [hiff]; simp [hnot]⟩
    · rw [hfind]
      refine ⟨true, rfl, fun _ => ⟨selfhost, by simp, ?_⟩, fun _ => rfl⟩
      have hin : node.item ∈ hosts := by
        rw [← hset]
        simp
      rwa [hitem] at hin

/-- A host is let in as the set says. -/
theorem invalidHost_spec (h : HostsAre s hosts) (config : Config) (saddr : SockAddr) (len : Int) :
    ∃ v, invalidHost config saddr len s = .ok v ∧ (v = 0 ↔ Admitted hosts config saddr len) := by
  unfold invalidHost Admitted
  by_cases hen : config.accessEnabled = true
  · rw [hen]
    rcases convertAddr saddr len with _ | _ | addr
    · exact ⟨1, rfl, by simp⟩
    · by_cases hlocal : config.localHostEnabled = true
      · rw [hlocal]
        exact ⟨0, rfl, by simp⟩
      · obtain ⟨b, hb, hiff⟩ := anyValid_spec h config.selfhosts
        rw [Bool.eq_false_iff.2 hlocal]
        dsimp only
        rw [hb, ← hiff]
        cases b
        · exact ⟨1, rfl, by simp⟩
        · exact ⟨0, rfl, by simp⟩
    · dsimp only
      rcases h.find auNetworkInternet addr.val with ⟨hfind, hnot⟩ | ⟨l₁, p, node, pre, post, -, hfind, hitem, -, hset⟩
      · rw [hfind]
        exact ⟨1, rfl, by simpa using hnot⟩
      · rw [hfind]
        refine ⟨0, rfl, fun _ _ => ?_, fun _ => rfl⟩
        rw [← hset, ← hitem]
        simp
  · rw [Bool.eq_false_iff.2 hen]
    exact ⟨0, rfl, by simp⟩

end Hosts

/-! ### Runs keep them -/

structure Kept (s : Stores) (a : Ledger) : Prop where
  cookies : Holds s.cookies.mem s.cookies.mitAuth a.cookies
  ids : ∀ auth ∈ a.cookies, auth.id ≠ -1
  hosts : HostsAre s.hosts a.hosts

theorem Kept.represents {s : Stores} {a : Ledger} (h : Kept s a) : Represents s a :=
  ⟨h.cookies, check_spec h.cookies h.ids, h.hosts.list, invalidHost_spec h.hosts⟩

/-- The stores and the ledger together. -/
def step (x : Stores × Ledger) (op : Op) : Exec (Stores × Ledger) := (·, x.2.step op) <$> x.1.step op

/-- A step that the stores follow: a cookie that is removed is the first one, or there is none; a cookie does not
have the id that stands for none; and there is memory for a new host. -/
def Good (x : Stores × Ledger) : Op → Prop
  | .mitAddCookie forAuth forData data id => forAuth = true → forData = true → data.val ≠ [] → id ≠ -1
  | .mitRemoveCookie data => ∀ auth ∈ x.2.cookies, auth.data = data → x.2.cookies.head?.map (·.data) = some data
  | .newHost memory host => memory = true ∨ host.toHost ∈ x.2.hosts
  | .addHost config client memory family pAddr =>
    Accepted config client family pAddr → memory = true ∨ ⟨auNetworkInternet, pAddr⟩ ∈ x.2.hosts
  | _ => True

instance (x : Stores × Ledger) (op : Op) : Decidable (Good x op) := by
  cases op <;> unfold Good <;> infer_instance

section Steps
variable {s : Stores} {a : Ledger}

theorem addCookie_step (h : Kept s a) {forAuth forData : Bool} {data : CookieData} {id : AuID}
    (hid : forAuth = true → forData = true → data.val ≠ [] → id ≠ -1) :
    Kept { s with cookies := (mitAddCookie forAuth forData data id s.cookies).2 }
      (a.step (.mitAddCookie forAuth forData data id)) := by
  simp only [mitAddCookie, Ledger.step]
  by_cases hall : forAuth = true ∧ forData = true ∧ data.val ≠ []
  · obtain ⟨hauth, hdata, hne⟩ := hall
    rw [if_neg (by simp [hauth]), if_neg (by simp [hdata, hne]), if_pos ⟨hauth, hdata, hne⟩]
    refine ⟨h.cookies.push _, fun auth hmem => ?_, h.hosts⟩
    rcases List.mem_cons.1 hmem with rfl | hmem
    · exact hid hauth hdata hne
    · exact h.ids auth hmem
  · rw [if_neg hall]
    by_cases hauth : forAuth = true
    · have hrest : data.val.length = 0 ∨ forData = false := by
        by_cases hdata : forData = true
        · refine .inl (List.length_eq_zero_iff.2 ?_)
          by_contra hne
          exact hall ⟨hauth, hdata, hne⟩
        · exact .inr (Bool.eq_false_iff.2 hdata)
      rw [if_neg (by simp [hauth]), if_pos hrest]
      exact h
    · rw [if_pos (Bool.eq_false_iff.2 hauth)]
      exact h

theorem removeCookie_step (h : Kept s a) {data : CookieData}
    (hfirst : ∀ auth ∈ a.cookies, auth.data = data → a.cookies.head?.map (·.data) = some data) :
    ∃ s', s.step (.mitRemoveCookie data) = .ok s' ∧ Kept s' (a.step (.mitRemoveCookie data)) := by
  simp only [Stores.step, Ledger.step]
  rcases remove_spec h.cookies data with ⟨c, hremove, rfl, hnone⟩ | ⟨c, pre, auth, post, hremove, heq, hauth, hpre, hpost⟩
  · rw [hremove]
    refine ⟨s, rfl, ?_⟩
    rw [List.eraseP_of_forall_not (by simpa using hnone)]
    exact h
  · rw [hremove]
    refine ⟨_, rfl, ?_, fun auth hmem => h.ids auth (List.mem_of_mem_eraseP hmem), h.hosts⟩
    -- nothing is in front of it
    have hnil : pre = [] := by
      rcases pre with _ | ⟨first, pre⟩
      · rfl
      · have hhead := hfirst auth (by simp [heq]) hauth
        rw [heq] at hhead
        exact absurd (Option.some.inj hhead) (hpre first (by simp))
    subst hnil
    dsimp only
    rw [heq, eraseP_of_front hauth hpre]
    exact hpost

theorem newHost_step (h : Kept s a) {memory : Bool} {family : Int16} {addr : List UInt8} (hfits : addr.length < 2 ^ 15)
    (hmem : memory = true ∨ (⟨family, addr⟩ : Host) ∈ a.hosts) :
    ∃ hosts, newHost memory family addr s.hosts = .ok (true, hosts) ∧
      Kept { s with hosts } { a with hosts := insert ⟨family, addr⟩ a.hosts } := by
  obtain ⟨hosts, hnew, hare⟩ := newHost_spec h.hosts hfits hmem
  exact ⟨hosts, hnew, h.cookies, h.ids, hare⟩

end Steps

/-- One step of the stores and the ledger. -/
theorem good_step {x : Stores × Ledger} {op : Op} (h : Kept x.1 x.2) (hgood : Good x op) :
    ∃ x', step x op = .ok x' ∧ Kept x'.1 x'.2 := by
  obtain ⟨s, a⟩ := x
  suffices hstep : ∃ s', s.step op = .ok s' ∧ Kept s' (a.step op) by
    obtain ⟨s', he, hkept⟩ := hstep
    exact ⟨(s', a.step op), Exec.map_eq_ok.2 ⟨s', he, rfl⟩, hkept⟩
  cases op with
  | mitAddCookie forAuth forData data id => exact ⟨_, rfl, addCookie_step h hgood⟩
  | mitCheckCookie data =>
    obtain ⟨id, hcheck, -⟩ := check_spec h.cookies h.ids data
    exact ⟨s, by rw [Stores.step]; rw [hcheck]; rfl, h⟩
  | mitRemoveCookie data => exact removeCookie_step h hgood
  | mitResetCookie =>
    obtain ⟨c, hreset, hempty⟩ := reset_spec h.cookies
    exact ⟨{ s with cookies := c }, by rw [Stores.step]; rw [hreset]; rfl, hempty, by simp [Ledger.step], h.hosts⟩
  | newHost memory host =>
    obtain ⟨hosts, hnew, hkept⟩ := newHost_step h host.fits hgood
    exact ⟨_, by rw [Stores.step]; rw [hnew]; rfl, hkept⟩
  | addHost config client memory family pAddr =>
    simp only [Stores.step, Ledger.step]
    by_cases hacc : Accepted config client family pAddr
    · obtain ⟨hosts, hnew, hkept⟩ := newHost_step h (by rw [hacc.2.2]; decide) (hgood hacc)
      rw [addHost_accepted hacc, hnew, if_pos hacc]
      exact ⟨_, rfl, hkept⟩
    · obtain ⟨status, hrefused⟩ := (refused hacc s.hosts memory).1
      rw [hrefused, if_neg hacc]
      exact ⟨s, rfl, h⟩
  | removeHost config client family pAddr =>
    simp only [Stores.step, Ledger.step]
    by_cases hacc : Accepted config client family pAddr
    · obtain ⟨hosts, hremove, hare⟩ := removeHost_spec h.hosts hacc
      rw [hremove, if_pos hacc]
      exact ⟨_, rfl, h.cookies, h.ids, hare⟩
    · obtain ⟨status, hrefused⟩ := (refused hacc s.hosts true).2
      rw [hrefused, if_neg hacc]
      exact ⟨s, rfl, h⟩
  | invalidHost config saddr len =>
    obtain ⟨v, hinvalid, -⟩ := invalidHost_spec h.hosts config saddr len
    exact ⟨s, by rw [Stores.step]; rw [hinvalid]; rfl, h⟩

/-- A step that is not good has no result, or the stores are not what the ledger says any more. -/
theorem bad_step {x x' : Stores × Ledger} {op : Op} (h : Kept x.1 x.2) (hbad : ¬ Good x op) (he : step x op = .ok x') :
    ¬ Represents x'.1 x'.2 := by
  obtain ⟨s, a⟩ := x
  obtain ⟨s', hs', rfl⟩ := Exec.map_eq_ok.1 he
  intro hrep
  dsimp only at hrep h
  cases op with
  | mitAddCookie forAuth forData data id =>
    have hall : forAuth = true ∧ forData = true ∧ data.val ≠ [] ∧ id = -1 := by
      simpa [Good] using hbad
    obtain ⟨rfl, rfl, hne, rfl⟩ := hall
    -- the new cookie is the first one, and what it is found by is what stands for none
    rw [Ledger.step, if_pos ⟨rfl, rfl, hne⟩] at hrep
    obtain ⟨id, hcheck, hiff⟩ := hrep.check data
    cases hs'
    rw [check_first data (-1) s.cookies hne] at hcheck
    cases hcheck
    exact hiff.2 ⟨⟨data, -1⟩, by simp, rfl⟩ rfl
  | mitCheckCookie data => exact hbad trivial
  | mitRemoveCookie data =>
    simp only [Stores.step] at hs'
    simp only [Ledger.step] at hrep
    rcases remove_spec h.cookies data with ⟨c, hremove, rfl, hnone⟩ | ⟨c, pre, auth, post, hremove, heq, hauth, hpre, hpost⟩
    · exact hbad fun auth hmem heq => absurd heq (hnone auth hmem)
    · rw [hremove] at hs'
      cases hs'
      -- those in front of it are gone
      have hsame := hrep.cookies.unique hpost
      dsimp only at hsame
      rw [heq, eraseP_of_front hauth hpre] at hsame
      have hnil : pre = [] := by
        have hlen := congrArg List.length hsame
        rw [List.length_append] at hlen
        exact List.length_eq_zero_iff.1 (by omega)
      subst hnil
      refine hbad fun auth' _ _ => ?_
      rw [heq, ← hauth]
      rfl
  | mitResetCookie => exact hbad trivial
  | newHost memory host =>
    obtain ⟨hmemory, hnot⟩ : memory = false ∧ host.toHost ∉ a.hosts := by simpa [Good] using hbad
    simp only [Stores.step] at hs'
    rw [hmemory, newHost_fault h.hosts hnot] at hs'
    cases hs'
  | addHost config client memory family pAddr =>
    obtain ⟨hacc, hmemory, hnot⟩ : Accepted config client family pAddr ∧ memory = false ∧
        (⟨auNetworkInternet, pAddr⟩ : Host) ∉ a.hosts := by simpa [Good] using hbad
    simp only [Stores.step] at hs'
    rw [addHost_accepted hacc, hmemory, newHost_fault h.hosts hnot] at hs'
    cases hs'
  | removeHost config client family pAddr => exact hbad trivial
  | invalidHost config saddr len => exact hbad trivial

theorem throughout_iff {ops : List Op} {x : Stores × Ledger} (h : Kept x.1 x.2) :
    Throughout step (fun x => Represents x.1 x.2) ops x ↔ Each step Good ops x :=
  throughout_iff_each (I := fun x => Kept x.1 x.2) (fun _ => Kept.represents) (fun _ _ => good_step) (fun _ _ _ => bad_step) h

theorem kept_init : Kept {} {} :=
  ⟨.nil, by simp, ⟨[], .nil, List.nodup_nil, rfl⟩, by simp⟩

/-- The stores are what the ledger says, from the start of a run to its end, if and only if each step is a good one. -/
theorem represents_iff_good (ops : List Op) :
    Throughout step (fun x => Represents x.1 x.2) ops ({}, {}) ↔ Each step Good ops ({}, {}) := throughout_iff kept_init

/-- Two cookies, of which the older one is removed: the newer one is gone as well. -/
theorem removed_cookie_takes_others :
    ¬ Throughout step (fun x => Represents x.1 x.2)
      [.mitAddCookie true true ⟨[1], by decide⟩ 1, .mitAddCookie true true ⟨[2], by decide⟩ 2,
        .mitRemoveCookie ⟨[1], by decide⟩] ({}, {}) := by
  rw [throughout_iff kept_init]
  rintro ⟨-, h⟩
  have h := (h _ rfl).2 _ rfl
  exact absurd (h.1 ⟨⟨[1], by decide⟩, 1⟩ (by simp [Ledger.step]) rfl) (by decide)

end Nas.AccessStores
