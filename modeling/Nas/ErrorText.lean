import Nas.Chain
import Mathlib.Data.List.Find
import Mathlib.Data.List.Induction
import Mathlib.Data.List.TakeWhile

/-!
# The database of error texts

`getFileDataBase` folds the lines of a file into a tree in which a node has its first child and its next sibling, and
`getResource` goes down in it along a dotted name (`AuErrDes.c`). A node is made for each component of a name that is
not there yet; its text and length are written only for the last one, so that those of the others are what the memory
held: here they are absent, and to read them is a fault.

The invariant is a list of children for each node (`Grown`). What a database says about a name is `look`: whether there
is a node for it, and with which text.
-/

namespace Nas.ErrorText

/-! ### Strings -/

/-- A string ends in front of the first zero. -/
def cstr (s : List UInt8) : List UInt8 := s.takeWhile (· ≠ 0)

/-- `strtok`: the first token, and what is behind the character that ends it. -/
def strtok (delim : UInt8) (s : List UInt8) : Option (List UInt8 × List UInt8) :=
  let t := s.dropWhile (· = delim)
  if t = [] then none else some (t.takeWhile (· ≠ delim), (t.dropWhile (· ≠ delim)).drop 1)

/-- What call after call of `strtok` returns. -/
def tokens (delim : UInt8) (s : List UInt8) : List (List UInt8) := (s.splitOn delim).filter (· ≠ [])

def bufsize : Nat := 2048

/-- `BUFSIZ` of the C library -/
def bufsiz : Nat := 8192

/-- `fgets`, with what it leaves of the file. -/
def fgets (n : Nat) (s : List UInt8) : List UInt8 × List UInt8 :=
  let len := min (n - 1) ((s.takeWhile (· ≠ 10)).length + 1)
  (s.take len, s.drop len)

/-- The strings that `line` holds, one after the other. -/
def readLines : Nat → List UInt8 → List (List UInt8)
  | 0, _ => []
  | fuel + 1, s => if s = [] then [] else cstr (fgets bufsize s).1 :: readLines fuel (fgets bufsize s).2

/-- The condition of `getFileDataBase` for a line, with `res` and `arg`. -/
def parseLine (line : List UInt8) : Option (List UInt8 × List UInt8) :=
  if line.head? = some 33 then none
  else do
    let (res, rest) ← strtok 58 line
    let (arg, _) ← strtok 10 rest
    some (res, arg.dropWhile fun c => c = 32 ∨ c = 9)

/-! ### The tree -/

/-- `dbNodeRec` but for `next`. -/
structure DbNode where
  key : List UInt8
  value : Option (List UInt8) := none
  len : Option Nat := none
  child : Option Nat := none

structure Database where
  mem : Heap (Node DbNode) := .empty
  db : Option Nat := none

/-- A field of a node is written. -/
def update (mem : Heap (Node DbNode)) (p : Nat) (f : Node DbNode → Node DbNode) : Exec (Heap (Node DbNode)) :=
  if mem.live p then .ok (mem.modify p f) else .error .fault

def addNode (mem : Heap (Node DbNode)) (parent sib : Option Nat) (p : List UInt8) : Exec (Heap (Node DbNode) × Nat) := do
  let n := mem.next
  let mem := mem.alloc ⟨{ key := p }, none⟩
  let mem ← match sib, parent with
    | some s, _ => update mem s ({ · with next := some n })
    | none, some q => update mem q fun node => { node with item := { node.item with child := some n } }
    | none, none => .ok mem
  .ok (mem, n)

/-- The inner loop: the node with the key, or none of the siblings and the last of them. -/
def findKey (mem : Heap (Node DbNode)) (p : List UInt8) : Nat → (n sib : Option Nat) → Exec (Option Nat × Option Nat)
  | _, none, sib => .ok (none, sib)
  | 0, some _, _ => .error .fuel
  | fuel + 1, some n, sib => do
    let node ← Exec.deref (mem.get n)
    if node.item.key = p then .ok (some n, sib) else findKey mem p fuel node.next (some n)

/-- The variables of the loop over the components of a name. -/
structure Cursor extends Database where
  n : Option Nat
  parent : Option Nat
  sib : Option Nat

/-- The body of the loop. -/
def place (c : Cursor) (p : List UInt8) : Exec Cursor := do
  let (n, sib) ← findKey c.mem p c.mem.next c.n c.sib
  match n with
  | some n => do
    let node ← Exec.deref (c.mem.get n)
    .ok { c with parent := some n, sib := none, n := node.item.child }
  | none => do
    let (mem, q) ← addNode c.mem c.parent sib p
    .ok { mem, db := if c.db = none then some q else c.db, parent := some q, n := none, sib := none }

/-- `parent->value` and `parent->len` -/
def setText (arg : List UInt8) (node : Node DbNode) : Node DbNode :=
  { node with item := { node.item with value := some arg, len := some arg.length } }

/-- The body of the loop over the lines. -/
def addLine (d : Database) (line : List UInt8) : Exec Database :=
  match parseLine line with
  | none => .ok d
  | some (res, arg) => do
    let c ← (tokens 46 res).foldlM place { d with n := d.db, parent := none, sib := none }
    match c.parent with
    | none => .ok c.toDatabase
    | some p => do
      let mem ← update c.mem p (setText arg)
      .ok { mem, db := c.db }

/-- `getFileDataBase` of a file that can be opened, or cannot. -/
def getFileDataBase : Option (List UInt8) → Exec Database
  | none => .ok {}
  | some file => (readLines file.length file).foldlM addLine {}

/-- `XrmValue` -/
structure XrmValue where
  addr : List UInt8
  size : Nat
deriving DecidableEq, Repr

/-- The loop of `getResource`. `parent` has no value in front of it. -/
def getResourceAt (mem : Heap (Node DbNode)) : (parent db : Option Nat) → List (List UInt8) → Exec (Option XrmValue)
  | parent, _, [] => do
    let p ← Exec.deref parent
    let node ← Exec.deref (mem.get p)
    let addr ← Exec.deref node.item.value
    let size ← Exec.deref node.item.len
    .ok (some ⟨addr, size⟩)
  | _, db, p :: ps => do
    let (n, _) ← findKey mem p mem.next db none
    match n with
    | none => .ok none
    | some n => do
      let node ← Exec.deref (mem.get n)
      getResourceAt mem (some n) node.item.child ps

/-- `getResource`, which has no result but null where the name is not found. -/
def getResource (d : Database) (name : List UInt8) : Exec (Option XrmValue) :=
  getResourceAt d.mem none d.db (tokens 46 (cstr name))

/-- `strncpy` to the beginning of a buffer. -/
def strncpy (buffer src : List UInt8) (n : Nat) : Exec (List UInt8) :=
  if n ≤ buffer.length then .ok ((cstr src ++ List.replicate n 0).take n ++ buffer.drop n) else .error .fault

/-- The last lines of `AuGetErrorDatabaseText`. -/
def put (result : XrmValue) (buffer : List UInt8) (nbytes : Nat) : Exec (List UInt8) := do
  let buffer ← strncpy buffer result.addr nbytes
  .ok (if result.size > nbytes then buffer.set (nbytes - 1) 0 else buffer)

/-- `sprintf(temp, "%s.%s", name, type)` -/
def dotted (name type : List UInt8) : List UInt8 := cstr name ++ 46 :: cstr type

def auGetErrorDatabaseText (d : Database) (name type defaultp buffer : List UInt8) (nbytes : Nat) : Exec (List UInt8) :=
  if nbytes = 0 then .ok buffer
  else do
    let found ← if d.db = none then .ok none
      else if bufsiz < (dotted name type).length + 1 then .error .fault
      else getResource d (dotted name type)
    put (found.getD ⟨defaultp, (cstr defaultp).length + 1⟩) buffer nbytes

/-! ### What the file has to say -/

/-- A dotted name, by its components. -/
abbrev Name : Type := List (List UInt8)

/-- The name and the text of a line that has both. -/
def entry (line : List UInt8) : Option (Name × List UInt8) := do
  let (res, arg) ← parseLine line
  if tokens 46 res = [] then none else some (tokens 46 res, arg)

def entries (file : Option (List UInt8)) : List (Name × List UInt8) :=
  (file.elim [] fun s => readLines s.length s).filterMap entry

/-- The text of the last line with just this name. -/
def lookup (es : List (Name × List UInt8)) (name : Name) : Option (List UInt8) :=
  (es.reverse.find? (·.1 = name)).map (·.2)

/-! ### Children -/

variable {mem mem' : Heap (Node DbNode)} {db db' x y n sib : Option Nat} {kids kids' : Option Nat → List Nat} {p q : Nat}
  {k : List UInt8} {a b name : Name} {l : List Nat}

def keyAt (mem : Heap (Node DbNode)) (p : Nat) : Option (List UInt8) := (mem.get p).map (·.item.key)

/-- Where the list of a node's children begins. -/
def head (mem : Heap (Node DbNode)) (db : Option Nat) : Option Nat → Option Nat
  | none => db
  | some p => ((mem.get p).map (·.item.child)).getD none

/-- The nodes of a tree, by their parent, which is `none` for those at the top. -/
structure Grown (mem : Heap (Node DbNode)) (db : Option Nat) (kids : Option Nat → List Nat) : Prop where
  segment : ∀ x, Segment mem (head mem db x) (kids x) none
  parent : ∀ x y p, p ∈ kids x → p ∈ kids y → x = y

/-- The child with a key. -/
def childOf (mem : Heap (Node DbNode)) (kids : Option Nat → List Nat) (x : Option Nat) (k : List UInt8) : Option Nat :=
  (kids x).find? fun p => keyAt mem p = some k

/-- The node with a name, from another one on. -/
def descend (mem : Heap (Node DbNode)) (kids : Option Nat → List Nat) : Option Nat → Name → Option (Option Nat)
  | x, [] => some x
  | x, k :: ks => (childOf mem kids x k).bind fun p => descend mem kids (some p) ks

@[simp] theorem descend_nil : descend mem kids x [] = some x := rfl

@[simp] theorem descend_cons : descend mem kids x (k :: a) = (childOf mem kids x k).bind fun p => descend mem kids (some p) a :=
  rfl

theorem descend_append : descend mem kids x (a ++ b) = (descend mem kids x a).bind fun y => descend mem kids y b := by
  induction a generalizing x with
  | nil => rfl
  | cons k a ih =>
    rw [List.cons_append, descend_cons, descend_cons, Option.bind_assoc]
    congr 1
    funext p
    exact ih

theorem descend_concat : descend mem kids x (a ++ [k]) = (descend mem kids x a).bind fun y => (childOf mem kids y k).map some := by
  rw [descend_append]
  congr 1
  funext y
  rw [descend_cons, Option.map_eq_bind]
  rfl

theorem mem_of_childOf (h : childOf mem kids x k = some p) : p ∈ kids x ∧ keyAt mem p = some k :=
  ⟨List.mem_of_find?_eq_some h, by simpa using List.find?_some h⟩

/-- A node has one name. -/
theorem Grown.name_unique (hG : Grown mem db kids) (ha : descend mem kids none a = some x)
    (hb : descend mem kids none b = some x) : a = b := by
  induction a using List.reverseRecOn generalizing b x with
  | nil =>
    cases ha
    rcases List.eq_nil_or_concat' b with rfl | ⟨b, k, rfl⟩
    · rfl
    · rw [descend_concat, Option.bind_eq_some_iff] at hb
      obtain ⟨y, -, hy⟩ := hb
      obtain ⟨p, -, hp⟩ := Option.map_eq_some_iff.1 hy
      cases hp
  | append_singleton a k ih =>
    rw [descend_concat, Option.bind_eq_some_iff] at ha
    obtain ⟨y, hy, hchild⟩ := ha
    obtain ⟨p, hp, rfl⟩ := Option.map_eq_some_iff.1 hchild
    rcases List.eq_nil_or_concat' b with rfl | ⟨b, k', rfl⟩
    · cases hb
    · rw [descend_concat, Option.bind_eq_some_iff] at hb
      obtain ⟨y', hy', hchild'⟩ := hb
      obtain ⟨p', hp', heq⟩ := Option.map_eq_some_iff.1 hchild'
      cases heq
      obtain ⟨hmem, hkey⟩ := mem_of_childOf hp
      obtain ⟨hmem', hkey'⟩ := mem_of_childOf hp'
      obtain rfl := hG.parent y y' p hmem hmem'
      rw [hkey] at hkey'
      rw [ih hy hy', Option.some.inj hkey']

theorem Grown.kids_dead (hG : Grown mem db kids) (h : mem.get p = none) : kids (some p) = [] := by
  have hempty := hG.segment (some p)
  rw [head, h] at hempty
  rcases hkids : kids (some p) with _ | ⟨q, l⟩
  · rfl
  · rw [hkids] at hempty
    exact absurd hempty.1 (by simp)

theorem Grown.live (hG : Grown mem db kids) (h : p ∈ kids x) : ∃ node, mem.get p = some node := (hG.segment x).live h

theorem Grown.live_of_descend (hG : Grown mem db kids) (h : descend mem kids none a = some (some p)) :
    ∃ node, mem.get p = some node := by
  rcases List.eq_nil_or_concat' a with rfl | ⟨a, k, rfl⟩
  · cases h
  · rw [descend_concat, Option.bind_eq_some_iff] at h
    obtain ⟨y, -, hy⟩ := h
    obtain ⟨q, hq, heq⟩ := Option.map_eq_some_iff.1 hy
    cases heq
    exact hG.live (mem_of_childOf hq).1

/-- The search ends at the child, or behind the last of the children. -/
theorem findKey_eq (k : List UInt8) (sib : Option Nat) (h : Segment mem n l none) {fuel : Nat} (hfuel : l.length ≤ fuel) :
    (∃ p sib', l.find? (fun p => keyAt mem p = some k) = some p ∧ findKey mem k fuel n sib = .ok (some p, sib')) ∨
      l.find? (fun p => keyAt mem p = some k) = none ∧ findKey mem k fuel n sib = .ok (none, (l.getLast?.or sib)) := by
  induction l generalizing n sib fuel with
  | nil =>
    cases h
    refine .inr ⟨rfl, ?_⟩
    unfold findKey
    rfl
  | cons p l ih =>
    obtain ⟨rfl, node, hget, hseg⟩ := h
    obtain ⟨fuel, rfl⟩ : ∃ m, fuel = m + 1 := ⟨fuel - 1, by simp at hfuel; omega⟩
    rw [findKey, hget, Exec.deref_some, Exec.ok_bind, List.find?_cons]
    by_cases hkey : node.item.key = k
    · have hat : decide (keyAt mem p = some k) = true := by simp [keyAt, hget, hkey]
      rw [if_pos hkey, hat]
      exact .inl ⟨p, sib, rfl, rfl⟩
    · have hat : decide (keyAt mem p = some k) = false := by simp [keyAt, hget, hkey]
      rw [if_neg hkey, hat]
      have hlast : (p :: l).getLast?.or sib = l.getLast?.or (some p) := by
        rw [List.getLast?_cons]
        cases l.getLast? <;> rfl
      rw [hlast]
      exact ih _ hseg (by simpa using hfuel)

/-! ### A component -/

/-- What a database has for a name: nothing, a node without a text, or a text. -/
def look (mem : Heap (Node DbNode)) (kids : Option Nat → List Nat) (name : Name) : Option (Option (List UInt8)) :=
  (descend mem kids none name).bind fun x => x.bind fun p => (mem.get p).map (·.item.value)

/-- Every text has its length. -/
def Measured (mem : Heap (Node DbNode)) : Prop :=
  ∀ p node, mem.get p = some node → node.item.len = node.item.value.map List.length

/-- The cursor is in front of the children of a node. -/
structure At (c : Cursor) (kids : Option Nat → List Nat) (x : Option Nat) : Prop where
  grown : Grown c.mem c.db kids
  live : ∀ p, x = some p → c.db ≠ none ∧ ∃ node, c.mem.get p = some node
  n : c.n = head c.mem c.db x
  parent : c.parent = x
  sib : c.sib = none

/-- The tree with a child more. -/
structure Grew (mem mem' : Heap (Node DbNode)) (kids kids' : Option Nat → List Nat) (x : Option Nat) (q : Nat)
    (k : List UInt8) : Prop where
  fresh : mem.get q = none
  new : mem'.get q = some ⟨{ key := k }, none⟩
  old : ∀ p, p ≠ q → (mem'.get p).map (fun n => (n.item.key, n.item.value, n.item.len)) =
    (mem.get p).map fun n => (n.item.key, n.item.value, n.item.len)
  kids_eq : kids' = Function.update kids x (kids x ++ [q])

/-- A node is linked behind the children of another one. -/
theorem Grown.grow (hG : Grown mem db kids) (hq : mem.get q = none) (hx : x ≠ some q)
    (hnew : mem'.get q = some ⟨{ key := k }, none⟩)
    (hnext : ∀ p, p ≠ q → (kids x).getLast? ≠ some p → (mem'.get p).map (·.next) = (mem.get p).map (·.next))
    (hhead : ∀ y, y ≠ x → y ≠ some q → head mem' db' y = head mem db y)
    (hseg : Segment mem' (head mem' db' x) (kids x ++ [q]) none) :
    Grown mem' db' (Function.update kids x (kids x ++ [q])) := by
  have hfresh : ∀ y, q ∉ kids y := fun y hmem => by
    obtain ⟨node, hget⟩ := hG.live hmem
    rw [hq] at hget
    cases hget
  have hnone := hG.kids_dead hq
  refine ⟨fun y => ?_, fun y z p hy hz => ?_⟩
  · by_cases hyx : y = x
    · rw [hyx, Function.update_self]
      exact hseg
    · rw [Function.update_of_ne hyx]
      by_cases hyq : y = some q
      · rw [hyq, hnone, head, hnew]
        rfl
      · rw [hhead y hyx hyq]
        refine (hG.segment y).congr_next fun p hp => hnext p (fun h => hfresh y (h ▸ hp)) fun hlast => ?_
        exact hyx (hG.parent y x p hp (List.mem_of_getLast? hlast))
  · have hmem : ∀ y, p ∈ Function.update kids x (kids x ++ [q]) y → p ∈ kids y ∨ y = x ∧ p = q := fun y hy => by
      by_cases hyx : y = x
      · rw [hyx, Function.update_self, List.mem_append, List.mem_singleton] at hy
        rw [hyx]
        exact hy.imp_right fun h => ⟨rfl, h⟩
      · rw [Function.update_of_ne hyx] at hy
        exact .inl hy
    rcases hmem y hy with hy' | ⟨hy', rfl⟩
    · rcases hmem z hz with hz' | ⟨-, rfl⟩
      · exact hG.parent y z p hy' hz'
      · exact absurd hy' (hfresh y)
    · rcases hmem z hz with hz' | ⟨hz', -⟩
      · exact absurd hz' (hfresh z)
      · rw [hy', hz']

theorem update_live {f : Node DbNode → Node DbNode} {node : Node DbNode} (h : mem.get p = some node) :
    update mem p f = .ok (mem.modify p f) := by
  rw [update, Heap.live, h]
  rfl

/-- The three places where `addNode` and its caller put a new node. -/
theorem addNode_grows (hG : Grown mem db kids) (hx : ∀ p, x = some p → db ≠ none ∧ ∃ node, mem.get p = some node)
    (k : List UInt8) :
    ∃ mem', addNode mem x (kids x).getLast? k = .ok (mem', mem.next) ∧
      Grew mem mem' kids (Function.update kids x (kids x ++ [mem.next])) x mem.next k ∧
      Grown mem' (if db = none then some mem.next else db) (Function.update kids x (kids x ++ [mem.next])) := by
  have hq : mem.get mem.next = none := mem.fresh _ le_rfl
  have hxq : x ≠ some mem.next := fun h => by
    obtain ⟨-, node, hget⟩ := hx _ h
    rw [hq] at hget
    cases hget
  have halloc : ∀ p, p ≠ mem.next → (mem.alloc ⟨{ key := k }, none⟩).get p = mem.get p := fun p hp => by
    rw [Heap.get_alloc, if_neg hp]
  have hnew : (mem.alloc ⟨{ key := k }, none⟩).get mem.next = some ⟨{ key := k }, none⟩ := by
    rw [Heap.get_alloc, if_pos rfl]
  have hseg := hG.segment x
  rcases List.eq_nil_or_concat' (kids x) with hnil | ⟨l, s, hl⟩
  · rw [hnil] at hseg
    cases x with
    | none =>
      have hdb : db = none := hseg
      refine ⟨_, by rw [hnil]; rfl, ⟨hq, hnew, fun p hp => by rw [halloc p hp], rfl⟩, ?_⟩
      refine hG.grow hq hxq hnew (fun p hp _ => by rw [halloc p hp]) (fun y hy hyq => ?_) ?_
      · cases y with
        | none => exact absurd rfl hy
        | some p => rw [head, head, halloc p (fun h => hyq (h ▸ rfl))]
      · rw [hnil, hdb, if_pos rfl]
        exact ⟨rfl, _, hnew, rfl⟩
    | some p =>
      obtain ⟨hdb, node, hget⟩ := hx p rfl
      have hpq : p ≠ mem.next := Nat.ne_of_lt (Heap.lt_next hget)
      have hget' : (mem.alloc ⟨{ key := k }, none⟩).get p = some node := (halloc p hpq).trans hget
      refine ⟨_, by rw [hnil]; exact congrArg (· >>= _) (update_live hget'), ⟨hq, ?_, fun p' hp' => ?_, rfl⟩, ?_⟩
      · rw [Heap.get_modify, if_neg hpq.symm, hnew]
      · rw [Heap.get_modify]
        by_cases h : p' = p
        · rw [if_pos h, h, hget', hget]
          rfl
        · rw [if_neg h, halloc p' hp']
      · refine hG.grow (k := k) hq hxq ?_ (fun p' hp' _ => ?_) (fun y hy hyq => ?_) ?_
        · rw [Heap.get_modify, if_neg hpq.symm, hnew]
        · rw [Heap.get_modify]
          by_cases h : p' = p
          · rw [if_pos h, h, hget', hget]
            rfl
          · rw [if_neg h, halloc p' hp']
        · rw [if_neg hdb]
          cases y with
          | none => rfl
          | some p' =>
            have hp' : p' ≠ p := fun h => hy (h ▸ rfl)
            rw [head, head, Heap.get_modify, if_neg hp', halloc p' (fun h => hyq (h ▸ rfl))]
        · rw [hnil, head, Heap.get_modify_self, hget']
          refine ⟨rfl, ⟨{ key := k }, none⟩, ?_, rfl⟩
          rw [Heap.get_modify, if_neg hpq.symm, hnew]
  · have hnodup := hseg.nodup
    rw [hl] at hseg hnodup
    obtain ⟨r, hfront, rfl, node, hget, hnext⟩ := Segment.append.1 hseg
    have hsq : s ≠ mem.next := Nat.ne_of_lt (Heap.lt_next hget)
    have hget' : (mem.alloc ⟨{ key := k }, none⟩).get s = some node := (halloc s hsq).trans hget
    have hdb : db ≠ none := by
      cases x with
      | none =>
        rcases l with _ | ⟨p, l⟩
        · exact fun h => by cases (h.symm.trans hseg.1)
        · exact fun h => by cases (h.symm.trans hseg.1)
      | some p => exact (hx p rfl).1
    have hlast : (kids x).getLast? = some s := by rw [hl, List.getLast?_concat]
    have hs : s ∉ l := fun h => (List.nodup_append.1 hnodup).2.2 s h s (by simp) rfl
    have hmodify : ∀ p, p ≠ s → p ≠ mem.next →
        ((mem.alloc ⟨{ key := k }, none⟩).modify s ({ · with next := some mem.next })).get p = mem.get p := fun p hp hpq => by
      rw [Heap.get_modify, if_neg hp, halloc p hpq]
    have hnew' : ((mem.alloc ⟨{ key := k }, none⟩).modify s ({ · with next := some mem.next })).get mem.next =
        some ⟨{ key := k }, none⟩ := by
      rw [Heap.get_modify, if_neg hsq.symm, hnew]
    have hself : ((mem.alloc ⟨{ key := k }, none⟩).modify s ({ · with next := some mem.next })).get s =
        some { node with next := some mem.next } := by
      rw [Heap.get_modify_self, hget']
      rfl
    have hhead : ∀ y, y ≠ some mem.next →
        head ((mem.alloc ⟨{ key := k }, none⟩).modify s ({ · with next := some mem.next })) db y = head mem db y := by
      intro y hy
      cases y with
      | none => rfl
      | some p =>
        rw [head, head]
        by_cases h : p = s
        · rw [h, hself, hget]
          rfl
        · rw [hmodify p h (fun h => hy (h ▸ rfl))]
    refine ⟨_, by rw [hlast]; exact congrArg (· >>= _) (update_live hget'), ⟨hq, hnew', fun p hp => ?_, rfl⟩, ?_⟩
    · by_cases h : p = s
      · rw [h, hself, hget]
        rfl
      · rw [hmodify p h hp]
    · rw [if_neg hdb]
      refine hG.grow hq hxq hnew' (fun p hp hp' => ?_) (fun y _ hyq => hhead y hyq) ?_
      · rw [hmodify p (fun h => hp' (h ▸ hlast)) hp]
      · rw [hhead x hxq, hl]
        refine Segment.append.2 ⟨some mem.next, Segment.append.2 ⟨some s, hfront.congr fun p hp => ?_, rfl, _, hself, rfl⟩,
          rfl, _, hnew', rfl⟩
        obtain ⟨node', hlive⟩ := hfront.live hp
        exact hmodify p (fun h => hs (h ▸ hp)) (Nat.ne_of_lt (Heap.lt_next hlive))

/-! ### What a component changes -/

theorem Grew.keyAt (h : Grew mem mem' kids kids' x q k) (p : Nat) :
    ErrorText.keyAt mem' p = if p = q then some k else ErrorText.keyAt mem p := by
  unfold ErrorText.keyAt
  by_cases hp : p = q
  · rw [if_pos hp, hp, h.new]
    rfl
  · rw [if_neg hp]
    have := congrArg (Option.map (·.1)) (h.old p hp)
    rwa [Option.map_map, Option.map_map] at this

theorem Grew.childOf (h : Grew mem mem' kids kids' x q k) (hG : Grown mem db kids) (hnone : ErrorText.childOf mem kids x k = none)
    (y : Option Nat) (k' : List UInt8) :
    ErrorText.childOf mem' kids' y k' = if y = x ∧ k' = k then some q else ErrorText.childOf mem kids y k' := by
  have hold : (kids y).find? (fun p => ErrorText.keyAt mem' p = some k') = ErrorText.childOf mem kids y k' := by
    refine List.find?_congr fun p hp => ?_
    obtain ⟨node, hget⟩ := hG.live hp
    have hpq : p ≠ q := fun hpq => by
      rw [hpq, h.fresh] at hget
      cases hget
    rw [h.keyAt, if_neg hpq]
  unfold ErrorText.childOf
  rw [h.kids_eq]
  by_cases hy : y = x
  · rw [hy] at hold ⊢
    rw [Function.update_self, List.find?_append, hold]
    by_cases hk : k' = k
    · rw [hk, hnone, if_pos ⟨rfl, rfl⟩, Option.none_or, List.find?_singleton, h.keyAt]
      simp
    · rw [if_neg (fun h => hk h.2), List.find?_singleton, h.keyAt]
      have hne : ¬ k = k' := fun h => hk h.symm
      simp [hne, ErrorText.childOf]
  · rw [Function.update_of_ne hy, if_neg (fun h => hy h.1), hold, ErrorText.childOf]

/-- The new node has the name of its parent and the key; nothing else is changed. -/
theorem Grew.descend (h : Grew mem mem' kids kids' x q k) (hG : Grown mem db kids)
    (hnone : ErrorText.childOf mem kids x k = none) (hx : ErrorText.descend mem kids none b = some x) (name : Name) :
    ErrorText.descend mem' kids' none name =
      if name = b ++ [k] then some (some q) else ErrorText.descend mem kids none name := by
  have hempty : ∀ k', ErrorText.childOf mem kids (some q) k' = none := fun k' => by
    rw [ErrorText.childOf, hG.kids_dead h.fresh]
    rfl
  have hgone : ErrorText.descend mem kids none (b ++ [k]) = none := by
    rw [descend_concat, hx, Option.bind_some, hnone]
    rfl
  induction name using List.reverseRecOn with
  | nil => simp
  | append_singleton a k' ih =>
    rw [descend_concat, ih, descend_concat]
    by_cases ha : a = b ++ [k]
    · have hne : ¬ a ++ [k'] = b ++ [k] := fun h => by
        rw [ha] at h
        simpa using congrArg List.length h
      have hq : some q ≠ x := fun hq => by
        obtain ⟨node, hget⟩ := hG.live_of_descend (hq ▸ hx)
        rw [h.fresh] at hget
        cases hget
      rw [if_pos ha, if_neg hne, ha, hgone, Option.bind_some, h.childOf hG hnone, if_neg (fun h => hq h.1), hempty]
      rfl
    · rw [if_neg ha]
      rcases hy : ErrorText.descend mem kids none a with _ | y
      · rw [if_neg]
        · rfl
        · intro h
          rw [List.append_inj_left' h rfl, hx] at hy
          cases hy
      · rw [Option.bind_some, Option.bind_some, h.childOf hG hnone]
        by_cases hab : y = x ∧ k' = k
        · obtain ⟨rfl, rfl⟩ := hab
          rw [if_pos ⟨rfl, rfl⟩, hG.name_unique hy hx, if_pos rfl]
          rfl
        · rw [if_neg hab, if_neg]
          intro h
          obtain ⟨rfl, hk⟩ := List.append_inj' h rfl
          rw [hx] at hy
          exact hab ⟨(Option.some.inj hy).symm, by simpa using hk⟩

/-- Some names have a node now that had none. -/
structure Opens (old new : Name → Option (Option (List UInt8))) (P : Name → Prop) : Prop where
  kept : ∀ a w, old a = some w → new a = some w
  made : ∀ a, old a = none → P a → new a = some none
  absent : ∀ a, old a = none → ¬ P a → new a = none

theorem Opens.trans {f g h : Name → Option (Option (List UInt8))} {P Q R : Name → Prop} (hfg : Opens f g P)
    (hgh : Opens g h Q) (hR : ∀ a, R a ↔ P a ∨ Q a) : Opens f h R where
  kept a w hw := hgh.kept a w (hfg.kept a w hw)
  made a hnone hr := by
    by_cases hp : P a
    · exact hgh.kept a none (hfg.made a hnone hp)
    · exact hgh.made a (hfg.absent a hnone hp) (((hR a).1 hr).resolve_left hp)
  absent a hnone hr := by
    have hnot := not_or.1 (mt (hR a).2 hr)
    exact hgh.absent a (hfg.absent a hnone hnot.1) hnot.2

theorem Opens.refl {f : Name → Option (Option (List UInt8))} {P : Name → Prop} (h : ∀ a, P a → f a ≠ none) : Opens f f P where
  kept _ _ hw := hw
  made a hnone hp := absurd hnone (h a hp)
  absent _ hnone _ := hnone

theorem Grew.opens (h : Grew mem mem' kids kids' x q k) (hG : Grown mem db kids)
    (hnone : ErrorText.childOf mem kids x k = none) (hx : ErrorText.descend mem kids none b = some x) :
    Opens (look mem kids) (look mem' kids') (· = b ++ [k]) := by
  have hdescend := h.descend hG hnone hx
  have hgone : look mem kids (b ++ [k]) = none := by
    rw [look, descend_concat, hx, Option.bind_some, hnone]
    rfl
  have hsame : ∀ a, a ≠ b ++ [k] → look mem' kids' a = look mem kids a := fun a ha => by
    unfold look
    rw [hdescend, if_neg ha]
    rcases hy : ErrorText.descend mem kids none a with _ | (_ | p)
    · rfl
    · rfl
    · obtain ⟨node, hget⟩ := hG.live_of_descend hy
      have hpq : p ≠ q := fun hpq => by
        rw [hpq, h.fresh] at hget
        cases hget
      have := congrArg (Option.map (·.2.1)) (h.old p hpq)
      rwa [Option.map_map, Option.map_map] at this
  refine ⟨fun a w hw => ?_, fun a _ ha => ?_, fun a hnone ha => (hsame a ha).trans hnone⟩
  · rw [hsame a, hw]
    rintro rfl
    rw [hgone] at hw
    cases hw
  · rw [ha, look, hdescend, if_pos rfl, Option.bind_some, Option.bind_some, h.new]
    rfl

theorem Grew.measured (h : Grew mem mem' kids kids' x q k) (hM : Measured mem) : Measured mem' := by
  intro p node hget
  by_cases hp : p = q
  · rw [hp, h.new] at hget
    cases hget
    rfl
  · have hold := h.old p hp
    rw [hget] at hold
    obtain ⟨node', hget', heq⟩ := Option.map_eq_some_iff.1 hold.symm
    simp only [Prod.mk.injEq] at heq
    rw [← heq.2.1, ← heq.2.2]
    exact hM p node' hget'

/-! ### A line -/

variable {c c' : Cursor}

/-- One component: the cursor goes on to the child, which is made if it is not there. -/
theorem At.place (hA : At c kids x) (hM : Measured c.mem) (hb : ErrorText.descend c.mem kids none b = some x) (k : List UInt8) :
    ∃ c' kids' p, ErrorText.place c k = .ok c' ∧ At c' kids' (some p) ∧ Measured c'.mem ∧
      ErrorText.descend c'.mem kids' none (b ++ [k]) = some (some p) ∧
      Opens (look c.mem kids) (look c'.mem kids') (· = b ++ [k]) := by
  obtain ⟨hG, hlive, hn, hparent, hsib⟩ := hA
  have hseg := hG.segment x
  unfold ErrorText.place
  rw [hn, hsib]
  rcases findKey_eq k none hseg hseg.length_le with ⟨p, sib', hfind, heq⟩ | ⟨hfind, heq⟩
  · obtain ⟨node, hget⟩ := hG.live (List.mem_of_find?_eq_some hfind)
    have hchild : ErrorText.childOf c.mem kids x k = some p := hfind
    have hdescend : ErrorText.descend c.mem kids none (b ++ [k]) = some (some p) := by
      rw [descend_concat, hb, Option.bind_some, hchild]
      rfl
    rw [heq, Exec.ok_bind]
    dsimp only
    rw [hget, Exec.deref_some, Exec.ok_bind]
    refine ⟨_, kids, p, rfl, ⟨hG, ?_, ?_, rfl, rfl⟩, hM, hdescend, Opens.refl fun a ha hnone => ?_⟩
    · rintro _ ⟨⟩
      refine ⟨fun hdb => ?_, node, hget⟩
      cases x with
      | none =>
        rw [head, hdb] at hseg
        rcases hkids : kids none with _ | ⟨p', l⟩
        · rw [hkids] at hfind
          cases hfind
        · rw [hkids] at hseg
          cases hseg.1
      | some p' => exact (hlive p' rfl).1 hdb
    · rw [head, hget]
      rfl
    · rw [ha, look, hdescend, Option.bind_some, Option.bind_some, hget] at hnone
      cases hnone
  · rw [heq, Exec.ok_bind]
    dsimp only
    rw [hparent, Option.or_none]
    obtain ⟨mem', hadd, hgrew, hgrown⟩ := addNode_grows hG hlive k
    rw [hadd, Exec.ok_bind]
    refine ⟨_, _, c.mem.next, rfl, ⟨hgrown, ?_, ?_, rfl, rfl⟩, hgrew.measured hM, ?_, hgrew.opens hG hfind hb⟩
    · rintro _ ⟨⟩
      refine ⟨?_, _, hgrew.new⟩
      split
      · nofun
      · assumption
    · rw [head, hgrew.new]
      rfl
    · rw [hgrew.descend hG hfind hb, if_pos rfl]

/-- All of them: the cursor comes to the name, of which every beginning has a node now. -/
theorem At.places (hA : At c kids x) (hM : Measured c.mem) (hb : ErrorText.descend c.mem kids none b = some x) (name : Name) :
    ∃ c' kids' x', name.foldlM ErrorText.place c = .ok c' ∧ At c' kids' x' ∧ Measured c'.mem ∧
      ErrorText.descend c'.mem kids' none (b ++ name) = some x' ∧
      Opens (look c.mem kids) (look c'.mem kids') fun a => ∃ pre, pre ≠ [] ∧ pre <+: name ∧ a = b ++ pre := by
  induction name generalizing c kids x b with
  | nil =>
    refine ⟨c, kids, x, rfl, hA, hM, by rwa [List.append_nil], Opens.refl ?_⟩
    rintro a ⟨pre, hne, hpre, -⟩
    exact absurd (List.prefix_nil.1 hpre) hne
  | cons k name ih =>
    obtain ⟨c₁, kids₁, p, hplace, hA₁, hM₁, hb₁, hopens₁⟩ := hA.place hM hb k
    obtain ⟨c₂, kids₂, x₂, hplaces, hA₂, hM₂, hb₂, hopens₂⟩ := ih hA₁ hM₁ hb₁
    refine ⟨c₂, kids₂, x₂, ?_, hA₂, hM₂, ?_, hopens₁.trans hopens₂ fun a => ?_⟩
    · rw [List.foldlM_cons, hplace, Exec.ok_bind, hplaces]
    · rw [List.append_assoc, List.singleton_append] at hb₂
      exact hb₂
    · constructor
      · rintro ⟨pre, hne, hpre, rfl⟩
        rcases pre with _ | ⟨k', pre⟩
        · exact absurd rfl hne
        · obtain ⟨rfl, hpre'⟩ := List.cons_prefix_cons.1 hpre
          rcases pre with _ | ⟨k'', pre⟩
          · exact .inl rfl
          · exact .inr ⟨k'' :: pre, by simp, hpre', by simp⟩
      · rintro (rfl | ⟨pre, -, hpre, rfl⟩)
        · exact ⟨[k], by simp, by simp, rfl⟩
        · exact ⟨k :: pre, by simp, List.cons_prefix_cons.2 ⟨rfl, hpre⟩, by simp⟩

/-- A database and the lines that are in it. -/
structure Knows (d : Database) (kids : Option Nat → List Nat) (es : List (Name × List UInt8)) : Prop where
  grown : Grown d.mem d.db kids
  measured : Measured d.mem
  own : ∀ a v, lookup es a = some v → look d.mem kids a = some (some v)
  inner : ∀ a, lookup es a = none → a ≠ [] → (∃ e ∈ es, a <+: e.1) → look d.mem kids a = some none
  other : ∀ a, lookup es a = none → ¬ (a ≠ [] ∧ ∃ e ∈ es, a <+: e.1) → look d.mem kids a = none
  names : ∀ e ∈ es, e.1 ≠ []

variable {d d' : Database} {es : List (Name × List UInt8)}

theorem knows_empty : Knows {} (fun _ => []) [] where
  grown := by
    refine ⟨fun x => ?_, fun x y p hp => by cases hp⟩
    cases x with
    | none => rfl
    | some p => rfl
  measured p node h := by cases h
  own a v h := by cases h
  inner a _ _ h := by
    obtain ⟨e, he, -⟩ := h
    cases he
  other a _ _ := by
    cases a with
    | nil => rfl
    | cons k a => rfl
  names e he := by cases he

theorem lookup_concat (es : List (Name × List UInt8)) (name : Name) (v : List UInt8) (a : Name) :
    lookup (es ++ [(name, v)]) a = if name = a then some v else lookup es a := by
  rw [lookup, List.reverse_append, List.reverse_singleton, List.singleton_append, List.find?_cons]
  by_cases h : name = a
  · simp [h]
  · simp [h, lookup]

section
variable {arg : List UInt8}

theorem get_setText (p' : Nat) : (mem.modify p (setText arg)).get p' =
    (mem.get p').map fun node => if p' = p then setText arg node else node := by
  rw [Heap.get_modify]
  by_cases hp : p' = p
  · simp [hp]
  · simp [hp]

theorem keyAt_setText : keyAt (mem.modify p (setText arg)) = keyAt mem := by
  funext p'
  rw [keyAt, get_setText, Option.map_map]
  congr 1
  funext node
  dsimp only [Function.comp]
  split <;> rfl

theorem descend_setText (x : Option Nat) (a : Name) : descend (mem.modify p (setText arg)) kids x a = descend mem kids x a := by
  induction a generalizing x with
  | nil => rfl
  | cons k a ih =>
    rw [descend_cons, descend_cons, childOf, childOf, keyAt_setText]
    congr 1
    funext p'
    exact ih (some p')

theorem Grown.setText (hG : Grown mem db kids) : Grown (mem.modify p (setText arg)) db kids := by
  have hhead : ∀ x, head (mem.modify p (ErrorText.setText arg)) db x = head mem db x := fun x => by
    cases x with
    | none => rfl
    | some p' =>
      rw [head, head, get_setText, Option.map_map]
      congr 2
      funext node
      dsimp only [Function.comp]
      split <;> rfl
  refine ⟨fun x => ?_, hG.parent⟩
  rw [hhead]
  refine (hG.segment x).congr_next fun p' _ => ?_
  rw [get_setText, Option.map_map]
  congr 1
  funext node
  dsimp only [Function.comp]
  split <;> rfl

theorem Measured.setText (hM : Measured mem) : Measured (mem.modify p (setText arg)) := by
  intro p' node hget
  rw [get_setText, Option.map_eq_some_iff] at hget
  obtain ⟨node', hget', rfl⟩ := hget
  split
  · rfl
  · exact hM p' node' hget'

theorem look_setText (hG : Grown mem db kids) (h : descend mem kids none b = some (some p)) (a : Name) :
    look (mem.modify p (setText arg)) kids a = if b = a then some (some arg) else look mem kids a := by
  unfold look
  rw [descend_setText]
  by_cases ha : b = a
  · obtain ⟨node, hget⟩ := hG.live_of_descend h
    rw [if_pos ha, ← ha, h, Option.bind_some, Option.bind_some, get_setText, hget]
    simp [setText]
  · rw [if_neg ha]
    rcases hy : descend mem kids none a with _ | (_ | p')
    · rfl
    · rfl
    · have hne : p' ≠ p := fun hp => ha (hG.name_unique h (hp ▸ hy))
      rw [Option.bind_some, Option.bind_some, get_setText, Option.map_map, Option.bind_some, Option.bind_some]
      congr 1
      funext node
      simp [hne]

end

theorem Knows.text {arg : List UInt8} (hK : Knows d kids es) (hG : Grown mem' db' kids') (hM : Measured mem')
    (hopens : Opens (look d.mem kids) (look mem' kids') fun a => ∃ pre, pre ≠ [] ∧ pre <+: name ∧ a = [] ++ pre)
    (hdescend : descend mem' kids' none name = some (some p)) (hne : name ≠ []) :
    Knows ⟨mem'.modify p (setText arg), db'⟩ kids' (es ++ [(name, arg)]) where
  grown := hG.setText
  measured := hM.setText
  own a v h := by
    rw [lookup_concat] at h
    rw [look_setText hG hdescend]
    by_cases ha : name = a
    · rw [if_pos ha] at h
      rw [if_pos ha, h]
    · rw [if_neg ha] at h
      rw [if_neg ha, hopens.kept a _ (hK.own a v h)]
  inner a h hne' hin := by
    rw [lookup_concat] at h
    by_cases ha : name = a
    · rw [if_pos ha] at h
      cases h
    · rw [if_neg ha] at h
      rw [look_setText hG hdescend, if_neg ha]
      by_cases hold : ∃ e ∈ es, a <+: e.1
      · exact hopens.kept a _ (hK.inner a h hne' hold)
      · refine hopens.made a (hK.other a h fun h => hold h.2) ⟨a, hne', ?_, rfl⟩
        obtain ⟨e, he, hpre⟩ := hin
        rcases List.mem_append.1 he with he | he
        · exact absurd ⟨e, he, hpre⟩ hold
        · rwa [List.mem_singleton.1 he] at hpre
  other a h hnot := by
    rw [lookup_concat] at h
    by_cases ha : name = a
    · rw [if_pos ha] at h
      cases h
    · rw [if_neg ha] at h
      rw [look_setText hG hdescend, if_neg ha]
      refine hopens.absent a (hK.other a h ?_) ?_
      · rintro ⟨hne', e, he, hpre⟩
        exact hnot ⟨hne', e, List.mem_append_left _ he, hpre⟩
      · rintro ⟨pre, hne', hpre, rfl⟩
        exact hnot ⟨hne', (name, arg), by simp, hpre⟩
  names e he := by
    rcases List.mem_append.1 he with he | he
    · exact hK.names e he
    · rwa [List.mem_singleton.1 he]

/-- A line is a name and a text, and the last of its name counts. -/
theorem Knows.line (hK : Knows d kids es) (line : List UInt8) :
    ∃ d' kids', addLine d line = .ok d' ∧ Knows d' kids' (es ++ (entry line).toList) := by
  unfold addLine entry
  rcases hparse : parseLine line with _ | ⟨res, arg⟩
  · exact ⟨d, kids, rfl, by simpa using hK⟩
  · dsimp only
    obtain ⟨c, kids', x, hplaces, hA, hM, hdescend, hopens⟩ := At.places (c := { d with n := d.db, parent := none, sib := none })
      (show At _ kids none from ⟨hK.grown, nofun, rfl, rfl, rfl⟩) hK.measured (show ErrorText.descend _ _ none [] = _ from rfl)
      (tokens 46 res)
    rw [hplaces, Exec.ok_bind, hA.parent]
    rw [List.nil_append] at hdescend
    cases x with
    | none =>
      have hnil : tokens 46 res = [] := hA.grown.name_unique hdescend rfl
      rw [hnil] at hplaces
      cases hplaces
      refine ⟨d, kids, rfl, ?_⟩
      have hentry : (do
          let (res, arg) ← some (res, arg)
          if tokens 46 res = [] then none else some (tokens 46 res, arg) : Option (Name × List UInt8)) = none := if_pos hnil
      rw [hentry]
      simpa using hK
    | some p =>
      have hne : tokens 46 res ≠ [] := fun h => by
        rw [h] at hdescend
        cases hdescend
      obtain ⟨node, hget⟩ := hA.grown.live_of_descend hdescend
      dsimp only
      rw [update_live hget, Exec.ok_bind]
      refine ⟨_, kids', rfl, ?_⟩
      have hentry : (do
          let (res, arg) ← some (res, arg)
          if tokens 46 res = [] then none else some (tokens 46 res, arg) : Option (Name × List UInt8)) =
          some (tokens 46 res, arg) := if_neg hne
      rw [hentry, Option.toList_some]
      exact hK.text hA.grown hM hopens hdescend hne

/-! ### The file -/

theorem Knows.lines (hK : Knows d kids es) (lines : List (List UInt8)) :
    ∃ d' kids', lines.foldlM addLine d = .ok d' ∧ Knows d' kids' (es ++ lines.filterMap entry) := by
  induction lines generalizing d kids es with
  | nil => exact ⟨d, kids, rfl, by simpa using hK⟩
  | cons line lines ih =>
    obtain ⟨d₁, kids₁, hline, hK₁⟩ := hK.line line
    obtain ⟨d₂, kids₂, hlines, hK₂⟩ := ih hK₁
    refine ⟨d₂, kids₂, ?_, ?_⟩
    · rw [List.foldlM_cons, hline, Exec.ok_bind, hlines]
    · have happend : es ++ (entry line).toList ++ lines.filterMap entry = es ++ (line :: lines).filterMap entry := by
        rw [List.filterMap_cons, List.append_assoc]
        cases entry line <;> rfl
      rw [← happend]
      exact hK₂

theorem getFileDataBase_knows (file : Option (List UInt8)) :
    ∃ d kids, getFileDataBase file = .ok d ∧ Knows d kids (entries file) := by
  cases file with
  | none => exact ⟨{}, fun _ => [], rfl, knows_empty⟩
  | some file => exact knows_empty.lines _

/-- Each line of the file is read on its own if it is shorter than the buffer. -/
theorem readLines_flatten (ls : List (List UInt8)) (h : ∀ l ∈ ls, 10 ∉ l ∧ l.length + 1 < bufsize) {fuel : Nat}
    (hfuel : ls.length ≤ fuel) :
    readLines fuel (ls.flatMap (· ++ [10])) = ls.map fun l => cstr (l ++ [10]) := by
  induction ls generalizing fuel with
  | nil =>
    cases fuel with
    | zero => rfl
    | succ fuel => simp [readLines]
  | cons l ls ih =>
    obtain ⟨fuel, rfl⟩ : ∃ m, fuel = m + 1 := ⟨fuel - 1, by simp at hfuel; omega⟩
    obtain ⟨hno, hlt⟩ := h l (by simp)
    have hline : ((l :: ls).flatMap (· ++ [10])).takeWhile (· ≠ 10) = l := by
      rw [List.flatMap_cons, List.append_assoc, List.takeWhile_append_of_pos]
      · simp
      · intro c hc
        have hne : c ≠ 10 := fun h => hno (h ▸ hc)
        simpa using hne
    have hget : fgets bufsize ((l :: ls).flatMap (· ++ [10])) = (l ++ [10], ls.flatMap (· ++ [10])) := by
      have hlen : min (bufsize - 1) (l.length + 1) = (l ++ [10]).length := by
        rw [List.length_append, List.length_singleton]
        omega
      unfold fgets
      rw [hline, hlen, List.flatMap_cons]
      dsimp only
      rw [List.take_left, List.drop_left]
    rw [readLines, hget, if_neg (by simp), ih (fun l' hl' => h l' (by simp [hl'])) (by simpa using hfuel), List.map_cons]

/-! ### Looking up -/

/-- The last lines of `getResource`. -/
def answer (mem : Heap (Node DbNode)) (x : Option Nat) : Exec (Option XrmValue) := do
  let p ← Exec.deref x
  let node ← Exec.deref (mem.get p)
  let addr ← Exec.deref node.item.value
  let size ← Exec.deref node.item.len
  .ok (some ⟨addr, size⟩)

theorem getResourceAt_eq (hG : Grown mem db kids) (x : Option Nat) (name : Name) :
    getResourceAt mem x (head mem db x) name = (descend mem kids x name).elim (.ok none) (answer mem) := by
  induction name generalizing x with
  | nil => rfl
  | cons k name ih =>
    have hseg := hG.segment x
    rw [getResourceAt, descend_cons]
    rcases findKey_eq k none hseg hseg.length_le with ⟨p, sib', hfind, heq⟩ | ⟨hfind, heq⟩
    · obtain ⟨node, hget⟩ := hG.live (List.mem_of_find?_eq_some hfind)
      have hchild : childOf mem kids x k = some p := hfind
      have hhead : head mem db (some p) = node.item.child := by
        rw [head, hget]
        rfl
      rw [heq, Exec.ok_bind, hchild, Option.bind_some, ← ih (some p), hhead]
      dsimp only
      rw [hget, Exec.deref_some, Exec.ok_bind]
    · have hchild : childOf mem kids x k = none := hfind
      rw [heq, Exec.ok_bind, hchild]
      rfl

/-- What is to be found under a name. -/
def found (es : List (Name × List UInt8)) (name : Name) : Option XrmValue := (lookup es name).map fun v => ⟨v, v.length⟩

/-- The name has a line of its own, or is not the beginning of another line's name. -/
def Answers (es : List (Name × List UInt8)) (name : Name) : Prop :=
  name ≠ [] ∧ ((∃ e ∈ es, e.1 = name) ∨ ¬ ∃ e ∈ es, name <+: e.1)

theorem lookup_eq_none : lookup es name = none ↔ ¬ ∃ e ∈ es, e.1 = name := by
  rw [lookup, Option.map_eq_none_iff, List.find?_eq_none]
  simp only [List.mem_reverse, decide_eq_true_eq, not_exists, not_and]

theorem answer_live {node : Node DbNode} (hM : Measured mem) (h : mem.get p = some node) :
    answer mem (some p) = node.item.value.elim (.error .fault) fun v => .ok (some ⟨v, v.length⟩) := by
  unfold answer
  rw [Exec.deref_some, Exec.ok_bind, h, Exec.deref_some, Exec.ok_bind, hM p node h]
  cases node.item.value <;> rfl

/-- Exactly for such names the lookup is that of a map; for the others it reads what was not written. -/
theorem Knows.getResource (hK : Knows d kids es) (name : Name) :
    (Answers es name → getResourceAt d.mem none d.db name = .ok (found es name)) ∧
      (¬ Answers es name → getResourceAt d.mem none d.db name = .error .fault) := by
  have heq : getResourceAt d.mem none d.db name = (descend d.mem kids none name).elim (.ok none) (answer d.mem) :=
    getResourceAt_eq hK.grown none name
  rw [heq, found]
  rcases hdescend : descend d.mem kids none name with _ | (_ | p)
  · -- no node
    have hlook : look d.mem kids name = none := by
      rw [look, hdescend]
      rfl
    have hlookup : lookup es name = none := by
      rcases hl : lookup es name with _ | v
      · rfl
      · rw [hK.own name v hl] at hlook
        cases hlook
    rw [hlookup]
    refine ⟨fun _ => rfl, fun hnot => ?_⟩
    have hne : name ≠ [] := fun h => by
      rw [h] at hdescend
      cases hdescend
    refine absurd ⟨hne, .inr fun hin => ?_⟩ hnot
    rw [hK.inner name hlookup hne hin] at hlook
    cases hlook
  · -- the name has no components
    obtain rfl : name = [] := hK.grown.name_unique hdescend rfl
    exact ⟨fun h => absurd rfl h.1, fun _ => rfl⟩
  · obtain ⟨node, hget⟩ := hK.grown.live_of_descend hdescend
    have hlook : look d.mem kids name = some node.item.value := by
      rw [look, hdescend, Option.bind_some, Option.bind_some, hget]
      rfl
    have hne : name ≠ [] := fun h => by
      rw [h] at hdescend
      cases hdescend
    rw [Option.elim_some, answer_live hK.measured hget]
    rcases hl : lookup es name with _ | v
    · -- a node that only has others below it
      have hin : ∃ e ∈ es, name <+: e.1 := by
        by_contra hin
        rw [hK.other name hl fun h => hin h.2] at hlook
        cases hlook
      rw [hK.inner name hl hne hin] at hlook
      rw [← Option.some.inj hlook]
      exact ⟨fun h => absurd hin (h.2.resolve_left (lookup_eq_none.1 hl)), fun _ => rfl⟩
    · rw [hK.own name v hl] at hlook
      rw [← Option.some.inj hlook]
      refine ⟨fun _ => rfl, fun hnot => absurd ⟨hne, .inl ?_⟩ hnot⟩
      by_contra hown
      rw [lookup_eq_none.2 hown] at hl
      cases hl

theorem Knows.db_eq_none (hK : Knows d kids es) : d.db = none ↔ es = [] := by
  have hseg := hK.grown.segment none
  constructor
  · intro hdb
    rw [head, hdb] at hseg
    have hkids : kids none = [] := by
      rcases hk : kids none with _ | ⟨p, l⟩
      · rfl
      · rw [hk] at hseg
        cases hseg.1
    rw [List.eq_nil_iff_forall_not_mem]
    intro e he
    have hlook : look d.mem kids e.1 = none := by
      rcases hname : e.1 with _ | ⟨k, a⟩
      · exact absurd hname (hK.names e he)
      · rw [look, descend_cons, childOf, hkids]
        rfl
    rcases hl : lookup es e.1 with _ | v
    · exact lookup_eq_none.1 hl ⟨e, he, rfl⟩
    · rw [hK.own e.1 v hl] at hlook
      cases hlook
  · rintro rfl
    rcases hk : kids none with _ | ⟨p, l⟩
    · rw [hk] at hseg
      exact hseg
    · obtain ⟨node, hget⟩ := hK.grown.live (x := none) (p := p) (by rw [hk]; simp)
      have hkey : keyAt d.mem p = some node.item.key := by rw [keyAt, hget]; rfl
      have hchild : childOf d.mem kids none node.item.key = some p := by
        rw [childOf, hk, List.find?_cons, hkey]
        simp
      have hlook := hK.other [node.item.key] rfl (by simp)
      rw [look, descend_cons, hchild, Option.bind_some, descend_nil, Option.bind_some, Option.bind_some, hget] at hlook
      cases hlook

/-! ### Texts -/

/-- A string without a zero. -/
def Plain (s : List UInt8) : Prop := ∀ c ∈ s, c ≠ 0

theorem plain_cstr (s : List UInt8) : Plain (cstr s) := fun c hc => by
  have := List.mem_takeWhile_imp hc
  simpa using this

theorem cstr_plain {s : List UInt8} (h : Plain s) : cstr s = s := by
  rw [cstr, List.takeWhile_eq_self_iff]
  intro c hc
  simpa using h c hc

theorem plain_strtok {delim : UInt8} {s t rest : List UInt8} (hs : Plain s) (h : strtok delim s = some (t, rest)) :
    Plain t ∧ Plain rest := by
  unfold strtok at h
  dsimp only at h
  split at h
  · cases h
  · cases h
    have hdrop : Plain (s.dropWhile (· = delim)) := fun c hc => hs c (List.dropWhile_subset _ hc)
    exact ⟨fun c hc => hdrop c (List.takeWhile_subset _ hc),
      fun c hc => hdrop c (List.dropWhile_subset _ (List.mem_of_mem_drop hc))⟩

theorem plain_entry {line : List UInt8} {e : Name × List UInt8} (hline : Plain line) (h : entry line = some e) :
    Plain e.2 := by
  obtain ⟨⟨res, arg⟩, hparse, h⟩ := Option.bind_eq_some_iff.1 h
  have harg : Plain arg := by
    unfold parseLine at hparse
    split at hparse
    · cases hparse
    · obtain ⟨⟨res', rest⟩, hres, hparse⟩ := Option.bind_eq_some_iff.1 hparse
      obtain ⟨⟨arg', rest'⟩, harg, hparse⟩ := Option.bind_eq_some_iff.1 hparse
      cases hparse
      have htok := (plain_strtok (plain_strtok hline hres).2 harg).1
      exact fun c hc => htok c (List.dropWhile_subset _ hc)
  dsimp only at h
  split at h
  · cases h
  · cases h
    exact harg

theorem plain_readLines {fuel : Nat} {s line : List UInt8} (h : line ∈ readLines fuel s) : Plain line := by
  induction fuel generalizing s with
  | zero => cases h
  | succ fuel ih =>
    rw [readLines] at h
    split at h
    · cases h
    · rcases List.mem_cons.1 h with rfl | h
      · exact plain_cstr _
      · exact ih h

theorem plain_lookup {file : Option (List UInt8)} {v : List UInt8} (h : lookup (entries file) name = some v) : Plain v := by
  obtain ⟨e, he, rfl⟩ := Option.map_eq_some_iff.1 h
  have hmem := List.mem_reverse.1 (List.mem_of_find?_eq_some he)
  obtain ⟨line, hline, hentry⟩ := List.mem_filterMap.1 hmem
  cases file with
  | none => cases hline
  | some s => exact plain_entry (plain_readLines hline) hentry

/-- The buffer begins with the text, cut to make room for a zero, and the zero. -/
def Holds (buffer text : List UInt8) (nbytes : Nat) : Prop :=
  buffer.take (min (cstr text).length (nbytes - 1) + 1) = (cstr text).take (nbytes - 1) ++ [0]

/-- A text is put there as it should be, but for one that is just as long as the buffer and whose size has no zero in it. -/
theorem put_iff {buffer : List UInt8} {size nbytes : Nat} (text : List UInt8) (hn : 1 ≤ nbytes) (hb : nbytes ≤ buffer.length)
    (hsize : size = (cstr text).length ∨ size = (cstr text).length + 1) :
    (∃ buffer', put ⟨text, size⟩ buffer nbytes = .ok buffer' ∧ Holds buffer' text nbytes) ↔ size ≠ nbytes ∨
      (cstr text).length < nbytes := by
  obtain ⟨m, rfl⟩ : ∃ m, nbytes = m + 1 := ⟨nbytes - 1, by omega⟩
  have hcopy : strncpy buffer text (m + 1) =
      .ok ((cstr text ++ List.replicate (m + 1) 0).take (m + 1) ++ buffer.drop (m + 1)) := if_pos hb
  unfold put Holds
  dsimp only
  rw [hcopy, Exec.ok_bind, Nat.add_sub_cancel]
  rcases Nat.lt_or_ge (cstr text).length (m + 1) with hlt | hge
  · -- the zeros behind the text end it
    have htake : (cstr text ++ List.replicate (m + 1) (0 : UInt8)).take (m + 1) =
        cstr text ++ [0] ++ List.replicate (m - (cstr text).length) 0 := by
      rw [List.take_append, List.take_of_length_le (by omega), List.take_replicate, List.append_assoc,
        List.singleton_append, ← List.replicate_succ]
      congr 2
      omega
    refine iff_of_true ⟨_, rfl, ?_⟩ (.inr hlt)
    rw [if_neg (by omega), htake, Nat.min_eq_left (by omega), List.take_of_length_le (show (cstr text).length ≤ m by omega),
      List.append_assoc]
    exact List.take_left' (by simp)
  · have hm : m < (cstr text).length := by omega
    have hsplit : cstr text = (cstr text).take m ++ (cstr text)[m] :: (cstr text).drop (m + 1) := by
      rw [← List.drop_eq_getElem_cons hm, List.take_append_drop]
    have hlen : ((cstr text).take m).length = m := by rw [List.length_take, Nat.min_eq_left hm.le]
    have htake : (cstr text ++ List.replicate (m + 1) (0 : UInt8)).take (m + 1) = (cstr text).take m ++ [(cstr text)[m]] := by
      rw [List.take_append_of_le_length hge, List.take_add_one, List.getElem?_eq_getElem hm, Option.toList_some]
    rw [htake, Nat.min_eq_right hm.le]
    by_cases hover : size > m + 1
    · refine iff_of_true ⟨_, rfl, ?_⟩ (.inl (by omega))
      rw [if_pos hover, List.append_assoc, List.set_append_right _ _ hlen.le, hlen, Nat.sub_self, List.singleton_append,
        List.set_cons_zero, ← List.singleton_append, ← List.append_assoc]
      exact List.take_left' (by rw [List.length_append, hlen, List.length_singleton])
    · -- as long as the buffer
      refine iff_of_false ?_ (by omega)
      rintro ⟨_, ⟨⟩, hholds⟩
      rw [if_neg hover, List.take_left' (by rw [List.length_append, hlen, List.length_singleton])] at hholds
      have hzero : (cstr text)[m] = 0 := by simpa using List.append_cancel_left hholds
      exact plain_cstr text _ (List.getElem_mem hm) hzero

theorem cstr_dotted (name type : List UInt8) : cstr (dotted name type) = dotted name type := by
  refine cstr_plain fun c hc => ?_
  rcases List.mem_append.1 hc with hc | hc
  · exact plain_cstr _ c hc
  · rcases List.mem_cons.1 hc with rfl | hc
    · decide
    · exact plain_cstr _ c hc

/-- The name fits in the buffer on the stack, has an answer, and not a text that is just as long as the caller's
buffer. -/
structure Fits (es : List (Name × List UInt8)) (name type : List UInt8) (nbytes : Nat) : Prop where
  room : (dotted name type).length + 1 ≤ bufsiz
  answers : Answers es (tokens 46 (dotted name type))
  text : ∀ v, lookup es (tokens 46 (dotted name type)) = some v → v.length ≠ nbytes

theorem Knows.text_iff {file : Option (List UInt8)} (hK : Knows d kids (entries file)) {type defaultp buffer : List UInt8}
    {nbytes : Nat} {name : List UInt8} (hn : 1 ≤ nbytes) (hb : nbytes ≤ buffer.length) :
    (∃ buffer', auGetErrorDatabaseText d name type defaultp buffer nbytes = .ok buffer' ∧
      Holds buffer' ((lookup (entries file) (tokens 46 (dotted name type))).getD defaultp) nbytes) ↔
        entries file = [] ∨ Fits (entries file) name type nbytes := by
  have hdefault : ∃ buffer', put ⟨defaultp, (cstr defaultp).length + 1⟩ buffer nbytes = .ok buffer' ∧
      Holds buffer' defaultp nbytes := (put_iff _ hn hb (.inr rfl)).2 (by omega)
  unfold auGetErrorDatabaseText
  rw [if_neg (by omega)]
  by_cases hes : entries file = []
  · rw [if_pos (hK.db_eq_none.2 hes), hes]
    exact iff_of_true hdefault (.inl rfl)
  · rw [if_neg (mt hK.db_eq_none.1 hes)]
    by_cases hroom : bufsiz < (dotted name type).length + 1
    · rw [if_pos hroom]
      refine iff_of_false ?_ fun h => absurd (h.resolve_left hes).room (by omega)
      rintro ⟨_, h, -⟩
      cases h
    · obtain ⟨hyes, hno⟩ := hK.getResource (tokens 46 (dotted name type))
      have hget : ErrorText.getResource d (dotted name type) =
          getResourceAt d.mem none d.db (tokens 46 (dotted name type)) := by
        rw [ErrorText.getResource, cstr_dotted]
      rw [if_neg hroom, hget]
      by_cases hanswers : Answers (entries file) (tokens 46 (dotted name type))
      · rw [hyes hanswers, Exec.ok_bind, found]
        rcases hl : lookup (entries file) (tokens 46 (dotted name type)) with _ | v
        · exact iff_of_true hdefault (.inr ⟨by omega, hanswers, by simp [hl]⟩)
        · have hplain := cstr_plain (plain_lookup hl)
          have hput := put_iff v hn hb (.inl (congrArg List.length hplain.symm))
          rw [hplain] at hput
          refine hput.trans ⟨fun h => .inr ⟨by omega, hanswers, fun v' hv' => ?_⟩, fun h => .inl ?_⟩
          · rw [hl] at hv'
            cases hv'
            omega
          · exact (h.resolve_left hes).text v hl
      · rw [hno hanswers, Exec.error_bind]
        refine iff_of_false ?_ fun h => hanswers (h.resolve_left hes).answers
        rintro ⟨_, h, -⟩
        cases h

/-- The database is the map of the file's lines for the names that have a line or begin no other name; and texts are
put in the caller's buffer as they should be but for such a name, for one that is too long, and for a text that is
just as long as the buffer. -/
theorem errorDatabase_iff (file : Option (List UInt8)) : ∃ d, getFileDataBase file = .ok d ∧
    (∀ name, getResource d name = .ok (found (entries file) (tokens 46 (cstr name))) ↔
      Answers (entries file) (tokens 46 (cstr name))) ∧
    (∀ (name type defaultp buffer : List UInt8) (nbytes : Nat), 1 ≤ nbytes → nbytes ≤ buffer.length →
      ((∃ buffer', auGetErrorDatabaseText d name type defaultp buffer nbytes = .ok buffer' ∧
        Holds buffer' ((lookup (entries file) (tokens 46 (dotted name type))).getD defaultp) nbytes) ↔
          entries file = [] ∨ Fits (entries file) name type nbytes)) := by
  obtain ⟨d, kids, hd, hK⟩ := getFileDataBase_knows file
  refine ⟨d, hd, fun name => ?_, fun name type defaultp buffer nbytes hn hb => hK.text_iff hn hb⟩
  obtain ⟨hyes, hno⟩ := hK.getResource (tokens 46 (cstr name))
  refine ⟨fun h => ?_, hyes⟩
  by_contra hnot
  rw [getResource, hno hnot] at h
  cases h

/-- `a.b: x` -/
def oneLine : List UInt8 := [97, 46, 98, 58, 32, 120, 10]

/-- The node for `a` has no text; and the text of `a.b` fills a buffer of one byte. -/
theorem oneLine_not_map : ¬ (∀ file d name, getFileDataBase file = .ok d →
      getResource d name = .ok (found (entries file) (tokens 46 (cstr name)))) ∧
    ¬ ∀ file d name type defaultp buffer nbytes, getFileDataBase file = .ok d → 1 ≤ nbytes → nbytes ≤ buffer.length →
      ∃ buffer', auGetErrorDatabaseText d name type defaultp buffer nbytes = .ok buffer' ∧
        Holds buffer' ((lookup (entries file) (tokens 46 (dotted name type))).getD defaultp) nbytes := by
  obtain ⟨d, hd, hinner, htext⟩ : ∃ d, getFileDataBase (some oneLine) = .ok d ∧ getResource d [97] = .error .fault ∧
      auGetErrorDatabaseText d [97] [98] [] [0] 1 = .ok [120] := ⟨_, rfl, rfl, rfl⟩
  constructor
  · intro h
    have := h (some oneLine) d [97] hd
    rw [hinner] at this
    cases this
  · intro h
    obtain ⟨buffer', hput, hholds⟩ := h (some oneLine) d [97] [98] [] [0] 1 hd le_rfl le_rfl
    rw [htext] at hput
    cases hput
    revert hholds
    unfold Holds
    decide

end Nas.ErrorText
