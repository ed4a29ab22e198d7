import Nas.Chain

/-!
# The library's event queue

`_AuEnq`, `AuNextEvent`, `AuScanEvents` and `AuSync` of the library: a list of events with a pointer to its last record,
and a list of records that are free. `Layout` says that the pointers make up two lists that have no record in common.
There are four things that are done to them: a record is taken from the free list or allocated (`obtain_spec`), appended
(`append_spec`), taken out (`unlink_spec`) and given back (`release_spec`).

What the functions are for is said by `Call.apply`, on a list of events; `run_refines` connects the two.
-/

namespace Nas.ClientQueue

variable {α : Type}

structure AuServer (α : Type) where
  head : Option Nat := none
  tail : Option Nat := none
  qfree : Option Nat := none
  qlen : Int := 0
  mem : Heap (Node α) := .empty

/-- An event that is read: `event_vec` converts it, and says whether it is to be queued. -/
structure Arrival (α : Type) where
  event : α
  kept : Bool
deriving DecidableEq, Repr

namespace AuServer

/-- `p->next = v` -/
def setNext (p : Nat) (v : Option Nat) (s : AuServer α) : Exec (AuServer α) :=
  if s.mem.live p then .ok { s with mem := s.mem.modify p ({ · with next := v }) } else .error .fault

/-- A record for an event: a free one, or a new one. -/
def obtain (event : α) (s : AuServer α) : Exec (Nat × AuServer α) :=
  match s.qfree with
  | some qelt => do
    let node ← Exec.deref (s.mem.get qelt)
    .ok (qelt, { s with qfree := node.next, mem := s.mem.modify qelt fun _ => ⟨event, none⟩ })
  | none => .ok (s.mem.next, { s with mem := s.mem.alloc ⟨event, none⟩ })

/-- `qelt->next = aud->qfree; aud->qfree = qelt` -/
def release (qelt : Nat) (s : AuServer α) : Exec (AuServer α) := do
  let s ← s.setNext qelt s.qfree
  .ok { s with qfree := some qelt }

/-- A record behind the last one, or at the head. -/
def linkLast (qelt : Nat) (s : AuServer α) : Exec (AuServer α) :=
  match s.tail with
  | some tail => s.setNext tail (some qelt)
  | none => .ok { s with head := some qelt }

/-- `_AuEnq`, where `malloc` succeeds. -/
def auEnq (a : Arrival α) (s : AuServer α) : Exec (AuServer α) := do
  let (qelt, s) ← s.obtain a.event
  if a.kept then do
    let s ← s.linkLast qelt
    .ok { s with tail := some qelt, qlen := s.qlen + 1 }
  else s.release qelt

/-- What is behind `prev` is `next` now. -/
def bypass (prev next : Option Nat) (s : AuServer α) : Exec (AuServer α) :=
  match prev with
  | some prev => do
    let s ← s.setNext prev next
    .ok (if next = none then { s with tail := some prev } else s)
  | none => .ok (if next = none then { s with head := next, tail := none } else { s with head := next })

/-- Take a record out that is behind `prev`. -/
def unlink (prev : Option Nat) (qelt : Nat) (next : Option Nat) (s : AuServer α) : Exec (AuServer α) := do
  let s ← s.bypass prev next
  let s ← s.release qelt
  .ok { s with qlen := s.qlen - 1 }

/-- The events that are read, one after another. -/
def auEnqAll (arrivals : List (Arrival α)) (s : AuServer α) : Exec (AuServer α) :=
  arrivals.foldlM (fun s a => s.auEnq a) s

/-- `_AuReadEvents`. It waits as long as there is no event. -/
def auReadEvents (arrivals : List (Arrival α)) (s : AuServer α) : Exec (AuServer α) := do
  let s ← s.auEnqAll arrivals
  if s.head = none then .error .fuel else .ok s

def auNextEvent (dequeue : Bool) (arrivals : List (Arrival α)) (s : AuServer α) : Exec (α × AuServer α) := do
  let s ← if s.head = none then s.auReadEvents arrivals else .ok s
  let qelt ← Exec.deref s.head
  let node ← Exec.deref (s.mem.get qelt)
  if dequeue then do
    let s ← s.unlink none qelt node.next
    .ok (node.item, s)
  else .ok (node.item, s)

/-- The inner loop of `AuScanEvents`: the record that matches, and the last one in front of it. -/
def scan (predicate : α → Bool) (mem : Heap (Node α)) :
    Nat → Option Nat → Option Nat → Exec (Option Nat × Option (Nat × Node α))
  | _, prev, none => .ok (prev, none)
  | 0, _, some _ => .error .fuel
  | n + 1, prev, some qelt => do
    let node ← Exec.deref (mem.get qelt)
    if predicate node.item then .ok (prev, some (qelt, node)) else scan predicate mem n (some qelt) node.next

/-- `prev ? prev->next : aud->head` -/
def nextOf (prev : Option Nat) (s : AuServer α) : Exec (Option Nat) :=
  match prev with
  | some prev => (·.next) <$> Exec.deref (s.mem.get prev)
  | none => .ok s.head

/-- The turns of the outer loop of `AuScanEvents`. In front of each but the first one events are read. -/
def scanTurns (dequeue : Bool) (predicate : α → Bool) : List (List (Arrival α)) → Option Nat → AuServer α →
    Exec (Option α × AuServer α)
  | [], _, s => .ok (none, s)
  | arrivals :: turns, prev, s => do
    let s ← s.auEnqAll arrivals
    let qelt ← s.nextOf prev
    match ← scan predicate s.mem s.mem.next prev qelt with
    | (prev, some (qelt, node)) =>
      if dequeue then do
        let s ← s.unlink prev qelt node.next
        .ok (some node.item, s)
      else .ok (some node.item, s)
    | (prev, none) => scanTurns dequeue predicate turns prev s

/-- The modes are 0 to 2: events that are queued already, those read without and with a flush. -/
def auScanEvents (mode : Int) (dequeue : Bool) (predicate : α → Bool) (reading flush : List (Arrival α)) (s : AuServer α) :
    Exec (Option α × AuServer α) :=
  if mode > 2 then .ok (none, s)
  else s.scanTurns dequeue predicate ([[], reading, flush].take (mode + 1).toNat) none

def auSync (discard : Bool) (arrivals : List (Arrival α)) (s : AuServer α) : Exec (AuServer α) := do
  let s ← s.auEnqAll arrivals
  if discard = true ∧ s.head ≠ none then do
    let tail ← Exec.deref s.tail
    let s ← s.setNext tail s.qfree
    .ok { s with qfree := s.head, head := none, tail := none, qlen := 0 }
  else .ok s

end AuServer
/-! ### What the queue is for -/

/-- The events that are queued. -/
def kept (arrivals : List (Arrival α)) : List α := (arrivals.filter (·.kept)).map (·.event)

inductive Call (α : Type) where
  | enq (a : Arrival α)
  | nextEvent (dequeue : Bool) (arrivals : List (Arrival α))
  | scanEvents (mode : Int) (dequeue : Bool) (predicate : α → Bool) (reading flush : List (Arrival α))
  | sync (discard : Bool) (arrivals : List (Arrival α))

/-- The first event that matches, of those that are there when it is found. -/
def search (dequeue : Bool) (predicate : α → Bool) : List (List (Arrival α)) → List α → Option α × List α
  | [], q => (none, q)
  | arrivals :: turns, q =>
    match (q ++ kept arrivals).find? predicate with
    | some e => (some e, if dequeue then (q ++ kept arrivals).eraseP predicate else q ++ kept arrivals)
    | none => search dequeue predicate turns (q ++ kept arrivals)

/-- What a call returns and leaves of the queue; `none` if it waits for an event. -/
def Call.apply : Call α → List α → Option (Option α × List α)
  | enq a, q => some (none, q ++ kept [a])
  | nextEvent dequeue arrivals, q =>
    match if q = [] then kept arrivals else q with
    | [] => none
    | e :: rest => some (some e, if dequeue then rest else e :: rest)
  | scanEvents mode dequeue predicate reading flush, q =>
    some (if mode > 2 then (none, q) else search dequeue predicate ([[], reading, flush].take (mode + 1).toNat) q)
  | sync discard arrivals, q => some (none, if discard then [] else q ++ kept arrivals)

def Call.run (s : AuServer α) : Call α → Exec (Option α × AuServer α)
  | enq a => (none, ·) <$> s.auEnq a
  | nextEvent dequeue arrivals => (fun r => (some r.1, r.2)) <$> s.auNextEvent dequeue arrivals
  | scanEvents mode dequeue predicate reading flush => s.auScanEvents mode dequeue predicate reading flush
  | sync discard arrivals => (none, ·) <$> s.auSync discard arrivals

/-- The calls of a run, with what they return. -/
def applyAll : List (Call α) → List α → Option (List (Option α) × List α)
  | [], q => some ([], q)
  | c :: calls, q => do
    let (e, q) ← c.apply q
    let (es, q) ← applyAll calls q
    some (e :: es, q)

def runAll : List (Call α) → AuServer α → Exec (List (Option α) × AuServer α)
  | [], s => .ok ([], s)
  | c :: calls, s => do
    let (e, s) ← c.run s
    let (es, s) ← runAll calls s
    .ok (e :: es, s)

/-! ### The two lists -/

/-- The records of the queue, the free ones, and the events in the queue. -/
structure Layout (s : AuServer α) (l f : List Nat) (q : List α) : Prop where
  queue : Segment s.mem s.head l none
  free : Segment s.mem s.qfree f none
  nodup : (l ++ f).Nodup
  tail : s.tail = l.getLast?
  qlen : s.qlen = l.length
  items : l.map (fun p => (s.mem.get p).map (·.item)) = q.map some

/-- The pointers make up a queue of these events. -/
structure Represents (s : AuServer α) (q : List α) : Prop where
  layout : ∃ l f, Layout s l f q
  head_none : s.head = none ↔ s.qlen = 0
  tail_none : s.tail = none ↔ s.qlen = 0

variable {s : AuServer α} {l f l₁ l₂ : List Nat} {q q₁ q₂ : List α} {p : Nat} {e : α} {node : Node α}

theorem Segment.head_eq {mem : Heap (Node α)} {head : Option Nat} (h : Segment mem head l none) : head = l.head? := by
  cases l with
  | nil => exact h
  | cons p l => exact h.1

namespace Layout

theorem length (h : Layout s l f q) : q.length = l.length := by
  have := congrArg List.length h.items
  simpa using this.symm

theorem represents (h : Layout s l f q) : Represents s q := by
  have hhead : s.head = l.head? := Segment.head_eq h.queue
  refine ⟨⟨l, f, h⟩, ?_, ?_⟩
  · rw [hhead, h.qlen, List.head?_eq_none_iff, ← List.length_eq_zero_iff]
    omega
  · rw [h.tail, h.qlen, List.getLast?_eq_none_iff, ← List.length_eq_zero_iff]
    omega

/-- Changes to the memory elsewhere. -/
theorem congr {mem : Heap (Node α)} (h : Layout s l f q) (hmem : ∀ p ∈ l ++ f, mem.get p = s.mem.get p) :
    Layout { s with mem } l f q where
  queue := h.queue.congr fun p hp => hmem p (List.mem_append_left f hp)
  free := h.free.congr fun p hp => hmem p (List.mem_append_right l hp)
  nodup := h.nodup
  tail := h.tail
  qlen := h.qlen
  items := by
    rw [← h.items]
    exact List.map_congr_left fun p hp => by rw [hmem p (List.mem_append_left f hp)]

end Layout

theorem live_of_get (h : s.mem.get p = some node) : s.mem.live p = true := by
  rw [Heap.live, h]
  rfl

theorem setNext_eq (h : s.mem.live p = true) (v : Option Nat) :
    s.setNext p v = .ok { s with mem := s.mem.modify p ({ · with next := v }) } := if_pos h

theorem get_modify_ne {mem : Heap (Node α)} {g : Node α → Node α} {p' : Nat} (h : p' ≠ p) :
    (mem.modify p g).get p' = mem.get p' := by
  rw [Heap.get_modify, if_neg h]

/-- A record for an event is in neither of the lists. -/
theorem obtain_spec (h : Layout s l f q) (e : α) : ∃ p s' f', s.obtain e = .ok (p, s') ∧ Layout s' l f' q ∧
    p ∉ l ++ f' ∧ s'.mem.get p = some ⟨e, none⟩ := by
  unfold AuServer.obtain
  rcases hfree : s.qfree with _ | p
  · have hnew : ∀ p ∈ l ++ f, p ≠ s.mem.next := fun p hp => by
      rcases List.mem_append.1 hp with hp | hp
      · obtain ⟨node, hget⟩ := h.queue.live hp
        exact Nat.ne_of_lt (Heap.lt_next hget)
      · obtain ⟨node, hget⟩ := h.free.live hp
        exact Nat.ne_of_lt (Heap.lt_next hget)
    have h' : Layout { s with qfree := none } l f q := { h with
      free := by
        have hf := h.free
        rwa [hfree] at hf }
    refine ⟨s.mem.next, _, f, rfl, h'.congr fun p hp => ?_, fun hp => hnew _ hp rfl, ?_⟩
    · rw [Heap.get_alloc, if_neg (hnew p hp)]
    · rw [Heap.get_alloc, if_pos rfl]
  · have hf := h.free
    rw [hfree] at hf
    cases f with
    | nil => cases hf
    | cons p' f =>
      obtain ⟨heq, node, hget, hf⟩ := hf
      cases heq
      obtain ⟨hnodup, hp⟩ : (l ++ f).Nodup ∧ p ∉ l ++ f := by
        have := h.nodup
        rw [List.nodup_middle, List.nodup_cons] at this
        exact ⟨this.2, this.1⟩
      have hother : ∀ p' ∈ l ++ f, (s.mem.modify p fun _ => ⟨e, none⟩).get p' = s.mem.get p' := fun p' hp' =>
        get_modify_ne fun heq => hp (heq ▸ hp')
      have hrest : Layout { s with qfree := node.next } l f q :=
        { h with free := hf, nodup := hnodup }
      dsimp only
      rw [hget]
      refine ⟨p, _, f, rfl, hrest.congr hother, hp, ?_⟩
      rw [Heap.get_modify_self, hget]
      rfl

/-- A record behind the last one. -/
theorem append_spec (h : Layout s l f q) (hp : p ∉ l ++ f) (hget : s.mem.get p = some ⟨e, none⟩) : ∃ s',
    s.linkLast p = .ok s' ∧ Layout { s' with tail := some p, qlen := s'.qlen + 1 } (l ++ [p]) f (q ++ [e]) := by
  have hnodup : ((l ++ [p]) ++ f).Nodup := by
    rw [List.append_assoc, List.singleton_append, List.nodup_middle, List.nodup_cons]
    exact ⟨hp, h.nodup⟩
  have hqlen : s.qlen + 1 = ((l ++ [p]).length : Nat) := by
    rw [h.qlen, List.length_append]
    rfl
  unfold AuServer.linkLast
  rcases List.eq_nil_or_concat' l with rfl | ⟨l, t, rfl⟩
  · rw [h.tail]
    refine ⟨_, rfl, ⟨rfl, _, hget, rfl⟩, h.free, hnodup, rfl, hqlen, ?_⟩
    have hq : q = [] := List.length_eq_zero_iff.1 h.length
    rw [hq]
    simp [hget]
  · rw [h.tail, List.getLast?_concat]
    dsimp only
    obtain ⟨r, hfront, rfl, node, hlast, -⟩ := Segment.append.1 h.queue
    rw [setNext_eq (live_of_get hlast)]
    have ht : t ∉ l ∧ t ∉ f ∧ p ≠ t := by
      have := h.nodup
      rw [List.append_assoc, List.singleton_append, List.nodup_middle, List.nodup_cons] at this
      refine ⟨fun ht => this.1 (List.mem_append_left f ht), fun ht => this.1 (List.mem_append_right l ht), ?_⟩
      rintro rfl
      exact hp (by simp)
    have hmodify : ∀ p' ≠ t, (s.mem.modify t ({ · with next := some p })).get p' = s.mem.get p' := fun p' hne =>
      get_modify_ne hne
    refine ⟨_, rfl, ?_, h.free.congr fun p' hp' => hmodify p' ?_, hnodup, by simp, hqlen, ?_⟩
    · refine Segment.append.2 ⟨some p, Segment.append.2 ⟨some t, hfront.congr fun p' hp' => hmodify p' ?_, rfl,
        { node with next := some p }, ?_, rfl⟩, rfl, ⟨e, none⟩, ?_, rfl⟩
      · rintro rfl
        exact ht.1 hp'
      · rw [Heap.get_modify_self, hlast]
        rfl
      · exact (hmodify p ht.2.2).trans hget
    · rintro rfl
      exact ht.2.1 hp'
    · rw [List.map_append, List.map_append (f := some), ← h.items]
      congr 1
      · refine List.map_congr_left fun p' hp' => ?_
        by_cases hpt : p' = t
        · rw [hpt, Heap.get_modify_self, hlast]
          rfl
        · rw [hmodify p' hpt]
      · rw [List.map_singleton, List.map_singleton, hmodify p ht.2.2, hget]
        rfl

theorem release_eq (h : s.mem.live p = true) : s.release p = .ok { s with
    mem := s.mem.modify p ({ · with next := s.qfree }), qfree := some p } := by
  rw [AuServer.release, setNext_eq h]
  rfl

/-- A record that is given back. -/
theorem release_spec (h : Layout s l f q) (hp : p ∉ l ++ f) (hget : s.mem.get p = some node) :
    ∃ s', s.release p = .ok s' ∧ Layout s' l (p :: f) q := by
  have hother : ∀ p' ∈ l ++ f, (s.mem.modify p ({ · with next := s.qfree })).get p' = s.mem.get p' := fun p' hp' =>
    get_modify_ne fun heq => hp (heq ▸ hp')
  have hl := h.congr hother
  refine ⟨_, release_eq (live_of_get hget), { hl with free := ⟨rfl, { node with next := s.qfree }, ?_, hl.free⟩, nodup := ?_ }⟩
  · rw [Heap.get_modify_self, hget]
    rfl
  · rw [List.nodup_middle, List.nodup_cons]
    exact ⟨hp, h.nodup⟩

/-- The pointers are set past a record. -/
theorem bypass_spec (h : Layout s (l₁ ++ p :: l₂) f (q₁ ++ e :: q₂)) (hlen : q₁.length = l₁.length)
    (hget : s.mem.get p = some node) : ∃ s', s.bypass l₁.getLast? node.next = .ok s' ∧
    Layout { s' with qlen := s.qlen - 1 } (l₁ ++ l₂) f (q₁ ++ q₂) ∧ s'.mem.live p = true ∧ s'.qlen = s.qlen := by
  obtain ⟨r, hfront, rfl, node', hget', hback⟩ := Segment.append.1 h.queue
  cases hget.symm.trans hget'
  have hitems := h.items
  rw [List.map_append, List.map_append, List.map_cons, List.map_cons] at hitems
  obtain ⟨hitems₁, hitems₂⟩ := List.append_inj hitems (by rw [List.length_map, List.length_map, hlen])
  have hitems₂ := (List.cons.inj hitems₂).2
  have hnext : node.next = none ↔ l₂ = [] := by rw [Segment.head_eq hback, List.head?_eq_none_iff]
  have hnodup := h.nodup
  rw [List.append_assoc, List.cons_append, List.nodup_middle, List.nodup_cons] at hnodup
  have hqlen : s.qlen - 1 = ((l₁ ++ l₂).length : Nat) := by
    rw [h.qlen, List.length_append, List.length_append, List.length_cons]
    omega
  unfold AuServer.bypass
  rcases List.eq_nil_or_concat' l₁ with rfl | ⟨l₁, t, rfl⟩
  · have hq : q₁ = [] := List.length_eq_zero_iff.1 hlen
    subst hq
    have htail : s.tail = (p :: l₂).getLast? := h.tail
    rw [List.nil_append, List.nil_append]
    dsimp only [List.getLast?_nil]
    refine ⟨_, rfl, ?_⟩
    by_cases hnone : node.next = none
    · have hl₂ := hnext.1 hnone
      subst hl₂
      rw [if_pos hnone]
      exact ⟨⟨hback, h.free, hnodup.2, rfl, hqlen, hitems₂⟩, live_of_get hget, rfl⟩
    · rw [if_neg hnone]
      refine ⟨⟨hback, h.free, hnodup.2, ?_, hqlen, hitems₂⟩, live_of_get hget, rfl⟩
      rcases List.eq_nil_or_concat' l₂ with rfl | ⟨l₂, u, rfl⟩
      · exact absurd (hnext.2 rfl) hnone
      · show s.tail = _
        rw [htail, ← List.cons_append, List.getLast?_concat, List.getLast?_concat]
  · obtain ⟨r, hfront, rfl, nodeₜ, hlast, -⟩ := Segment.append.1 hfront
    have hrest := hnodup.2
    rw [List.append_assoc, List.singleton_append, List.nodup_middle, List.nodup_cons] at hrest
    have ht : t ∉ l₁ ∧ t ∉ l₂ ∧ t ∉ f := by
      have := hrest.1
      simp only [List.mem_append, not_or] at this
      exact this
    have hpt : p ≠ t := by
      rintro rfl
      exact hnodup.1 (by simp)
    have hmodify : ∀ p' ≠ t, (s.mem.modify t ({ · with next := node.next })).get p' = s.mem.get p' := fun p' hne =>
      get_modify_ne hne
    rw [List.getLast?_concat]
    dsimp only
    rw [setNext_eq (live_of_get hlast), Exec.ok_bind]
    -- the two lists, whatever the tail is
    have hseg : Segment (s.mem.modify t ({ · with next := node.next })) s.head (l₁ ++ [t] ++ l₂) none := by
      refine Segment.append.2 ⟨node.next, Segment.append.2 ⟨some t, hfront.congr fun p' hp' => hmodify p' ?_, rfl,
        { nodeₜ with next := node.next }, ?_, rfl⟩, hback.congr fun p' hp' => hmodify p' ?_⟩
      · rintro rfl
        exact ht.1 hp'
      · rw [Heap.get_modify_self, hlast]
        rfl
      · rintro rfl
        exact ht.2.1 hp'
    have hfree : Segment (s.mem.modify t ({ · with next := node.next })) s.qfree f none :=
      h.free.congr fun p' hp' => hmodify p' (by rintro rfl; exact ht.2.2 hp')
    have hsame : ∀ p', ((s.mem.modify t ({ · with next := node.next })).get p').map (·.item) = (s.mem.get p').map (·.item) :=
      fun p' => by
        by_cases heq : p' = t
        · rw [heq, Heap.get_modify_self, hlast]
          rfl
        · rw [hmodify p' heq]
    have hall : (l₁ ++ [t] ++ l₂).map (fun p' => ((s.mem.modify t ({ · with next := node.next })).get p').map (·.item)) =
        (q₁ ++ q₂).map some := by
      rw [List.map_append (f := some), ← hitems₁, ← hitems₂, ← List.map_append]
      exact List.map_congr_left fun p' _ => hsame p'
    have hnodup' : (l₁ ++ [t] ++ l₂ ++ f).Nodup := by
      rw [List.append_assoc]
      exact hnodup.2
    have hlive : (s.mem.modify t ({ · with next := node.next })).live p = true := by
      rw [Heap.live, hmodify p hpt, hget]
      rfl
    refine ⟨_, rfl, ?_⟩
    by_cases hnone : node.next = none
    · have hl₂ := hnext.1 hnone
      subst hl₂
      rw [if_pos hnone]
      exact ⟨⟨hseg, hfree, hnodup', by rw [List.append_nil, List.getLast?_concat], hqlen, hall⟩, hlive, rfl⟩
    · rw [if_neg hnone]
      refine ⟨⟨hseg, hfree, hnodup', ?_, hqlen, hall⟩, hlive, rfl⟩
      rcases List.eq_nil_or_concat' l₂ with rfl | ⟨l₂, u, rfl⟩
      · exact absurd (hnext.2 rfl) hnone
      · show s.tail = _
        rw [h.tail, ← List.append_assoc, ← List.cons_append, ← List.append_assoc, List.getLast?_concat, List.getLast?_concat]

/-- A record that is taken out. -/
theorem unlink_spec (h : Layout s (l₁ ++ p :: l₂) f (q₁ ++ e :: q₂)) (hlen : q₁.length = l₁.length)
    (hget : s.mem.get p = some node) :
    ∃ s', s.unlink l₁.getLast? p node.next = .ok s' ∧ Layout s' (l₁ ++ l₂) (p :: f) (q₁ ++ q₂) := by
  obtain ⟨t, ht, hl, hlive, hq⟩ := bypass_spec h hlen hget
  have hp : p ∉ (l₁ ++ l₂) ++ f := by
    have := h.nodup
    rw [List.append_assoc, List.cons_append, List.nodup_middle, List.nodup_cons, ← List.append_assoc] at this
    exact this.1
  obtain ⟨node', hget'⟩ := Option.isSome_iff_exists.1 hlive
  obtain ⟨u, hu, hlu⟩ := release_spec (s := { t with qlen := s.qlen - 1 }) hl hp hget'
  rw [@release_eq _ { t with qlen := s.qlen - 1 } _ hlive] at hu
  cases hu
  unfold AuServer.unlink
  rw [ht, Exec.ok_bind, release_eq hlive, Exec.ok_bind]
  refine ⟨_, rfl, ?_⟩
  dsimp only
  rw [hq]
  exact hlu

/-! ### The calls -/

theorem auEnq_spec (h : Layout s l f q) (a : Arrival α) : ∃ s' l' f', s.auEnq a = .ok s' ∧
    Layout s' (l ++ l') f' (q ++ kept [a]) := by
  obtain ⟨p, t, f', ht, hl, hp, hget⟩ := obtain_spec h a.event
  unfold AuServer.auEnq kept
  rw [ht, Exec.ok_bind]
  dsimp only
  by_cases hk : a.kept = true
  · obtain ⟨u, hu, hlu⟩ := append_spec hl hp hget
    rw [if_pos hk, hu, List.filter_cons_of_pos hk]
    exact ⟨_, [p], f', rfl, hlu⟩
  · obtain ⟨u, hu, hlu⟩ := release_spec hl hp hget
    rw [if_neg hk, hu, List.filter_cons_of_neg hk]
    refine ⟨u, [], p :: f', rfl, ?_⟩
    simpa using hlu

theorem auEnqAll_spec (arrivals : List (Arrival α)) (h : Layout s l f q) : ∃ s' l' f', s.auEnqAll arrivals = .ok s' ∧
    Layout s' (l ++ l') f' (q ++ kept arrivals) := by
  induction arrivals generalizing s l f q with
  | nil => exact ⟨s, [], f, rfl, by simpa [kept] using h⟩
  | cons a arrivals ih =>
    obtain ⟨t, l₁, f₁, ht, hl⟩ := auEnq_spec h a
    obtain ⟨u, l₂, f₂, hu, hlu⟩ := ih hl
    refine ⟨u, l₁ ++ l₂, f₂, ?_, ?_⟩
    · unfold AuServer.auEnqAll at hu ⊢
      rw [List.foldlM_cons, ht, Exec.ok_bind, hu]
    · have hkept : kept (a :: arrivals) = kept [a] ++ kept arrivals := by
        unfold kept
        rw [← List.map_append, ← List.filter_append]
        rfl
      rw [hkept, ← List.append_assoc, ← List.append_assoc]
      exact hlu

theorem auNextEvent_spec (h : Layout s l f q) (dequeue : Bool) (arrivals : List (Arrival α)) :
    match (Call.nextEvent dequeue arrivals).apply q with
    | none => s.auNextEvent dequeue arrivals = .error .fuel
    | some (e, q') => ∃ e' s' l' f', e = some e' ∧ s.auNextEvent dequeue arrivals = .ok (e', s') ∧ Layout s' l' f' q' := by
  -- the queue with an event at its head
  have hhead : ∀ {s : AuServer α} {l f q}, Layout s l f q → ∀ {e rest}, q = e :: rest → ∃ s' l' f',
      (do
        let qelt ← Exec.deref s.head
        let node ← Exec.deref (s.mem.get qelt)
        if dequeue then do
          let s ← s.unlink none qelt node.next
          Except.ok (node.item, s)
        else Except.ok (node.item, s)) = Except.ok (e, s') ∧ Layout s' l' f' (if dequeue then rest else e :: rest) := by
    rintro s l f q h e rest rfl
    cases l with
    | nil => exact absurd h.length (by simp)
    | cons p l =>
      obtain ⟨hp, node, hget, -⟩ := h.queue
      have he : node.item = e := by
        have hitems := h.items
        rw [List.map_cons, List.map_cons, hget] at hitems
        exact Option.some.inj (List.cons.inj hitems).1
      rw [hp, Exec.deref_some, Exec.ok_bind, hget, Exec.deref_some, Exec.ok_bind]
      by_cases hd : dequeue = true
      · have hfirst : Layout s ([] ++ p :: l) f ([] ++ e :: rest) := h
        obtain ⟨t, ht, hl⟩ := unlink_spec hfirst rfl hget
        rw [if_pos hd, if_pos hd]
        rw [List.getLast?_nil] at ht
        rw [ht, Exec.ok_bind, he]
        exact ⟨t, _, _, rfl, hl⟩
      · rw [if_neg hd, if_neg hd, he]
        exact ⟨s, _, _, rfl, h⟩
  have hnone : s.head = none ↔ q = [] := by
    rw [Segment.head_eq h.queue, List.head?_eq_none_iff, ← List.length_eq_zero_iff, ← h.length, List.length_eq_zero_iff]
  unfold AuServer.auNextEvent Call.apply
  by_cases hq : q = []
  · obtain ⟨t, l', f', ht, hl⟩ := auEnqAll_spec arrivals h
    have htnone : t.head = none ↔ kept arrivals = [] := by
      rw [Segment.head_eq hl.queue, List.head?_eq_none_iff, ← List.length_eq_zero_iff, ← hl.length, List.length_eq_zero_iff, hq,
        List.nil_append]
    rw [if_pos (hnone.2 hq), AuServer.auReadEvents, ht, Exec.ok_bind]
    dsimp only
    rw [if_pos hq]
    rw [hq, List.nil_append] at hl
    rcases hk : kept arrivals with _ | ⟨e, rest⟩
    · rw [if_pos (htnone.2 hk)]
      rfl
    · rw [if_neg (fun hn => by rw [htnone.1 hn] at hk; cases hk), Exec.ok_bind]
      obtain ⟨u, l'', f'', hu, hlu⟩ := hhead hl hk
      exact ⟨e, u, l'', f'', rfl, hu, hlu⟩
  · rw [if_neg (fun hn => hq (hnone.1 hn)), Exec.ok_bind]
    dsimp only
    rw [if_neg hq]
    rcases q with _ | ⟨e, rest⟩
    · exact absurd rfl hq
    · obtain ⟨u, l'', f'', hu, hlu⟩ := hhead h rfl
      exact ⟨e, u, l'', f'', rfl, hu, hlu⟩

/-- The inner loop goes on to the first record that matches, or to the end. -/
theorem scan_spec {mem : Heap (Node α)} {qelt : Option Nat} (predicate : α → Bool) (hl : Segment mem qelt l none)
    (hitems : l.map (fun p => (mem.get p).map (·.item)) = q.map some) {n : Nat} (hn : l.length ≤ n) (prev : Option Nat) :
    (AuServer.scan predicate mem n prev qelt = .ok (l.getLast?.or prev, none) ∧ q.find? predicate = none) ∨
      ∃ l₁ p l₂ q₁ node q₂, l = l₁ ++ p :: l₂ ∧ q = q₁ ++ node.item :: q₂ ∧ q₁.length = l₁.length ∧
        mem.get p = some node ∧ q.find? predicate = some node.item ∧ q.eraseP predicate = q₁ ++ q₂ ∧
        AuServer.scan predicate mem n prev qelt = .ok (l₁.getLast?.or prev, some (p, node)) := by
  induction l generalizing qelt q n prev with
  | nil =>
    cases hl
    have hq : q = [] := by simpa using hitems.symm
    subst hq
    refine .inl ⟨?_, rfl⟩
    unfold AuServer.scan
    rfl
  | cons p l ih =>
    obtain ⟨rfl, node, hget, hl⟩ := hl
    obtain ⟨n, rfl⟩ : ∃ m, n = m + 1 := ⟨n - 1, by simp at hn; omega⟩
    cases q with
    | nil => cases hitems
    | cons e q =>
      rw [List.map_cons, List.map_cons, hget] at hitems
      obtain ⟨he, hrest⟩ := List.cons.inj hitems
      have he : node.item = e := Option.some.inj he
      subst he
      rw [AuServer.scan, hget, Exec.deref_some, Exec.ok_bind]
      by_cases hm : predicate node.item = true
      · rw [if_pos hm, List.find?_cons_of_pos hm, List.eraseP_cons_of_pos hm]
        exact .inr ⟨[], p, l, [], node, q, rfl, rfl, rfl, hget, rfl, rfl, rfl⟩
      · rw [if_neg hm, List.find?_cons_of_neg hm, List.eraseP_cons_of_neg hm]
        rcases ih hl hrest (by simpa using hn) (some p) with ⟨hscan, hnone⟩ |
          ⟨l₁, p', l₂, q₁, node', q₂, rfl, rfl, hlen, hget', hfind, herase, hscan⟩
        · refine .inl ⟨?_, hnone⟩
          rw [hscan, List.getLast?_cons]
          rcases l.getLast? with _ | t <;> rfl
        · refine .inr ⟨p :: l₁, p', l₂, node.item :: q₁, node', q₂, rfl, rfl, by simp [hlen], hget', hfind, ?_, ?_⟩
          · rw [herase]
            rfl
          · rw [hscan, List.getLast?_cons]
            rcases l₁.getLast? with _ | t <;> rfl

/-- What is behind the records that have been looked at. -/
theorem nextOf_spec (h : Layout s (l₁ ++ l₂) f q) : ∃ qelt, s.nextOf l₁.getLast? = .ok qelt ∧ Segment s.mem qelt l₂ none := by
  obtain ⟨r, hfront, hback⟩ := Segment.append.1 h.queue
  unfold AuServer.nextOf
  rcases List.eq_nil_or_concat' l₁ with rfl | ⟨l₁, t, rfl⟩
  · exact ⟨s.head, rfl, by rw [show s.head = r from hfront]; exact hback⟩
  · obtain ⟨u, -, rfl, node, hget, rfl⟩ := Segment.append.1 hfront
    rw [List.getLast?_concat]
    exact ⟨node.next, by dsimp only; rw [hget]; rfl, hback⟩

/-- The turns of the outer loop, where no event among those that have been looked at matches. -/
theorem scanTurns_spec (dequeue : Bool) (predicate : α → Bool) (turns : List (List (Arrival α)))
    (h : Layout s (l₁ ++ l₂) f (q₁ ++ q₂)) (hlen : q₁.length = l₁.length) (hnone : q₁.find? predicate = none) :
    ∃ s' l' f', s.scanTurns dequeue predicate turns l₁.getLast? =
        .ok ((search dequeue predicate turns (q₁ ++ q₂)).1, s') ∧
      Layout s' l' f' (search dequeue predicate turns (q₁ ++ q₂)).2 := by
  induction turns generalizing s l₁ l₂ f q₁ q₂ with
  | nil => exact ⟨s, _, f, rfl, h⟩
  | cons arrivals turns ih =>
    obtain ⟨t, l₃, f', ht, hl⟩ := auEnqAll_spec arrivals h
    rw [List.append_assoc, List.append_assoc] at hl
    obtain ⟨qelt, hnext, hseg⟩ := nextOf_spec hl
    have hitems := hl.items
    rw [List.map_append, List.map_append (f := some)] at hitems
    obtain ⟨hitems₁, hitems₂⟩ := List.append_inj hitems (by rw [List.length_map, List.length_map, hlen])
    have hle : (l₂ ++ l₃).length ≤ t.mem.next := hseg.length_le
    unfold AuServer.scanTurns search
    rw [ht, Exec.ok_bind, hnext, Exec.ok_bind, List.append_assoc, List.find?_append, hnone, Option.none_or]
    rcases scan_spec predicate hseg hitems₂ hle l₁.getLast? with ⟨hscan, hfind⟩ |
      ⟨l₄, p, l₅, q₄, node, q₅, hl₄, hq₄, hlen₄, hget, hfind, herase, hscan⟩
    · rw [hscan, hfind, Exec.ok_bind]
      dsimp only
      rw [← List.getLast?_append]
      have hall : (q₁ ++ (q₂ ++ kept arrivals)).find? predicate = none := by
        rw [List.find?_append, hnone, hfind]
        rfl
      rw [← List.append_nil (q₁ ++ (q₂ ++ kept arrivals))]
      refine @ih _ f' _ [] _ [] ?_ ?_ hall
      · rw [List.append_nil, List.append_nil]
        exact hl
      · have := hl.length
        simpa using this
    · rw [hscan, hfind, Exec.ok_bind]
      dsimp only
      by_cases hd : dequeue = true
      · rw [if_pos hd, if_pos hd, ← List.getLast?_append]
        rw [hl₄, hq₄, ← List.append_assoc, ← List.append_assoc] at hl
        obtain ⟨u, hu, hlu⟩ := unlink_spec hl (by simp [hlen, hlen₄]) hget
        rw [hu]
        refine ⟨u, l₁ ++ l₄ ++ l₅, p :: f', rfl, ?_⟩
        have hpass : ∀ e ∈ q₁, ¬ predicate e = true := fun e he => by
          have := List.find?_eq_none.1 hnone e he
          simpa using this
        rw [List.eraseP_append_right _ hpass, herase, ← List.append_assoc]
        exact hlu
      · rw [if_neg hd, if_neg hd]
        exact ⟨t, _, _, rfl, hl⟩

/-- One call. -/
theorem call_spec (h : Layout s l f q) (c : Call α) : match c.apply q with
    | none => c.run s = .error .fuel
    | some (e, q') => ∃ s' l' f', c.run s = .ok (e, s') ∧ Layout s' l' f' q' := by
  cases c with
  | enq a =>
    obtain ⟨t, l', f', ht, hl⟩ := auEnq_spec h a
    exact ⟨t, _, f', by rw [Call.run, ht]; rfl, hl⟩
  | nextEvent dequeue arrivals =>
    have hspec := auNextEvent_spec h dequeue arrivals
    rcases happly : (Call.nextEvent dequeue arrivals).apply q with _ | ⟨e, q'⟩
    · rw [happly] at hspec
      dsimp only at hspec ⊢
      rw [Call.run, hspec]
      rfl
    · rw [happly] at hspec
      obtain ⟨e', t, l', f', rfl, ht, hl⟩ := hspec
      exact ⟨t, l', f', by rw [Call.run, ht]; rfl, hl⟩
  | scanEvents mode dequeue predicate reading flush =>
    simp only [Call.apply, Call.run, AuServer.auScanEvents]
    by_cases hmode : mode > 2
    · rw [if_pos hmode, if_pos hmode]
      exact ⟨s, l, f, rfl, h⟩
    · rw [if_neg hmode, if_neg hmode]
      have hfirst : Layout s ([] ++ l) f ([] ++ q) := h
      exact scanTurns_spec dequeue predicate _ hfirst rfl rfl
  | sync discard arrivals =>
    obtain ⟨t, l', f', ht, hl⟩ := auEnqAll_spec arrivals h
    simp only [Call.apply, Call.run, AuServer.auSync]
    rw [ht, Exec.ok_bind]
    have hempty : t.head = none ↔ q ++ kept arrivals = [] := by
      rw [Segment.head_eq hl.queue, List.head?_eq_none_iff, ← List.length_eq_zero_iff, ← hl.length, List.length_eq_zero_iff]
    by_cases hd : discard = true
    · rw [if_pos hd]
      by_cases hnone : t.head = none
      · rw [if_neg (fun hn => hn.2 hnone)]
        rw [hempty.1 hnone] at hl
        exact ⟨t, _, _, rfl, hl⟩
      · rw [if_pos ⟨hd, hnone⟩]
        rcases List.eq_nil_or_concat' (l ++ l') with hnil | ⟨l₁, u, hcat⟩
        · rw [Segment.head_eq hl.queue, hnil] at hnone
          exact absurd rfl hnone
        rw [hcat] at hl
        obtain ⟨r, hfront, rfl, node, hget, -⟩ := Segment.append.1 hl.queue
        rw [hl.tail, List.getLast?_concat, Exec.deref_some, Exec.ok_bind, setNext_eq (live_of_get hget), Exec.ok_bind]
        have hnodup := hl.nodup
        have hu : u ∉ l₁ ∧ u ∉ f' := by
          rw [List.append_assoc, List.singleton_append, List.nodup_middle, List.nodup_cons, List.mem_append, not_or] at hnodup
          exact hnodup.1
        have hmodify : ∀ p ≠ u, (t.mem.modify u ({ · with next := t.qfree })).get p = t.mem.get p := fun p hne =>
          get_modify_ne hne
        refine ⟨_, [], l₁ ++ [u] ++ f', rfl, rfl, ?_, by simpa using hnodup, rfl, rfl, rfl⟩
        refine Segment.append.2 ⟨t.qfree, Segment.append.2 ⟨some u, hfront.congr fun p hp => hmodify p ?_, rfl,
          { node with next := t.qfree }, ?_, rfl⟩, hl.free.congr fun p hp => hmodify p ?_⟩
        · rintro rfl
          exact hu.1 hp
        · rw [Heap.get_modify_self, hget]
          rfl
        · rintro rfl
          exact hu.2 hp
    · rw [if_neg hd, if_neg (fun hn => hd hn.1)]
      exact ⟨t, _, _, rfl, hl⟩

/-- A run of calls. -/
theorem run_spec (calls : List (Call α)) (h : Layout s l f q) : match applyAll calls q with
    | none => runAll calls s = .error .fuel
    | some (es, q') => ∃ s' l' f', runAll calls s = .ok (es, s') ∧ Layout s' l' f' q' := by
  induction calls generalizing s l f q with
  | nil => exact ⟨s, l, f, rfl, h⟩
  | cons c calls ih =>
    have hc := call_spec h c
    unfold applyAll runAll
    rcases happly : c.apply q with _ | ⟨e, q₁⟩
    · rw [happly] at hc
      dsimp only at hc
      rw [hc]
      rfl
    · rw [happly] at hc
      obtain ⟨t, l', f', ht, hl⟩ := hc
      rw [ht, Exec.ok_bind]
      have hrest := ih hl
      rcases hall : applyAll calls q₁ with _ | ⟨es, q₂⟩
      · rw [hall] at hrest
        dsimp only at hrest ⊢
        rw [hrest, Option.bind_eq_bind, Option.bind_some]
        dsimp only
        rw [hall]
        rfl
      · rw [hall] at hrest
        obtain ⟨u, l'', f'', hu, hlu⟩ := hrest
        rw [Option.bind_eq_bind, Option.bind_some]
        dsimp only
        rw [hall, hu]
        exact ⟨u, l'', f'', rfl, hlu⟩

/-- Every sequence of calls returns what the list of events says, and leaves pointers that make up the queue that is
left of it and a free list that has no record of the queue; it waits only where the list says so. -/
theorem run_refines (calls : List (Call α)) : match applyAll calls [] with
    | none => runAll calls {} = .error .fuel
    | some (es, q) => ∃ s, runAll calls {} = .ok (es, s) ∧ Represents s q := by
  have hinit : Layout ({} : AuServer α) [] [] [] := ⟨rfl, rfl, List.nodup_nil, rfl, rfl, rfl⟩
  have hrun := run_spec calls hinit
  rcases happly : applyAll calls [] with _ | ⟨es, q⟩
  · rw [happly] at hrun
    exact hrun
  · rw [happly] at hrun
    obtain ⟨s, l, f, hs, hl⟩ := hrun
    exact ⟨s, hs, hl.represents⟩

/-- The event in the middle of three is taken out, and read events are found behind those that were there. -/
example : applyAll [.enq ⟨1, true⟩, .enq ⟨2, true⟩, .enq ⟨3, false⟩, .enq ⟨4, true⟩,
    .scanEvents 0 true (· == 2) [] [], .scanEvents 1 false (· == 5) [⟨5, true⟩] [], .nextEvent true []] [] =
    some ([none, none, none, none, some 2, some 5, some 1], [4, 5]) := by decide

end Nas.ClientQueue
