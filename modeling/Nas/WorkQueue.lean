import Nas.Chain
import Nas.Loop

/-!
# The work queue

`ProcessWorkQueue` walks over a linked list whose entries may append to it while they run. `WorkQueue.last` is where the
next entry is linked, the list's head or the `next` of an entry, so that a write through it fails when that entry is freed.
What a procedure does is given by the state of the world: the entries it queues, each with whether there was memory for
it, and what it returns. `Ran` records a call.
-/

namespace Nas.WorkProcs
open Turn
variable {π σ : Type}

structure WorkQueue (π : Type) where
  workQueue : Option Nat
  last : Slot
  mem : Heap (Node π)

/-- A pointer is written. -/
def WorkQueue.write (wq : WorkQueue π) (s : Slot) (v : Option Nat) : Exec (WorkQueue π) := do
  let (heads, mem) ← s.write [wq.workQueue] wq.mem v
  return { wq with workQueue := heads.headD none, mem }

/-- `QueueWorkProc`, with whether the allocation succeeds. -/
def queueWorkProc (wq : WorkQueue π) : π × Bool → Exec (WorkQueue π)
  | (_, false) => .ok wq
  | (work, true) => do
    let q := wq.mem.next
    let wq ← WorkQueue.write { wq with mem := wq.mem.alloc ⟨work, none⟩ } wq.last (some q)
    return { wq with last := .next q }

/-- What the procedures do. -/
abbrev Behaviour (π σ : Type) : Type := π → σ → (List (π × Bool) × Bool) × σ

/-- A call of a procedure: what it queued, and whether it returned `TRUE`. -/
structure Ran (π : Type) where
  work : π
  queued : List (π × Bool)
  done : Bool
deriving DecidableEq, Repr

structure Walk (π σ : Type) where
  queue : WorkQueue π
  q : Option Nat
  p : Option Nat := none
  world : σ
  ran : List (Ran π) := []

/-- The link to what comes behind the entry that was kept last. -/
def Walk.link (s : Walk π σ) : Slot := s.p.elim (.head 0) .next

def turn (run : Behaviour π σ) (s : Walk π σ) : Exec (Turn (Walk π σ) (Walk π σ)) :=
  match s.q with
  | none => .ok (.stop { s with queue := { s.queue with last := s.link } })
  | some q => do
    let work := (← Exec.deref (s.queue.mem.get q)).item
    let ((queued, done), world) := run work s.world
    let queue ← queued.foldlM queueWorkProc s.queue
    -- not fetched until after the procedure was called
    let n := (← Exec.deref (queue.mem.get q)).next
    let ran := s.ran ++ [⟨work, queued, done⟩]
    if done then
      let queue ← queue.write s.link n
      return .next { queue := { queue with mem := queue.mem.free q }, q := n, p := s.p, world, ran }
    else return .next { queue, q := n, p := some q, world, ran }

def start (wq : WorkQueue π) (world : σ) : Walk π σ := { queue := wq, q := wq.workQueue, world }

def processWorkQueue (run : Behaviour π σ) (fuel : Nat) (wq : WorkQueue π) (world : σ) : Exec (Walk π σ) :=
  loop (turn run) fuel (start wq world)

/-! ### What is in the queue -/

/-- The queue holds some work, and the next is linked behind it. -/
def Queued (wq : WorkQueue π) (works : List π) : Prop :=
  ∃ l, Segment wq.mem wq.workQueue l none ∧ l.map (fun p => (wq.mem.get p).map (·.item)) = works.map some ∧
    wq.last = (Slot.head 0).after l

/-- The work that some calls have queued. -/
def newly (ran : List (Ran π)) : List π := ran.flatMap fun r => (r.queued.filter (·.2)).map (·.1)

/-- The work that is not done. -/
def kept (ran : List (Ran π)) : List π := (ran.filter (!·.done)).map (·.work)

/-- The calls are those of the procedures. -/
def Behaves (run : Behaviour π σ) : σ → List (Ran π) → σ → Prop
  | world, [], world' => world' = world
  | world, r :: ran, world' => (run r.work world).1 = (r.queued, r.done) ∧ Behaves run (run r.work world).2 ran world'

variable {wq wq' : WorkQueue π} {run : Behaviour π σ} {world world' : σ} {works waiting : List π} {ran ran' : List (Ran π)}
  {l l' : List Nat} {s s' : Walk π σ} {work : π} {queued : List (π × Bool)} {done : Bool}

@[simp] theorem newly_append : newly (ran ++ ran') = newly ran ++ newly ran' := List.flatMap_append

@[simp] theorem newly_singleton : newly [⟨work, queued, done⟩] = (queued.filter (·.2)).map (·.1) := by
  simp [newly]

@[simp] theorem kept_append : kept (ran ++ ran') = kept ran ++ kept ran' := by
  simp [kept]

@[simp] theorem kept_singleton : kept [⟨work, queued, done⟩] = if done then [] else [work] := by
  cases done <;> simp [kept]

theorem behaves_append : Behaves run world (ran ++ ran') world' ↔
    ∃ mid, Behaves run world ran mid ∧ Behaves run mid ran' world' := by
  induction ran generalizing world with
  | nil => simp [Behaves]
  | cons r ran ih => simp [Behaves, ih, and_assoc]

theorem Behaves.unique {world₁ world₂ : σ} (h : Behaves run world ran world₁) (h' : Behaves run world ran world₂) :
    world₁ = world₂ := by
  induction ran generalizing world with
  | nil => exact Eq.trans h h'.symm
  | cons r ran ih => exact ih h.2 h'.2

theorem Behaves.concat (h : Behaves run world ran world') :
    Behaves run world (ran ++ [⟨work, (run work world').1.1, (run work world').1.2⟩]) (run work world').2 :=
  behaves_append.2 ⟨world', h, rfl, rfl⟩

/-! ### Queueing -/

/-- A pointer behind some entries is written. -/
theorem write_spec {q : Option Nat} (wq : WorkQueue π) (v : Option Nat) (h : Segment wq.mem wq.workQueue l q) (hl : l.Nodup) :
    ∃ wq', WorkQueue.write wq ((Slot.head 0).after l) v = .ok wq' ∧ wq'.last = wq.last ∧
      Segment wq'.mem wq'.workQueue l v ∧ (∀ p, p ∉ l → wq'.mem.get p = wq.mem.get p) ∧
      (∀ p, (wq'.mem.get p).map (·.item) = (wq.mem.get p).map (·.item)) ∧ wq'.mem.next = wq.mem.next := by
  obtain ⟨heads, mem, hw, ⟨head, hhead, hseg⟩, -, -, hnodes, hitems, hnext⟩ :=
    h.write (show [wq.workQueue][0]? = some wq.workQueue from rfl) hl v
  have hzero : heads.headD none = head := by
    rcases heads with _ | ⟨a, heads⟩
    · cases hhead
    · exact Option.some.inj hhead
  refine ⟨{ wq with workQueue := heads.headD none, mem }, ?_, rfl, ?_, hnodes, hitems, hnext⟩
  · unfold WorkQueue.write
    rw [hw]
    rfl
  · dsimp only
    rw [hzero]
    exact hseg

/-- The entries of the queue, at their addresses. -/
structure Linked (wq : WorkQueue π) (l : List Nat) (works : List π) : Prop where
  segment : Segment wq.mem wq.workQueue l none
  items : l.map (fun p => (wq.mem.get p).map (·.item)) = works.map some
  last : wq.last = (Slot.head 0).after l

/-- An entry is queued behind the others, which stay what they are. -/
theorem Linked.queue (h : Linked wq l works) (c : π × Bool) : ∃ wq' new, queueWorkProc wq c = .ok wq' ∧
    Linked wq' (l ++ new) (works ++ if c.2 then [c.1] else []) ∧
    (∀ p ∈ l, (wq'.mem.get p).map (·.item) = (wq.mem.get p).map (·.item)) := by
  obtain ⟨hseg, hitems, hlast⟩ := h
  obtain ⟨work, allocated⟩ := c
  cases allocated with
  | false => exact ⟨wq, [], rfl, ⟨by simpa using hseg, by simpa using hitems, by simpa using hlast⟩, fun _ _ => rfl⟩
  | true =>
    have hold : ∀ p ∈ l, (wq.mem.alloc ⟨work, none⟩).get p = wq.mem.get p := fun p hp => by
      obtain ⟨node, hget⟩ := hseg.live hp
      rw [Heap.get_alloc, if_neg (Nat.ne_of_lt (Heap.lt_next hget))]
    have hnew : wq.mem.next ∉ l := fun hp => by
      obtain ⟨node, hget⟩ := hseg.live hp
      exact absurd (Heap.lt_next hget) (Nat.lt_irrefl _)
    obtain ⟨wq', hw, -, hseg', hnodes, hitems', -⟩ := write_spec { wq with mem := wq.mem.alloc ⟨work, none⟩ }
      (some wq.mem.next) (hseg.congr hold) hseg.nodup
    have hget : wq'.mem.get wq.mem.next = some ⟨work, none⟩ := by
      rw [hnodes _ hnew, Heap.get_alloc, if_pos rfl]
    have hsame : ∀ p ∈ l, (wq'.mem.get p).map (·.item) = (wq.mem.get p).map (·.item) := fun p hp => by
      rw [hitems' p]
      dsimp only
      rw [hold p hp]
    refine ⟨{ wq' with last := .next wq.mem.next }, [wq.mem.next], ?_, ⟨?_, ?_, ?_⟩, hsame⟩
    · unfold queueWorkProc
      dsimp only
      rw [hlast] at hw ⊢
      rw [hw]
      rfl
    · exact Segment.append.2 ⟨some wq.mem.next, hseg', rfl, ⟨work, none⟩, hget, rfl⟩
    · rw [List.map_append, List.map_append, List.map_congr_left hsame, hitems]
      dsimp only
      rw [List.map_cons, hget]
      rfl
    · rw [Slot.after_concat]

theorem Linked.queueAll (h : Linked wq l works) (queued : List (π × Bool)) : ∃ wq' new,
    queued.foldlM queueWorkProc wq = .ok wq' ∧ Linked wq' (l ++ new) (works ++ (queued.filter (·.2)).map (·.1)) ∧
    (∀ p ∈ l, (wq'.mem.get p).map (·.item) = (wq.mem.get p).map (·.item)) := by
  induction queued generalizing wq l works with
  | nil => exact ⟨wq, [], rfl, by simpa using h, fun _ _ => rfl⟩
  | cons c queued ih =>
    obtain ⟨wq₁, new₁, hw₁, h₁, hsame₁⟩ := h.queue c
    obtain ⟨wq₂, new₂, hw₂, h₂, hsame₂⟩ := ih h₁
    refine ⟨wq₂, new₁ ++ new₂, ?_, ?_, ?_⟩
    · rw [List.foldlM_cons, hw₁, Exec.ok_bind, hw₂]
    · have hworks : works ++ (if c.2 then [c.1] else []) ++ (queued.filter (·.2)).map (·.1) =
          works ++ ((c :: queued).filter (·.2)).map (·.1) := by
        rcases c with ⟨work, _ | _⟩ <;> simp
      rw [← List.append_assoc, ← hworks]
      exact h₂
    · intro p hp
      rw [hsame₂ p (List.mem_append_left _ hp), hsame₁ p hp]

/-! ### One call -/

/-- The state of a walk that has made some calls: the entries that were kept, and those that wait. -/
structure Inv (run : Behaviour π σ) (world : σ) (works : List π) (s : Walk π σ) (waiting : List π) (lk lw : List Nat) :
    Prop where
  segment : Segment s.queue.mem s.queue.workQueue (lk ++ lw) none
  kept : lk.map (fun p => (s.queue.mem.get p).map (·.item)) = (kept s.ran).map some
  waits : lw.map (fun p => (s.queue.mem.get p).map (·.item)) = waiting.map some
  q : s.q = lw.head?
  p : s.p = lk.getLast?
  last : lw ≠ [] → s.queue.last = (Slot.head 0).after (lk ++ lw)
  order : s.ran.map (·.work) ++ waiting = works ++ newly s.ran
  behaves : Behaves run world s.ran s.world

variable {lk lw : List Nat}

theorem Inv.link_eq (hI : Inv run world works s waiting lk lw) : s.link = (Slot.head 0).after lk := by
  unfold Walk.link Slot.after
  rw [hI.p]

/-- The walk ends where no entry waits. -/
theorem Inv.end (hI : Inv run world works s [] lk lw) :
    turn run s = .ok (.stop { s with queue := { s.queue with last := s.link } }) ∧
      Queued { s.queue with last := s.link } (WorkProcs.kept s.ran) := by
  have hnil : lw = [] := by simpa using hI.waits
  have hseg := hI.segment
  rw [hnil, List.append_nil] at hseg
  refine ⟨?_, lk, hseg, hI.kept, hI.link_eq⟩
  unfold turn
  rw [hI.q, hnil]
  rfl

/-- The next entry in the order is called; it stays just when it does not return `TRUE`. -/
theorem Inv.call (hI : Inv run world works s (work :: waiting) lk lw) : ∃ s' lk' lw', turn run s = .ok (.next s') ∧
    s'.ran = s.ran ++ [⟨work, (run work s.world).1.1, (run work s.world).1.2⟩] ∧
    Inv run world works s' (waiting ++ ((run work s.world).1.1.filter (·.2)).map (·.1)) lk' lw' := by
  obtain ⟨hseg, hkept, hwaits, hq, hp, hlast, horder, hbehaves⟩ := hI
  obtain ⟨q, lw₁, rfl, hitem, hrest⟩ := List.map_eq_cons_iff.1 hwaits
  obtain ⟨node, hget⟩ := hseg.live (p := q) (by simp)
  have hwork : node.item = work := by
    rw [hget] at hitem
    exact Option.some.inj hitem
  have hlinked : Linked s.queue (lk ++ q :: lw₁) (WorkProcs.kept s.ran ++ work :: waiting) :=
    ⟨hseg, by rw [List.map_append, hkept, hwaits, List.map_append], hlast (by simp)⟩
  obtain ⟨wq, new, hcalls, ⟨hseg', hitems', hlast'⟩, hsame⟩ := hlinked.queueAll (run work s.world).1.1
  rw [List.append_assoc, List.cons_append] at hseg' hlast'
  rw [List.append_assoc, List.append_assoc, List.cons_append, List.cons_append] at hitems'
  have hnodup := hseg'.nodup
  have hq' : q ∉ lk := fun hmem => (List.nodup_append.1 hnodup).2.2 q hmem q (by simp) rfl
  have hrest' : q ∉ lw₁ ++ new := (List.nodup_cons.1 (List.nodup_append.1 hnodup).2.1).1
  have hkept' : lk.map (fun p => (wq.mem.get p).map (·.item)) = (WorkProcs.kept s.ran).map some := by
    rw [← hkept]
    exact List.map_congr_left fun p hp => hsame p (List.mem_append_left _ hp)
  rw [List.map_append, List.map_append, hkept', List.append_cancel_left_eq, List.map_cons, List.map_cons, List.cons.injEq]
    at hitems'
  obtain ⟨hitem', hnew⟩ := hitems'
  obtain ⟨r, hfront, rfl, node', hget', hbehind⟩ := Segment.append.1 hseg'
  have hnext : node'.next = (lw₁ ++ new).head? := by
    rcases hl : lw₁ ++ new with _ | ⟨p, l⟩
    · rw [hl] at hbehind
      exact hbehind
    · rw [hl] at hbehind
      exact hbehind.1
  have horder' : (s.ran ++ [(⟨work, (run work s.world).1.1, (run work s.world).1.2⟩ : Ran π)]).map (·.work) ++
      (waiting ++ ((run work s.world).1.1.filter (·.2)).map (·.1)) =
      works ++ newly (s.ran ++ [⟨work, (run work s.world).1.1, (run work s.world).1.2⟩]) := by
    rw [newly_append, newly_singleton, ← List.append_assoc works, ← horder]
    simp
  have hstep : turn run s = (do
      let n := node'.next
      let ran := s.ran ++ [⟨work, (run work s.world).1.1, (run work s.world).1.2⟩]
      if (run work s.world).1.2 then
        let queue ← wq.write s.link n
        return .next {
          queue := { queue with mem := queue.mem.free q }, q := n, p := s.p, world := (run work s.world).2, ran }
      else return .next { queue := wq, q := n, p := some q, world := (run work s.world).2, ran }) := by
    unfold turn
    rw [hq]
    dsimp only [List.head?_cons]
    rw [hget, Exec.deref_some, Exec.ok_bind, hwork, hcalls, Exec.ok_bind, hget', Exec.deref_some, Exec.ok_bind]
  have hlink : s.link = (Slot.head 0).after lk := by
    unfold Walk.link Slot.after
    rw [hp]
  rw [hstep]
  dsimp only
  by_cases hdone : (run work s.world).1.2 = true
  · -- the entry is taken out, and what is behind it is linked to the entries that were kept
    obtain ⟨wq₂, hw, hlast₂, hseg₂, hnodes₂, hitems₂, -⟩ := write_spec _ node'.next hfront
      (List.nodup_append.1 hnodup).1
    have hfree : ∀ p, p ≠ q → (wq₂.mem.free q).get p = wq₂.mem.get p := fun p hp => by
      rw [Heap.get_free, if_neg hp]
    have hbehind₂ : Segment (wq₂.mem.free q) node'.next (lw₁ ++ new) none := by
      refine hbehind.congr fun p hp => ?_
      rw [hfree p (fun h => hrest' (h ▸ hp)), hnodes₂ p fun hmem =>
        (List.nodup_append.1 hnodup).2.2 p hmem p (List.mem_cons_of_mem _ hp) rfl]
    rw [if_pos hdone, hlink, hw, Exec.ok_bind]
    refine ⟨_, lk, lw₁ ++ new, rfl, rfl, ⟨?_, ?_, ?_, hnext, hp, ?_, horder', hbehaves.concat⟩⟩
    · exact Segment.append.2 ⟨node'.next, hseg₂.congr fun p hp => hfree p fun h => hq' (h ▸ hp), hbehind₂⟩
    · dsimp only
      rw [kept_append, kept_singleton, if_pos hdone, List.append_nil, ← hkept']
      exact List.map_congr_left fun p hp => by rw [hfree p (fun h => hq' (h ▸ hp)), hitems₂ p]
    · dsimp only
      rw [← hnew]
      exact List.map_congr_left fun p hp => by rw [hfree p (fun h => hrest' (h ▸ hp)), hitems₂ p]
    · intro hne
      dsimp only
      rcases List.eq_nil_or_concat' (lw₁ ++ new) with hnil | ⟨l, p, hl⟩
      · exact absurd hnil hne
      · rw [hlast₂, hlast', hl, ← List.cons_append, ← List.append_assoc, Slot.after_concat, ← List.append_assoc,
          Slot.after_concat]
  · -- the entry stays
    rw [if_neg hdone]
    refine ⟨_, lk ++ [q], lw₁ ++ new, rfl, rfl, ⟨?_, ?_, hnew, hnext, by simp, ?_, horder', hbehaves.concat⟩⟩
    · rw [List.append_assoc, List.singleton_append]
      exact hseg'
    · dsimp only
      rw [kept_append, kept_singleton, if_neg hdone, List.map_append, List.map_append, hkept', List.map_cons, hitem']
      rfl
    · intro _
      dsimp only
      rw [hlast', List.append_assoc, List.singleton_append]

/-! ### The walk -/

theorem Inv.start (run : Behaviour π σ) (world : σ) (h : Queued wq works) :
    ∃ l, Inv run world works (start wq world) works [] l := by
  obtain ⟨l, hseg, hitems, hlast⟩ := h
  refine ⟨l, hseg, rfl, hitems, ?_, rfl, fun _ => hlast, ?_, rfl⟩
  · rcases l with _ | ⟨p, l⟩
    · exact hseg
    · exact hseg.1
  · simp [WorkProcs.start, newly]

/-- Each turn that goes on is one more call. -/
theorem Inv.after {n : Nat} (hI : Inv run world works s waiting lk lw) (h : after (turn run) n s = some s') :
    s'.ran.length = s.ran.length + n ∧ ∃ waiting lk lw, Inv run world works s' waiting lk lw := by
  induction n generalizing s waiting lk lw with
  | zero =>
    cases h
    exact ⟨rfl, waiting, lk, lw, hI⟩
  | succ n ih =>
    cases waiting with
    | nil =>
      rw [Turn.after, hI.end.1] at h
      cases h
    | cons work waiting =>
      obtain ⟨s₁, lk₁, lw₁, hgo, hran, hI₁⟩ := hI.call
      rw [after_goes hgo] at h
      obtain ⟨hlen, hinv⟩ := ih hI₁ h
      refine ⟨?_, hinv⟩
      rw [hlen, hran, List.length_append, List.length_singleton]
      omega

/-- The walk does not fail, and where it ends every entry has been called. -/
theorem Inv.result (hI : Inv run world works s waiting lk lw) (fuel : Nat) :
    loop (turn run) fuel s = .error .fuel ∨ ∃ r, loop (turn run) fuel s = .ok r ∧ Behaves run world r.ran r.world ∧
      r.ran.map (·.work) = works ++ newly r.ran ∧ Queued r.queue (WorkProcs.kept r.ran) := by
  induction fuel generalizing s waiting lk lw with
  | zero => exact .inl rfl
  | succ fuel ih =>
    cases waiting with
    | nil =>
      obtain ⟨hstop, hqueued⟩ := hI.end
      refine .inr ⟨{ s with queue := { s.queue with last := s.link } }, ?_, hI.behaves, ?_, hqueued⟩
      · rw [Turn.loop, hstop]
        rfl
      · rw [← hI.order, List.append_nil]
    | cons work waiting =>
      obtain ⟨s₁, lk₁, lw₁, hgo, -, hI₁⟩ := hI.call
      rw [Turn.loop, hgo]
      exact ih hI₁

/-- The walk ends once the calls that are still to come are finitely many. -/
theorem Inv.halts (hI : Inv run world works s waiting lk lw) (h : Behaves run s.world ran world')
    (horder : ran.map (·.work) = waiting ++ newly ran) : ∃ r, loop (turn run) (ran.length + 1) s = .ok r := by
  induction ran generalizing s waiting lk lw with
  | nil =>
    obtain ⟨rfl, -⟩ := List.append_eq_nil_iff.1 horder.symm
    rw [Turn.loop, hI.end.1]
    exact ⟨_, rfl⟩
  | cons r ran ih =>
    cases waiting with
    | nil =>
      rw [Turn.loop, hI.end.1]
      exact ⟨_, rfl⟩
    | cons work waiting =>
      obtain ⟨s₁, lk₁, lw₁, hgo, hran, hI₁⟩ := hI.call
      obtain ⟨hr, hrest⟩ := h
      rw [List.map_cons, List.cons_append, List.cons.injEq] at horder
      obtain ⟨rfl, horder⟩ := horder
      have hworld : s₁.world = (run r.work s.world).2 := hI₁.behaves.unique (hran ▸ hI.behaves.concat)
      rw [hr] at hI₁
      rw [Turn.loop, hgo]
      refine ih hI₁ (hworld ▸ hrest) ?_
      rw [horder, List.append_assoc]
      rfl

/-- A run of the queue calls each entry once and in the order in which they were queued, the entries that the calls
queue among them; those that did not return `TRUE` are what is in the queue behind it. It ends just when there are
finitely many calls to make. -/
theorem processWorkQueue_calls (run : Behaviour π σ) (world : σ) (h : Queued wq works) :
    (∀ fuel, processWorkQueue run fuel wq world = .error .fuel ∨ ∃ r, processWorkQueue run fuel wq world = .ok r ∧
      Behaves run world r.ran r.world ∧ r.ran.map (·.work) = works ++ newly r.ran ∧ Queued r.queue (kept r.ran)) ∧
    ((∃ fuel r, processWorkQueue run fuel wq world = .ok r) ↔
      ∃ ran world', Behaves run world ran world' ∧ ran.map (·.work) = works ++ newly ran) ∧
    (∀ n s, after (turn run) n (start wq world) = some s → s.ran.length = n ∧ Behaves run world s.ran s.world ∧
      s.ran.map (·.work) = (works ++ newly s.ran).take n) := by
  obtain ⟨l, hI⟩ := Inv.start run world h
  refine ⟨hI.result, ⟨?_, ?_⟩, ?_⟩
  · rintro ⟨fuel, r, hr⟩
    rcases hI.result fuel with hfuel | ⟨r', -, hbehaves, horder, -⟩
    · rw [processWorkQueue, hfuel] at hr
      cases hr
    · exact ⟨r'.ran, r'.world, hbehaves, horder⟩
  · rintro ⟨ran, world', hbehaves, horder⟩
    obtain ⟨r, hr⟩ := hI.halts hbehaves horder
    exact ⟨ran.length + 1, r, hr⟩
  · intro n s hs
    obtain ⟨hlen, waiting, lk, lw, hI'⟩ := hI.after hs
    rw [show (start wq world).ran.length = 0 from rfl, Nat.zero_add] at hlen
    refine ⟨hlen, hI'.behaves, ?_⟩
    rw [← hI'.order, List.take_left' (by rw [List.length_map, hlen])]

/-- A queue of one procedure, which queues another that stays. -/
def oneWork : WorkQueue Nat := ⟨some 0, .next 0, Heap.empty.alloc ⟨0, none⟩⟩

def laterWork : Behaviour Nat Unit := fun work _ => ((if work = 0 then [(1, true)] else [], work == 0), ())

theorem oneWork_ends : ∃ fuel r, processWorkQueue laterWork fuel oneWork () = .ok r :=
  (processWorkQueue_calls laterWork () (show Queued oneWork [0] from ⟨[0], ⟨rfl, ⟨0, none⟩, rfl, rfl⟩, rfl, rfl⟩)).2.1.2
    ⟨[⟨0, [(1, true)], true⟩, ⟨1, [], false⟩], (), ⟨rfl, rfl, rfl⟩, rfl⟩

end Nas.WorkProcs
