import Nas.LinkedList

/-!
# The event queue

`auevents.c`: events are posted by the audio interrupt or by a change of state, delivered by
`ProcessAudioEvents`, and removed by `AuDequeueEvents` when their flow is destroyed. Each of the two loops is
walked one section between `AuBlockAudio` and `AuUnBlockAudio` at a time, so that an event can be posted
between any two of them; everything else happens while neither of the loops runs.

`posted`, `delivered`, `sent` and `removed` record what has happened. `QueueInv` is what holds in runs that
are `Careful`; there each event that was posted and not removed is delivered once, in its turn
(`event_queue`).
-/

namespace Nas.EventQueue
open LinkedList

/-- `AuElementNotifyKindSpecial` -/
def elementNotifyKindSpecial : Nat := 0xff

/-- `EventQueueRec` -/
structure EventRec where
  processClockedFlows : Bool
  flow : Nat
  client : Nat
deriving DecidableEq, Repr

structure Client where
  clientGone : Bool := false
deriving DecidableEq, Repr

structure Flow where
  /-- `el->client` of its elements, when it has elements: the client that has set them. -/
  client : Option Nat := none
deriving DecidableEq, Repr

/-- An event in the history: the item of the queue it was, and the flow and the client recorded in it. -/
structure Event where
  item : Nat
  flow : Nat
  client : Nat
deriving DecidableEq, Repr

/-- Where the main program is. -/
inductive Main where
  /-- in neither of the loops -/
  | idle
  /-- `ProcessAudioEvents`, at `while (p)` -/
  | processing (p : Option Nat)
  | unlinking (p : Nat)
  | freeing (p : Nat) (next : Option Nat)
  /-- `AuDequeueEvents`, at `while (p)` -/
  | dequeuing (flow : Nat) (p : Option Nat)
  | examining (flow p : Nat) (next : Option Nat)
  | dropping (flow p : Nat) (next : Option Nat)
deriving DecidableEq, Repr

/-- The flow that is being destroyed. -/
def Main.destroying : Main → Option Nat
  | dequeuing flow _ | examining flow _ _ | dropping flow _ _ => some flow
  | _ => none

/-- The record that is out of the queue and not freed yet. -/
def Main.unlinked : Main → Option Nat
  | freeing p _ | dropping _ p _ => some p
  | _ => none

structure State where
  recs : Heap EventRec := .empty
  links : Nat → Links Nat := fun _ => {}
  auEventQueue : Option Nat := none
  auEventQueueTail : Option Nat := none
  flows : Heap Flow := .empty
  clients : Heap Client := .empty
  main : Main := .idle
  posted : List Event := []
  delivered : List Event := []
  /-- The delivered events that were written to their clients. -/
  sent : List Event := []
  removed : List Nat := []

/-! ### Events -/

/-- `AddToEventQueue` of a new record. -/
def addToEventQueue (r : EventRec) (s : State) : Exec State := do
  let p := s.recs.next
  let (links, head) ← LinkedList.append s.recs.live s.links s.auEventQueue p s.auEventQueueTail
  .ok { s with
    recs := s.recs.alloc r
    links := links
    auEventQueue := head
    auEventQueueTail := some p
    posted := s.posted ++ [⟨p, r.flow, r.client⟩] }

/-- `AuRequestElementNotifyEvent` for an element of `flow`, and the records of
`AuRequestMonitorNotifyEvent`. `mem` is what the new memory holds. -/
def auRequestElementNotifyEvent (kind flow : Nat) (mem : EventRec) (s : State) : Exec State :=
  match (s.flows.get flow).bind Flow.client with
  | none => .ok s
  | some client =>
    if kind = elementNotifyKindSpecial then addToEventQueue { mem with processClockedFlows := true } s
    else addToEventQueue ⟨false, flow, client⟩ s

/-- `WriteAuEventsToClient` -/
def writeAuEventsToClient (client : Client) (e : Event) (s : State) : State :=
  if client.clientGone = false then { s with sent := s.sent ++ [e] } else s

/-- The body of the loop of `ProcessAudioEvents` up to the first section. The flows that a special event has
processed post their events themselves. -/
def deliver (p : Nat) (s : State) : Exec State := do
  let r ← Exec.deref (s.recs.get p)
  let s := { s with delivered := s.delivered ++ [⟨p, r.flow, r.client⟩] }
  if r.processClockedFlows then .ok s
  else do
    let client ← Exec.deref (s.clients.get r.client)
    .ok (writeAuEventsToClient client ⟨p, r.flow, r.client⟩ s)

/-- `RemoveFromLinkedList(AuEventQueue, p); if (!AuEventQueue) AuEventQueueTail = NULL;` -/
def unlink (p : Nat) (s : State) : Exec State := do
  let (links, head) ← LinkedList.remove s.recs.live s.links s.auEventQueue p
  .ok { s with
    links := links
    auEventQueue := head
    auEventQueueTail := if head = none then none else s.auEventQueueTail }

/-- `AuProtectedFree(p)` -/
def freeRec (p : Nat) (s : State) : Exec State :=
  if s.recs.live p then .ok { s with recs := s.recs.free p } else .error .fault

/-- The next step of the main program. -/
def stepMain (s : State) : Exec State :=
  match s.main with
  | .idle => .ok s
  | .processing none => .ok { s with main := .idle }
  | .processing (some p) => do
    let s ← deliver p s
    .ok { s with main := .unlinking p }
  | .unlinking p => do
    let s ← unlink p s
    .ok { s with main := .freeing p (s.links p).next }
  | .freeing p next => do
    let s ← freeRec p s
    .ok { s with main := .processing next }
  | .dequeuing flow none => .ok { s with flows := s.flows.free flow, main := .idle }
  | .dequeuing flow (some p) => do
    let _ ← Exec.deref (s.recs.get p)
    .ok { s with main := .examining flow p (s.links p).next }
  | .examining flow p next => do
    let r ← Exec.deref (s.recs.get p)
    if r.flow = flow then do
      let s ← unlink p s
      .ok { s with main := .dropping flow p next, removed := s.removed ++ [p] }
    else .ok { s with main := .dequeuing flow next }
  | .dropping flow p next => do
    let s ← freeRec p s
    .ok { s with main := .dequeuing flow next }

/-! ### Runs -/

inductive Input where
  /-- An event about an element of a flow, from an interrupt or from the program. -/
  | post (kind flow : Nat) (mem : EventRec)
  | main
  | processAudioEvents
  | connect
  | createFlow
  | setElements (flow client : Nat)
  | destroyFlow (flow : Nat)
  /-- `CloseDownClient` of a client whose resources are retained. -/
  | closeDown (client : Nat)
  /-- The end of `CloseDownClient`, after its flows are destroyed. -/
  | freeClient (client : Nat)
deriving DecidableEq, Repr

/-- What only happens outside of the loops. -/
def whenIdle (s : State) (x : State) : Exec State := .ok (if s.main = .idle then x else s)

def step (s : State) : Input → Exec State
  | .post kind flow mem => auRequestElementNotifyEvent kind flow mem s
  | .main => stepMain s
  | .processAudioEvents => whenIdle s { s with main := .processing s.auEventQueue }
  | .connect => whenIdle s { s with clients := s.clients.alloc {} }
  | .createFlow => whenIdle s { s with flows := s.flows.alloc {} }
  | .setElements flow client =>
    whenIdle s (if s.clients.live client then { s with flows := s.flows.modify flow fun _ => ⟨some client⟩ } else s)
  | .destroyFlow flow =>
    -- `AuFreeFlowElements` comes first
    whenIdle s (if s.flows.live flow then
      { s with flows := s.flows.modify flow fun _ => ⟨none⟩, main := .dequeuing flow s.auEventQueue } else s)
  | .closeDown client => whenIdle s { s with clients := s.clients.modify client fun _ => ⟨true⟩ }
  | .freeClient client => whenIdle s { s with clients := s.clients.free client }

/-- What a step must not do for the queue to stay as it should be: post a special event, or one for a client
that is freed already; free a client that an event waits for; remove the last event of several. -/
def Careful (s : State) : Input → Prop
  | .post kind flow _ => kind ≠ elementNotifyKindSpecial ∧
      ∀ client, (s.flows.get flow).bind Flow.client = some client → s.clients.live client
  | .main => ∀ flow p next r, s.main = .examining flow p next → s.recs.get p = some r → r.flow = flow →
      s.auEventQueueTail = some p → (s.links p).prev = none
  | .freeClient client => s.main = .idle → ∀ p r, s.recs.get p = some r → r.client ≠ client
  | _ => True

/-! ### The queue -/

variable {s s' : State} {Q W done rest : List Event} {e : Event} {flow p : Nat} {next : Option Nat}

/-- The queue holds the events `Q`: they and the pointers are as they should be, and each event names a flow
and a client that exist. -/
structure Queued (s : State) (Q : List Event) : Prop where
  list : IsList s.links s.auEventQueue (Q.map Event.item)
  tail : s.auEventQueueTail = (Q.map Event.item).getLast?
  recs : ∀ e ∈ Q, s.recs.get e.item = some ⟨false, e.flow, e.client⟩
  flow : ∀ e ∈ Q, s.flows.live e.flow
  client : ∀ e ∈ Q, s.clients.live e.client

/-- `next` is the first of the events `Q`, or it is null and no event of the flow is among them. -/
def Ahead (flow : Nat) (next : Option Nat) (Q : List Event) : Prop :=
  match next with
  | none => ∀ e ∈ Q, e.flow ≠ flow
  | some p => ∃ e rest, Q = e :: rest ∧ e.item = p

/-- A walk over the queue has left no event of the flow behind. -/
def Walked (flow : Nat) (next : Option Nat) (Q : List Event) : Prop :=
  ∃ done rest, Q = done ++ rest ∧ (∀ e ∈ done, e.flow ≠ flow) ∧ Ahead flow next rest

/-- `next` is the first of the queue if it is not null. -/
def First (next : Option Nat) (Q : List Event) : Prop := ∀ p, next = some p → ∃ e rest, Q = e :: rest ∧ e.item = p

/-- The main program stands where it can go on from, and `W` are the events of the queue that are still to be
delivered. -/
def MainOk (m : Main) (Q W : List Event) : Prop :=
  match m with
  | .idle => W = Q
  | .processing p => W = Q ∧ First p Q
  | .unlinking p => ∃ e, Q = e :: W ∧ e.item = p
  | .freeing _ next => W = Q ∧ First next Q
  | .dequeuing flow p => W = Q ∧ Walked flow p Q
  | .examining flow p next => W = Q ∧ ∃ done e rest, Q = done ++ e :: rest ∧ (∀ d ∈ done, d.flow ≠ flow) ∧
      e.item = p ∧ Ahead flow next rest
  | .dropping flow _ next => W = Q ∧ Walked flow next Q

/-- Each event that was posted is removed, or delivered, or waits, in the order of the posts. -/
structure Ledger (s : State) (W : List Event) : Prop where
  order : s.posted.filter (fun e => e.item ∉ s.removed) = s.delivered ++ W
  nodup : (s.posted.map Event.item).Nodup
  old : ∀ e ∈ s.posted, e.item < s.recs.next ∧ e.flow < s.flows.next
  /-- An event is removed only when its flow is destroyed. -/
  removed : ∀ e ∈ s.posted, e.item ∈ s.removed → s.flows.live e.flow = false ∨ s.main.destroying = some e.flow
  known : ∀ p ∈ s.removed, p < s.recs.next
  met : ∀ e ∈ s.delivered, e.client < s.clients.next
  sent : s.sent.Sublist s.delivered
  /-- What was delivered to a client that is still there was written to it. -/
  reached : ∀ e ∈ s.delivered, s.clients.get e.client = some ⟨false⟩ → e ∈ s.sent

structure QueueInv (s : State) (Q W : List Event) : Prop where
  queued : Queued s Q
  main : MainOk s.main Q W
  ledger : Ledger s W
  /-- The flow that is being destroyed exists, and has no elements. -/
  destroying : ∀ flow, s.main.destroying = some flow → s.flows.get flow = some ⟨none⟩
  unlinked : ∀ p, s.main.unlinked = some p → s.recs.live p ∧ ∀ e ∈ Q, e.item ≠ p

theorem queueInv_init : QueueInv {} [] [] where
  queued := ⟨IsList.nil, rfl, by simp, by simp, by simp⟩
  main := rfl
  ledger := ⟨rfl, by simp, by simp, by simp, by simp, by simp, by simp, by simp⟩
  destroying := by simp [Main.destroying]
  unlinked := by simp [Main.unlinked]

namespace Queued

theorem live (h : Queued s Q) : ∀ p ∈ Q.map Event.item, s.recs.live p := by
  intro p hp
  obtain ⟨e, he, rfl⟩ := List.mem_map.1 hp
  simp [Heap.live, h.recs e he]

theorem tail_live (h : Queued s Q) (ht : s.auEventQueueTail = some p) : s.recs.live p := by
  rw [h.tail] at ht
  exact h.live p (List.mem_of_mem_getLast? ht)

/-- What the queue does not depend on. -/
theorem congr (h : Queued s Q) (hl : s'.links = s.links) (hh : s'.auEventQueue = s.auEventQueue)
    (ht : s'.auEventQueueTail = s.auEventQueueTail) (hr : ∀ e ∈ Q, s'.recs.get e.item = s.recs.get e.item)
    (hf : ∀ e ∈ Q, s'.flows.live e.flow) (hc : ∀ e ∈ Q, s'.clients.live e.client) : Queued s' Q where
  list := by rw [hl, hh]; exact h.list
  tail := by rw [ht]; exact h.tail
  recs e he := by rw [hr e he]; exact h.recs e he
  flow := hf
  client := hc

end Queued

/-- The new event is the last of the queue. -/
theorem addToEventQueue_spec (h : Queued s Q) {client : Nat} (hf : s.flows.live flow) (hc : s.clients.live client) :
    ∃ s', addToEventQueue ⟨false, flow, client⟩ s = .ok s' ∧
      Queued s' (Q ++ [⟨s.recs.next, flow, client⟩]) ∧ s'.recs = s.recs.alloc ⟨false, flow, client⟩ ∧
      s'.flows = s.flows ∧ s'.clients = s.clients ∧ s'.main = s.main ∧
      s'.posted = s.posted ++ [⟨s.recs.next, flow, client⟩] ∧ s'.delivered = s.delivered ∧ s'.sent = s.sent ∧
      s'.removed = s.removed := by
  have hold : ∀ e ∈ Q, e.item ≠ s.recs.next := fun e he => Nat.ne_of_lt (Heap.lt_next (h.recs e he))
  have hfresh : s.recs.next ∉ Q.map Event.item := fun hm => by
    obtain ⟨e, he, hen⟩ := List.mem_map.1 hm
    exact hold e he hen
  obtain ⟨links', head', happ, hlist⟩ := h.list.append h.tail hfresh h.live
  let t : State := { s with
    recs := s.recs.alloc ⟨false, flow, client⟩
    links := links'
    auEventQueue := head'
    auEventQueueTail := some s.recs.next
    posted := s.posted ++ [⟨s.recs.next, flow, client⟩] }
  have hadd : addToEventQueue ⟨false, flow, client⟩ s = .ok t := by
    simp only [addToEventQueue, happ]
    rfl
  refine ⟨t, hadd, ?_, rfl, rfl, rfl, rfl, rfl, rfl, rfl, rfl⟩
  refine ⟨by simpa using hlist, by simp [t], fun e he => ?_, fun e he => ?_, fun e he => ?_⟩ <;>
    rcases List.mem_append.1 he with he | he
  · rw [Heap.get_alloc, if_neg (hold e he)]
    exact h.recs e he
  · cases List.mem_singleton.1 he
    simp [Heap.get_alloc, t]
  · exact h.flow e he
  · cases List.mem_singleton.1 he
    exact hf
  · exact h.client e he
  · cases List.mem_singleton.1 he
    exact hc

/-- An event is taken out that is not the last of several. -/
theorem unlink_spec (h : Queued s (done ++ e :: rest)) (hlast : rest = [] → done = []) :
    ∃ links' head' tail', unlink e.item s =
        .ok { s with links := links', auEventQueue := head', auEventQueueTail := tail' } ∧
      Queued { s with links := links', auEventQueue := head', auEventQueueTail := tail' } (done ++ rest) ∧
      (links' e.item).next = (rest.map Event.item).head? ∧ ∀ d ∈ done ++ rest, d.item ≠ e.item := by
  have hlist := h.list
  rw [List.map_append, List.map_cons] at hlist
  have hn := List.nodup_append'.1 hlist.nodup
  have hed : e.item ∉ done.map Event.item := fun hm => hn.2.2 hm (by simp)
  have her : e.item ∉ rest.map Event.item := (List.nodup_cons.1 hn.2.1).1
  obtain ⟨hprev, hnext⟩ := hlist.neighbours
  have hmem : e.item ∈ done.map Event.item ++ e.item :: rest.map Event.item := by simp
  obtain ⟨links', head', hrem, hlist', -⟩ := hlist.remove hmem fun p hp => h.live p (by simpa using hp)
  rw [List.erase_append_right _ hed, List.erase_cons_head] at hlist'
  have hself : links' e.item = s.links e.item := by
    refine remove_item hrem (fun hx => her ?_) fun hx => hed ?_
    · rw [hnext] at hx
      exact List.mem_of_mem_head? hx
    · rw [hprev] at hx
      exact List.mem_of_mem_getLast? hx
  refine ⟨links', head', if head' = none then none else s.auEventQueueTail, ?_, ?_, ?_, fun d hd hde => ?_⟩
  · simp only [unlink, hrem]
    rfl
  · have hsub : ∀ d ∈ done ++ rest, d ∈ done ++ e :: rest := fun d hd => by
      rcases List.mem_append.1 hd with hd | hd
      · exact List.mem_append_left _ hd
      · exact List.mem_append_right _ (List.mem_cons_of_mem _ hd)
    refine ⟨by simpa using hlist', ?_, fun d hd => h.recs d (hsub d hd), fun d hd => h.flow d (hsub d hd),
      fun d hd => h.client d (hsub d hd)⟩
    rw [hlist'.head_eq]
    cases rest with
    | nil => simp [hlast rfl]
    | cons r rs =>
      rw [if_neg (by cases done <;> simp), h.tail]
      simp [List.getLast?_append, List.getLast?_cons]
  · rw [hself, hnext]
  · rcases List.mem_append.1 hd with hd | hd
    · exact hed (hde ▸ List.mem_map_of_mem hd)
    · exact her (hde ▸ List.mem_map_of_mem hd)

theorem lt_next_of_live {α : Type} {h : Heap α} (hp : h.live p) : p < h.next := by
  obtain ⟨a, ha⟩ := Option.isSome_iff_exists.1 hp
  exact Heap.lt_next ha

/-! ### Posting -/

theorem Ahead.append (h : Ahead flow next Q) (he : e.flow ≠ flow) : Ahead flow next (Q ++ [e]) := by
  cases next with
  | none =>
    intro d hd
    rcases List.mem_append.1 hd with hd | hd
    · exact h d hd
    · rw [List.mem_singleton.1 hd]
      exact he
  | some p =>
    obtain ⟨d, rest, rfl, hp⟩ := h
    exact ⟨d, rest ++ [e], rfl, hp⟩

theorem Walked.append (h : Walked flow next Q) (he : e.flow ≠ flow) : Walked flow next (Q ++ [e]) := by
  obtain ⟨done, rest, rfl, hdone, ha⟩ := h
  exact ⟨done, rest ++ [e], List.append_assoc .., hdone, ha.append he⟩

theorem First.append (h : First next Q) : First next (Q ++ [e]) := by
  intro p hp
  obtain ⟨d, rest, rfl, hd⟩ := h p hp
  exact ⟨d, rest ++ [e], rfl, hd⟩

/-- An event can be posted wherever the main program is, but not for the flow that is being destroyed. -/
theorem MainOk.append {m : Main} (h : MainOk m Q W) (he : ∀ flow, m.destroying = some flow → e.flow ≠ flow) :
    MainOk m (Q ++ [e]) (W ++ [e]) := by
  cases m with
  | idle => exact congrArg (· ++ [e]) h
  | processing p => exact ⟨congrArg (· ++ [e]) h.1, h.2.append⟩
  | unlinking p =>
    obtain ⟨d, rfl, hd⟩ := h
    exact ⟨d, rfl, hd⟩
  | freeing p next => exact ⟨congrArg (· ++ [e]) h.1, h.2.append⟩
  | dequeuing flow p => exact ⟨congrArg (· ++ [e]) h.1, h.2.append (he flow rfl)⟩
  | examining flow p next =>
    obtain ⟨hw, done, d, rest, rfl, hdone, hp, ha⟩ := h
    exact ⟨congrArg (· ++ [e]) hw, done, d, rest ++ [e], by simp, hdone, hp, ha.append (he flow rfl)⟩
  | dropping flow p next => exact ⟨congrArg (· ++ [e]) h.1, h.2.append (he flow rfl)⟩

theorem Ledger.post (h : Ledger s W) (hr : s'.recs.next = s.recs.next + 1)
    (hf : s'.flows = s.flows) (hc : s'.clients = s.clients) (hm : s'.main = s.main)
    (hp : s'.posted = s.posted ++ [e]) (hd : s'.delivered = s.delivered) (hs : s'.sent = s.sent)
    (hrm : s'.removed = s.removed) (he : e.item = s.recs.next) (hef : s.flows.live e.flow) :
    Ledger s' (W ++ [e]) := by
  have hnew : e.item ∉ s.removed := fun hm => by
    have := h.known _ hm
    omega
  refine ⟨?_, ?_, ?_, ?_, ?_, ?_, ?_, ?_⟩
  · rw [hp, hrm, hd, List.filter_append, h.order, List.append_assoc]
    simp [hnew]
  · rw [hp, List.map_append]
    refine List.nodup_append'.2 ⟨h.nodup, by simp, fun i hi hi' => ?_⟩
    obtain ⟨d, hdm, rfl⟩ := List.mem_map.1 hi
    have := (h.old d hdm).1
    simp only [List.map_cons, List.map_nil, List.mem_singleton] at hi'
    omega
  · intro d hdm
    rw [hp] at hdm
    rw [hf]
    rcases List.mem_append.1 hdm with hdm | hdm
    · have := h.old d hdm
      exact ⟨by omega, this.2⟩
    · rw [List.mem_singleton.1 hdm]
      exact ⟨by omega, lt_next_of_live hef⟩
  · intro d hdm hrd
    rw [hrm] at hrd
    rw [hp] at hdm
    rw [hf, hm]
    rcases List.mem_append.1 hdm with hdm | hdm
    · exact h.removed d hdm hrd
    · rw [List.mem_singleton.1 hdm] at hrd
      exact absurd hrd hnew
  · intro p hpm
    rw [hrm] at hpm
    have := h.known p hpm
    omega
  · rw [hd, hc]
    exact h.met
  · rw [hs, hd]
    exact h.sent
  · rw [hs, hd, hc]
    exact h.reached

theorem post_inv (h : QueueInv s Q W) {kind : Nat} {mem : EventRec} (hc : Careful s (.post kind flow mem)) :
    ∃ s', step s (.post kind flow mem) = .ok s' ∧ ∃ Q' W', QueueInv s' Q' W' := by
  simp only [step, auRequestElementNotifyEvent]
  cases hcl : (s.flows.get flow).bind Flow.client with
  | none => exact ⟨s, rfl, Q, W, h⟩
  | some client =>
    have hfl : ∃ f, s.flows.get flow = some f ∧ f.client = some client := Option.bind_eq_some_iff.1 hcl
    obtain ⟨f, hf, hfc⟩ := hfl
    have hfl : s.flows.live flow := by simp [Heap.live, hf]
    obtain ⟨s', hadd, hq, hr, hfl', hcl', hm, hp, hd, hs, hrm⟩ :=
      addToEventQueue_spec h.queued hfl (hc.2 client hcl)
    refine ⟨s', by simp only [if_neg hc.1]; exact hadd, _, W ++ [⟨s.recs.next, flow, client⟩], hq, ?_, ?_, ?_, ?_⟩
    · rw [hm]
      refine h.main.append fun flow' hdes hne => ?_
      have hnone := h.destroying flow' hdes
      rw [← show flow = flow' from hne, hf] at hnone
      cases hnone
      cases hfc
    · exact h.ledger.post (by rw [hr]; rfl) hfl' hcl' hm hp hd hs hrm rfl hfl
    · rw [hm, hfl']
      exact h.destroying
    · rw [hm]
      intro p hpu
      obtain ⟨hl, hne⟩ := h.unlinked p hpu
      have hlt : p ≠ s.recs.next := Nat.ne_of_lt (lt_next_of_live hl)
      refine ⟨by rw [hr]; simpa [Heap.live, Heap.get_alloc, hlt] using hl, fun e he => ?_⟩
      rcases List.mem_append.1 he with he | he
      · exact hne e he
      · rw [List.mem_singleton.1 he]
        exact hlt.symm

/-! ### The loops -/

/-- What the history does not depend on. -/
theorem Ledger.congr (h : Ledger s W) (hp : s'.posted = s.posted) (hd : s'.delivered = s.delivered)
    (hs : s'.sent = s.sent) (hrm : s'.removed = s.removed) (hr : s'.recs.next = s.recs.next)
    (hfn : s.flows.next ≤ s'.flows.next)
    (hf : ∀ f, f < s.flows.next → s.flows.live f = false ∨ s.main.destroying = some f →
      s'.flows.live f = false ∨ s'.main.destroying = some f)
    (hcn : s.clients.next ≤ s'.clients.next)
    (hc : ∀ c, c < s.clients.next → s'.clients.get c = some ⟨false⟩ → s.clients.get c = some ⟨false⟩) :
    Ledger s' W where
  order := by rw [hp, hrm, hd]; exact h.order
  nodup := by rw [hp]; exact h.nodup
  old e he := by
    rw [hp] at he
    have := h.old e he
    exact ⟨by omega, by omega⟩
  removed e he hre := by
    rw [hp] at he
    rw [hrm] at hre
    exact hf _ (h.old e he).2 (h.removed e he hre)
  known p hpm := by
    rw [hrm] at hpm
    rw [hr]
    exact h.known p hpm
  met e he := by
    rw [hd] at he
    have := h.met e he
    omega
  sent := by rw [hs, hd]; exact h.sent
  reached e he hce := by
    rw [hd] at he
    rw [hs]
    exact h.reached e he (hc _ (h.met e he) hce)

/-- The first event of the queue is delivered. -/
theorem deliver_step (h : QueueInv s Q W) (hm : s.main = .processing (some p)) :
    ∃ s', stepMain s = .ok s' ∧ s'.main = .unlinking p ∧ s'.posted = s.posted ∧ s'.removed = s.removed ∧
      ∃ W', QueueInv s' Q W' := by
  obtain ⟨rfl, hfirst⟩ : W = Q ∧ First (some p) Q := by simpa [hm, MainOk] using h.main
  obtain ⟨e, rest, rfl, rfl⟩ := hfirst p rfl
  have hrec := h.queued.recs e (by simp)
  obtain ⟨client, hclient⟩ := Option.isSome_iff_exists.1 (h.queued.client e (by simp))
  let t : State := { s with
    delivered := s.delivered ++ [e]
    sent := if client.clientGone = false then s.sent ++ [e] else s.sent
    main := .unlinking e.item }
  have hstep : stepMain s = .ok t := by
    by_cases hg : client.clientGone = false <;>
      simp [stepMain, hm, deliver, hrec, hclient, writeAuEventsToClient, hg, t]
  refine ⟨t, hstep, rfl, rfl, rfl, rest, ?_⟩
  refine ⟨h.queued.congr rfl rfl rfl (fun _ _ => rfl) h.queued.flow h.queued.client, ⟨e, rfl, rfl⟩, ?_,
    by simp [Main.destroying], by simp [Main.unlinked]⟩
  have hl := h.ledger
  refine ⟨?_, hl.nodup, hl.old, fun d hd hrd => ?_, hl.known, fun d hd => ?_, ?_, fun d hd hcd => ?_⟩
  · refine hl.order.trans ?_
    simp [t]
  · refine .inl ?_
    rcases hl.removed d hd hrd with hf | hf
    · exact hf
    · simp [hm, Main.destroying] at hf
  · rcases List.mem_append.1 hd with hd | hd
    · exact hl.met d hd
    · rw [List.mem_singleton.1 hd]
      exact lt_next_of_live (h.queued.client e (by simp))
  · simp only [t]
    split
    · exact hl.sent.append_right [e]
    · exact hl.sent.trans (List.sublist_append_left ..)
  · simp only [t] at hcd ⊢
    rcases List.mem_append.1 hd with hd | hd
    · have := hl.reached d hd hcd
      split
      · exact List.mem_append_left _ this
      · exact this
    · rw [List.mem_singleton.1 hd] at hcd ⊢
      rw [hclient] at hcd
      cases hcd
      simp

/-- It is taken out of the queue. -/
theorem unlink_step (h : QueueInv s Q W) (hm : s.main = .unlinking p) :
    ∃ s', stepMain s = .ok s' ∧ s'.main = .freeing p (W.map Event.item).head? ∧ s'.posted = s.posted ∧
      s'.removed = s.removed ∧ QueueInv s' W W := by
  obtain ⟨e, rfl, rfl⟩ : ∃ e, Q = e :: W ∧ e.item = p := by simpa [hm, MainOk] using h.main
  have hq : Queued s ([] ++ e :: W) := h.queued
  obtain ⟨links', head', tail', hun, hq', hnext, hne⟩ := unlink_spec hq fun _ => rfl
  let t : State := { s with
    links := links'
    auEventQueue := head'
    auEventQueueTail := tail'
    main := .freeing e.item (links' e.item).next }
  have hstep : stepMain s = .ok t := by simp [stepMain, hm, hun, t]
  refine ⟨t, hstep, congrArg (Main.freeing e.item) hnext, rfl, rfl, ?_⟩
  refine ⟨hq'.congr rfl rfl rfl (fun _ _ => rfl) hq'.flow hq'.client, ⟨rfl, fun q hq => ?_⟩, ?_,
    by simp [Main.destroying], fun q hq => ?_⟩
  · rw [hnext] at hq
    cases W with
    | nil => cases hq
    | cons d ds => exact ⟨d, ds, rfl, by simpa using hq⟩
  · refine h.ledger.congr rfl rfl rfl rfl rfl le_rfl (fun f _ hf => ?_) le_rfl fun _ _ hc => hc
    rcases hf with hf | hf
    · exact .inl hf
    · simp [hm, Main.destroying] at hf
  · obtain rfl : e.item = q := by simpa [t, Main.unlinked] using hq
    exact ⟨h.queued.live _ (by simp), hne⟩

/-- A record that is out of the queue is freed. -/
theorem freeRec_spec (h : QueueInv s Q W) (hu : s.main.unlinked = some p) :
    freeRec p s = .ok { s with recs := s.recs.free p } ∧ Queued { s with recs := s.recs.free p } Q := by
  obtain ⟨hl, hne⟩ := h.unlinked p hu
  refine ⟨by simp [freeRec, hl], h.queued.congr rfl rfl rfl (fun e he => ?_) h.queued.flow h.queued.client⟩
  rw [Heap.get_free, if_neg (hne e he)]

theorem free_step (h : QueueInv s Q W) (hm : s.main = .freeing p next) :
    ∃ s', stepMain s = .ok s' ∧ s'.main = .processing next ∧ s'.posted = s.posted ∧ s'.removed = s.removed ∧
      QueueInv s' Q W := by
  obtain ⟨hfree, hq⟩ := freeRec_spec h (by rw [hm]; rfl)
  obtain ⟨rfl, hfirst⟩ : W = Q ∧ First next Q := by simpa [hm, MainOk] using h.main
  let t : State := { s with recs := s.recs.free p, main := .processing next }
  have hstep : stepMain s = .ok t := by simp [stepMain, hm, hfree, t]
  refine ⟨t, hstep, rfl, rfl, rfl, ?_⟩
  refine ⟨hq.congr rfl rfl rfl (fun _ _ => rfl) hq.flow hq.client, ⟨rfl, hfirst⟩, ?_,
    by simp [Main.destroying], by simp [Main.unlinked]⟩
  refine h.ledger.congr rfl rfl rfl rfl rfl le_rfl (fun f _ hf => ?_) le_rfl fun _ _ hc => hc
  rcases hf with hf | hf
  · exact .inl hf
  · simp [hm, Main.destroying] at hf

/-- The walk reads what follows the event it looks at. -/
theorem dequeue_step (h : QueueInv s Q W) (hm : s.main = .dequeuing flow (some p)) :
    ∃ s', stepMain s = .ok s' ∧ QueueInv s' Q W := by
  obtain ⟨rfl, done, rest, rfl, hdone, hahead⟩ : W = Q ∧ Walked flow (some p) Q := by
    simpa [hm, MainOk] using h.main
  obtain ⟨e, rest, rfl, rfl⟩ := hahead
  have hrec := h.queued.recs e (by simp)
  have hnext : (s.links e.item).next = (rest.map Event.item).head? := by
    have hlist := h.queued.list
    rw [List.map_append, List.map_cons] at hlist
    exact hlist.neighbours.2
  let t : State := { s with main := .examining flow e.item (s.links e.item).next }
  have hstep : stepMain s = .ok t := by simp [stepMain, hm, hrec, t]
  refine ⟨t, hstep, h.queued.congr rfl rfl rfl (fun _ _ => rfl) h.queued.flow h.queued.client,
    ⟨rfl, done, e, rest, rfl, hdone, rfl, ?_⟩, ?_, fun f hf => ?_, by simp [t, Main.unlinked]⟩
  · rw [hnext]
    cases rest with
    | nil => simp [Ahead]
    | cons d ds => exact ⟨d, ds, rfl, rfl⟩
  · exact h.ledger.congr rfl rfl rfl rfl rfl le_rfl (fun f _ hf => by rwa [hm] at hf) le_rfl fun _ _ hc => hc
  · exact h.destroying f (by rw [hm]; exact hf)

/-- An event of another flow stays. -/
theorem keep_step (h : QueueInv s (done ++ e :: rest) W) (hw : W = done ++ e :: rest)
    (hm : s.main = .examining flow e.item next) (hdone : ∀ d ∈ done, d.flow ≠ flow) (ha : Ahead flow next rest)
    (hne : e.flow ≠ flow) : ∃ s', stepMain s = .ok s' ∧ QueueInv s' (done ++ e :: rest) W := by
  have hrec := h.queued.recs e (by simp)
  let t : State := { s with main := .dequeuing flow next }
  have hstep : stepMain s = .ok t := by simp [stepMain, hm, hrec, hne, t]
  refine ⟨t, hstep, h.queued.congr rfl rfl rfl (fun _ _ => rfl) h.queued.flow h.queued.client,
    ⟨hw, done ++ [e], rest, by simp, fun d hd => ?_, ha⟩, ?_, fun f hf => ?_, by simp [t, Main.unlinked]⟩
  · rcases List.mem_append.1 hd with hd | hd
    · exact hdone d hd
    · rw [List.mem_singleton.1 hd]
      exact hne
  · exact h.ledger.congr rfl rfl rfl rfl rfl le_rfl (fun f _ hf => by rwa [hm] at hf) le_rfl fun _ _ hc => hc
  · exact h.destroying f (by rw [hm]; exact hf)

/-- An event of the flow is taken out, unless it is the last of several. -/
theorem drop_step (h : QueueInv s (done ++ e :: rest) W) (hw : W = done ++ e :: rest)
    (hm : s.main = .examining flow e.item next) (hdone : ∀ d ∈ done, d.flow ≠ flow) (ha : Ahead flow next rest)
    (he : e.flow = flow) (hlast : rest = [] → done = []) :
    ∃ s', stepMain s = .ok s' ∧ QueueInv s' (done ++ rest) (done ++ rest) := by
  have hrec := h.queued.recs e (by simp)
  obtain ⟨links', head', tail', hun, hq', -, hne⟩ := unlink_spec h.queued hlast
  let t : State := { s with
    links := links'
    auEventQueue := head'
    auEventQueueTail := tail'
    main := .dropping flow e.item next
    removed := s.removed ++ [e.item] }
  have hstep : stepMain s = .ok t := by simp [stepMain, hm, hrec, he, hun, t]
  have hl := h.ledger
  rw [hw] at hl
  -- the events of the queue were posted, and none but this one is this record
  have hposted : ∀ d ∈ done ++ e :: rest, d ∈ s.posted := fun d hd => by
    have : d ∈ s.posted.filter (fun e => e.item ∉ s.removed) := by
      rw [hl.order]
      exact List.mem_append_right _ hd
    exact (List.mem_filter.1 this).1
  have hsame : ∀ d ∈ s.posted, d.item = e.item → d = e := fun d hd hde =>
    List.inj_on_of_nodup_map hl.nodup hd (hposted e (by simp)) hde
  have hdel : ∀ d ∈ s.delivered, d.item ≠ e.item := fun d hd hde => by
    have hd' : d ∈ s.posted.filter (fun e => e.item ∉ s.removed) := by
      rw [hl.order]
      exact List.mem_append_left _ hd
    obtain rfl := hsame d (List.mem_filter.1 hd').1 hde
    have hnd : (s.delivered ++ (done ++ d :: rest)).Nodup := by
      rw [← hl.order]
      exact (List.Nodup.of_map _ hl.nodup).filter _
    exact (List.nodup_append'.1 hnd).2.2 hd (by simp)
  refine ⟨t, hstep, hq'.congr rfl rfl rfl (fun _ _ => rfl) hq'.flow hq'.client, ⟨rfl, done, rest, rfl, hdone, ha⟩,
    ?_, fun f hf => ?_, fun q hq => ?_⟩
  · refine ⟨?_, hl.nodup, hl.old, fun d hd hrd => ?_, fun q hq => ?_, hl.met, hl.sent, hl.reached⟩
    · have hsplit : t.posted.filter (fun d => d.item ∉ t.removed) =
          (s.posted.filter (fun d => d.item ∉ s.removed)).filter (fun d => d.item ≠ e.item) := by
        rw [List.filter_filter]
        refine List.filter_congr fun d _ => ?_
        simp [t, and_comm]
      have hkeep : ∀ l : List Event, (∀ d ∈ l, d.item ≠ e.item) → l.filter (fun d => d.item ≠ e.item) = l :=
        fun l hl => List.filter_eq_self.2 fun d hd => by simpa using hl d hd
      rw [hsplit, hl.order, List.filter_append, List.filter_append, hkeep s.delivered hdel,
        hkeep done fun d hd => hne d (List.mem_append_left _ hd),
        List.filter_cons_of_neg (by simp), hkeep rest fun d hd => hne d (List.mem_append_right _ hd)]
    · rcases List.mem_append.1 hrd with hrd | hrd
      · rcases hl.removed d hd hrd with hf | hf
        · exact .inl hf
        · exact .inr (by rwa [hm] at hf)
      · refine .inr ?_
        rw [hsame d hd (List.mem_singleton.1 hrd), he]
        rfl
    · rcases List.mem_append.1 hq with hq | hq
      · exact hl.known q hq
      · rw [List.mem_singleton.1 hq]
        exact (hl.old e (hposted e (by simp))).1
  · exact h.destroying f (by rw [hm]; exact hf)
  · obtain rfl : e.item = q := by simpa [t, Main.unlinked] using hq
    exact ⟨h.queued.live _ (by simp), hne⟩

theorem freeDropped_step (h : QueueInv s Q W) (hm : s.main = .dropping flow p next) :
    ∃ s', stepMain s = .ok s' ∧ QueueInv s' Q W := by
  obtain ⟨hfree, hq⟩ := freeRec_spec h (by rw [hm]; rfl)
  obtain ⟨rfl, hw⟩ : W = Q ∧ Walked flow next Q := by simpa [hm, MainOk] using h.main
  let t : State := { s with recs := s.recs.free p, main := .dequeuing flow next }
  have hstep : stepMain s = .ok t := by simp [stepMain, hm, hfree, t]
  refine ⟨t, hstep, hq.congr rfl rfl rfl (fun _ _ => rfl) hq.flow hq.client, ⟨rfl, hw⟩, ?_, fun f hf => ?_,
    by simp [t, Main.unlinked]⟩
  · exact h.ledger.congr rfl rfl rfl rfl rfl le_rfl (fun f _ hf => by rwa [hm] at hf) le_rfl fun _ _ hc => hc
  · exact h.destroying f (by rw [hm]; exact hf)

/-- The walk is over: the flow is freed, and no event names it. -/
theorem freeFlow_step (h : QueueInv s Q W) (hm : s.main = .dequeuing flow none) :
    ∃ s', stepMain s = .ok s' ∧ QueueInv s' Q W := by
  obtain ⟨rfl, done, rest, rfl, hdone, hrest⟩ : W = Q ∧ Walked flow none Q := by simpa [hm, MainOk] using h.main
  let t : State := { s with flows := s.flows.free flow, main := .idle }
  have hstep : stepMain s = .ok t := by simp [stepMain, hm, t]
  refine ⟨t, hstep, h.queued.congr rfl rfl rfl (fun _ _ => rfl) (fun e he => ?_) h.queued.client, rfl, ?_,
    by simp [t, Main.destroying], by simp [t, Main.unlinked]⟩
  · have hne : e.flow ≠ flow := by
      rcases List.mem_append.1 he with he | he
      · exact hdone e he
      · exact hrest e he
    simpa [t, Heap.live, Heap.get_free, hne] using h.queued.flow e he
  · refine h.ledger.congr rfl rfl rfl rfl rfl le_rfl (fun f _ hf => .inl ?_) le_rfl fun _ _ hc => hc
    by_cases hff : f = flow
    · subst hff
      simp [t, Heap.live, Heap.get_free]
    · rcases hf with hf | hf
      · simpa [t, Heap.live, Heap.get_free, hff] using hf
      · rw [hm] at hf
        exact absurd (Option.some.inj hf).symm hff

theorem main_inv (h : QueueInv s Q W) (hc : Careful s .main) :
    ∃ s', stepMain s = .ok s' ∧ ∃ Q' W', QueueInv s' Q' W' := by
  cases hm : s.main with
  | idle => exact ⟨s, by simp [stepMain, hm], Q, W, h⟩
  | processing p =>
    cases p with
    | none =>
      let t : State := { s with main := .idle }
      obtain ⟨hw, -⟩ : W = Q ∧ First none Q := by simpa [hm, MainOk] using h.main
      refine ⟨t, by simp [stepMain, hm, t], Q, W,
        h.queued.congr rfl rfl rfl (fun _ _ => rfl) h.queued.flow h.queued.client, hw, ?_,
        by simp [t, Main.destroying], by simp [t, Main.unlinked]⟩
      refine h.ledger.congr rfl rfl rfl rfl rfl le_rfl (fun f _ hf => ?_) le_rfl fun _ _ hc => hc
      rcases hf with hf | hf
      · exact .inl hf
      · simp [hm, Main.destroying] at hf
    | some p =>
      obtain ⟨s', hs, -, -, -, W', hi⟩ := deliver_step h hm
      exact ⟨s', hs, Q, W', hi⟩
  | unlinking p =>
    obtain ⟨s', hs, -, -, -, hi⟩ := unlink_step h hm
    exact ⟨s', hs, W, W, hi⟩
  | freeing p next =>
    obtain ⟨s', hs, -, -, -, hi⟩ := free_step h hm
    exact ⟨s', hs, Q, W, hi⟩
  | dequeuing flow p =>
    cases p with
    | none =>
      obtain ⟨s', hs, hi⟩ := freeFlow_step h hm
      exact ⟨s', hs, Q, W, hi⟩
    | some p =>
      obtain ⟨s', hs, hi⟩ := dequeue_step h hm
      exact ⟨s', hs, Q, W, hi⟩
  | examining flow p next =>
    obtain ⟨hw, done, e, rest, rfl, hdone, rfl, ha⟩ : W = Q ∧ ∃ done e rest, Q = done ++ e :: rest ∧
        (∀ d ∈ done, d.flow ≠ flow) ∧ e.item = p ∧ Ahead flow next rest := by simpa [hm, MainOk] using h.main
    by_cases he : e.flow = flow
    · have hlast : rest = [] → done = [] := by
        rintro rfl
        have hlist := h.queued.list
        rw [List.map_append, List.map_cons] at hlist
        have htail : s.auEventQueueTail = some e.item := by simp [h.queued.tail]
        have hprev := hc flow e.item next _ hm (h.queued.recs e (by simp)) he htail
        rw [hlist.neighbours.1] at hprev
        simpa using hprev
      obtain ⟨s', hs, hi⟩ := drop_step h hw hm hdone ha he hlast
      exact ⟨s', hs, _, _, hi⟩
    · obtain ⟨s', hs, hi⟩ := keep_step h hw hm hdone ha he
      exact ⟨s', hs, _, W, hi⟩
  | dropping flow p next =>
    obtain ⟨s', hs, hi⟩ := freeDropped_step h hm
    exact ⟨s', hs, Q, W, hi⟩

/-! ### Outside of the loops -/

/-- Outside of the loops, only the flows and the clients change. -/
theorem idle_inv (h : QueueInv s Q W) (hm : s.main = .idle) (flows : Heap Flow) (clients : Heap Client)
    (hf : ∀ f, f < s.flows.next → flows.live f = s.flows.live f) (hfn : s.flows.next ≤ flows.next)
    (hcn : s.clients.next ≤ clients.next)
    (hc : ∀ c, c < s.clients.next → clients.get c = some ⟨false⟩ → s.clients.get c = some ⟨false⟩)
    (hcl : ∀ e ∈ Q, clients.live e.client) : QueueInv { s with flows := flows, clients := clients } Q W where
  queued := by
    refine h.queued.congr rfl rfl rfl (fun _ _ => rfl) (fun e he => ?_) hcl
    have hl := h.queued.flow e he
    exact (hf _ (lt_next_of_live hl)).trans hl
  main := h.main
  ledger := by
    refine h.ledger.congr rfl rfl rfl rfl rfl hfn (fun f hlt hf' => ?_) hcn hc
    rcases hf' with hf' | hf'
    · exact .inl ((hf f hlt).trans hf')
    · simp [hm, Main.destroying] at hf'
  destroying f hf := by simp [hm, Main.destroying] at hf
  unlinked p hp := by simp [hm, Main.unlinked] at hp

theorem live_alloc {α : Type} {h : Heap α} {a : α} (hp : p < h.next) : (h.alloc a).live p = h.live p := by
  simp [Heap.live, Heap.get_alloc, Nat.ne_of_lt hp]

theorem live_modify {α : Type} {h : Heap α} {q : Nat} {f : α → α} : (h.modify q f).live p = h.live p := by
  by_cases hpq : p = q <;> simp [Heap.live, Heap.get_modify, hpq]

theorem processAudioEvents_inv (h : QueueInv s Q W) (hm : s.main = .idle) :
    QueueInv { s with main := .processing s.auEventQueue } Q W := by
  have hw : W = Q := by simpa [hm, MainOk] using h.main
  refine ⟨h.queued.congr rfl rfl rfl (fun _ _ => rfl) h.queued.flow h.queued.client, ⟨hw, fun p hp => ?_⟩, ?_,
    by simp [Main.destroying], by simp [Main.unlinked]⟩
  · rw [h.queued.list.head_eq] at hp
    cases Q with
    | nil => cases hp
    | cons e rest => exact ⟨e, rest, rfl, by simpa using hp⟩
  · refine h.ledger.congr rfl rfl rfl rfl rfl le_rfl (fun f _ hf => ?_) le_rfl fun _ _ hc => hc
    rcases hf with hf | hf
    · exact .inl hf
    · simp [hm, Main.destroying] at hf

theorem destroyFlow_inv (h : QueueInv s Q W) (hm : s.main = .idle) (hl : s.flows.live flow) :
    QueueInv { s with
      flows := s.flows.modify flow fun _ => ⟨none⟩
      main := .dequeuing flow s.auEventQueue } Q W := by
  have hw : W = Q := by simpa [hm, MainOk] using h.main
  have hi := idle_inv h hm (s.flows.modify flow fun _ => ⟨none⟩) s.clients (fun f _ => live_modify) le_rfl le_rfl
    (fun _ _ hc => hc) h.queued.client
  refine ⟨hi.queued.congr rfl rfl rfl (fun _ _ => rfl) hi.queued.flow hi.queued.client,
    ⟨hw, [], Q, rfl, by simp, ?_⟩, ?_, fun f hf => ?_, by simp [Main.unlinked]⟩
  · rw [h.queued.list.head_eq]
    cases Q with
    | nil => simp [Ahead]
    | cons e rest => exact ⟨e, rest, rfl, rfl⟩
  · refine hi.ledger.congr rfl rfl rfl rfl rfl le_rfl (fun f _ hf => ?_) le_rfl fun _ _ hc => hc
    rcases hf with hf | hf
    · exact .inl hf
    · simp [hm, Main.destroying] at hf
  · obtain rfl : flow = f := by simpa [Main.destroying] using hf
    obtain ⟨a, ha⟩ := Option.isSome_iff_exists.1 hl
    simp [ha]

theorem whenIdle_inv (h : QueueInv s Q W) (hs : s.main = .idle → QueueInv s' Q W) :
    ∃ t, whenIdle s s' = .ok t ∧ ∃ Q' W', QueueInv t Q' W' := by
  by_cases hm : s.main = .idle
  · exact ⟨s', by simp [whenIdle, hm], Q, W, hs hm⟩
  · exact ⟨s, by simp [whenIdle, hm], Q, W, h⟩

/-! ### Runs -/

/-- A careful step has a result, and the invariant holds of it. -/
theorem step_inv (h : QueueInv s Q W) {r : Input} (hc : Careful s r) :
    ∃ s', step s r = .ok s' ∧ ∃ Q' W', QueueInv s' Q' W' := by
  have hsame := h.queued.client
  cases r with
  | post kind flow mem => exact post_inv h hc
  | main => exact main_inv h hc
  | processAudioEvents => exact whenIdle_inv h (processAudioEvents_inv h)
  | connect =>
    refine whenIdle_inv h fun hm => idle_inv h hm s.flows _ (fun _ _ => rfl) le_rfl (Nat.le_succ _)
      (fun c hc hcg => ?_) fun e he => ?_
    · rwa [Heap.get_alloc, if_neg (Nat.ne_of_lt hc)] at hcg
    · rw [live_alloc (lt_next_of_live (hsame e he))]
      exact hsame e he
  | createFlow =>
    exact whenIdle_inv h fun hm => idle_inv h hm _ s.clients (fun f hf => live_alloc hf) (Nat.le_succ _) le_rfl
      (fun _ _ hc => hc) hsame
  | setElements flow client =>
    refine whenIdle_inv h fun hm => ?_
    split
    · exact idle_inv h hm _ s.clients (fun f _ => live_modify) le_rfl le_rfl (fun _ _ hc => hc) hsame
    · exact h
  | destroyFlow flow =>
    refine whenIdle_inv h fun hm => ?_
    split
    · exact destroyFlow_inv h hm (by assumption)
    · exact h
  | closeDown client =>
    refine whenIdle_inv h fun hm => idle_inv h hm s.flows _ (fun _ _ => rfl) le_rfl le_rfl (fun c _ hcg => ?_)
      fun e he => ?_
    · rw [Heap.get_modify] at hcg
      split at hcg
      · cases hs : s.clients.get c <;> simp [hs] at hcg
      · exact hcg
    · rw [live_modify]
      exact hsame e he
  | freeClient client =>
    refine whenIdle_inv h fun hm => idle_inv h hm s.flows _ (fun _ _ => rfl) le_rfl le_rfl (fun c _ hcg => ?_)
      fun e he => ?_
    · rw [Heap.get_free] at hcg
      split at hcg
      · cases hcg
      · exact hcg
    · have hne : e.client ≠ client := hc hm e.item _ (h.queued.recs e he)
      simpa [Heap.live, Heap.get_free, hne] using hsame e he

theorem reach_queueInv (h : Reach step Careful {} s) : ∃ Q W, QueueInv s Q W :=
  h.inv (I := fun s => ∃ Q W, QueueInv s Q W) ⟨[], [], queueInv_init⟩ fun s r s' ⟨Q, W, hi⟩ hc hs => by
    obtain ⟨t, ht, hi'⟩ := step_inv hi hc
    rw [hs] at ht
    cases ht
    exact hi'

/-- `ProcessAudioEvents` delivers all that waits, if nothing is posted meanwhile. -/
theorem processing_drains (h : QueueInv s Q W) (hm : s.main = .processing (Q.map Event.item).head?) :
    ∃ n s', List.foldlM step s (List.replicate n .main) = .ok s' ∧ s'.main = .idle ∧ s'.posted = s.posted ∧
      s'.removed = s.removed ∧ QueueInv s' [] [] := by
  induction Q generalizing s W with
  | nil =>
    obtain ⟨s', hs, hi⟩ := main_inv h (by simp [Careful, hm])
    obtain ⟨hw, -⟩ : W = [] ∧ First none [] := by simpa [hm, MainOk] using h.main
    subst hw
    have ht : stepMain s = .ok { s with main := .idle } := by
      simp only [List.map_nil, List.head?_nil] at hm
      simp [stepMain, hm]
    refine ⟨1, { s with main := .idle }, by simp [step, ht], rfl, rfl, rfl, ?_⟩
    refine ⟨h.queued.congr rfl rfl rfl (fun _ _ => rfl) h.queued.flow h.queued.client, rfl, ?_,
      by simp [Main.destroying], by simp [Main.unlinked]⟩
    refine h.ledger.congr rfl rfl rfl rfl rfl le_rfl (fun f _ hf => ?_) le_rfl fun _ _ hc => hc
    rcases hf with hf | hf
    · exact .inl hf
    · simp [hm, Main.destroying] at hf
  | cons e rest ih =>
    obtain ⟨s₁, hs₁, hm₁, hp₁, hr₁, W₁, hi₁⟩ := deliver_step h hm
    have hw₁ : W₁ = rest := by
      obtain ⟨d, hd, -⟩ : ∃ d, e :: rest = d :: W₁ ∧ d.item = e.item := by simpa [hm₁, MainOk] using hi₁.main
      exact (List.cons.inj hd).2.symm
    subst hw₁
    obtain ⟨s₂, hs₂, hm₂, hp₂, hr₂, hi₂⟩ := unlink_step hi₁ hm₁
    obtain ⟨s₃, hs₃, hm₃, hp₃, hr₃, hi₃⟩ := free_step hi₂ hm₂
    obtain ⟨n, s', hrun, hm', hp', hr', hi'⟩ := ih hi₃ hm₃
    refine ⟨n + 3, s', ?_, hm', by rw [hp', hp₃, hp₂, hp₁], by rw [hr', hr₃, hr₂, hr₁], hi'⟩
    have h₁ : step s .main = .ok s₁ := hs₁
    have h₂ : step s₁ .main = .ok s₂ := hs₂
    have h₃ : step s₂ .main = .ok s₃ := hs₃
    simp only [List.replicate_succ, List.foldlM_cons, h₁, h₂, h₃, Exec.ok_bind]
    exact hrun

/-- The tail is the last event of the queue, every event in it names a flow and a client that exist, and an
event that was posted is removed because its flow was destroyed, or it is delivered, or it waits, in the order
of the posts; `ProcessAudioEvents` delivers what waits. -/
structure Intact (s : State) : Prop where
  queue : ∃ Q W, Queued s Q ∧ Ledger s W ∧ (W = Q ∨ ∃ e, s.main = .unlinking e.item ∧ Q = e :: W)
  goes_on : ∀ r, Careful s r → ∃ s', step s r = .ok s'
  drains : s.main = .idle → ∃ n s',
    List.foldlM step s (.processAudioEvents :: List.replicate n .main) = .ok s' ∧ s'.main = .idle ∧
      s'.auEventQueue = none ∧ s'.delivered = s.posted.filter fun e => e.item ∉ s.removed

theorem event_queue (h : Reach step Careful {} s) : Intact s := by
  obtain ⟨Q, W, hi⟩ := reach_queueInv h
  refine ⟨⟨Q, W, hi.queued, hi.ledger, ?_⟩, fun r hr => ?_, fun hm => ?_⟩
  · have hmain := hi.main
    cases hm : s.main <;> simp only [hm, MainOk] at hmain
    case unlinking p =>
      obtain ⟨e, he, rfl⟩ := hmain
      exact .inr ⟨e, rfl, he⟩
    case idle => exact .inl hmain
    all_goals exact .inl hmain.1
  · obtain ⟨s', hs, -⟩ := step_inv hi hr
    exact ⟨s', hs⟩
  · have hi₁ := processAudioEvents_inv hi hm
    have hm₁ : ({ s with main := .processing s.auEventQueue } : State).main =
        .processing (Q.map Event.item).head? := by rw [hi.queued.list.head_eq]
    obtain ⟨n, s', hrun, hm', hp, hr, hi'⟩ := processing_drains hi₁ hm₁
    refine ⟨n, s', ?_, hm', by simpa using hi'.queued.list.head_eq, ?_⟩
    · rw [List.foldlM_cons, show step s .processAudioEvents = .ok { s with main := .processing s.auEventQueue } by
        simp [step, whenIdle, hm]]
      exact hrun
    · have := hi'.ledger.order
      rw [List.append_nil, hp, hr] at this
      exact this.symm

/-- A client has set the elements of a flow, and an event about them is being delivered. -/
theorem event_queue_delivering :
    ∃ s, s.main = .unlinking 0 ∧ s.delivered = [⟨0, 0, 0⟩] ∧ s.sent = [⟨0, 0, 0⟩] ∧ Intact s := by
  have h₀ : Reach step Careful {} {} := .init
  have h₁ := h₀.step Input.connect (by trivial) rfl
  have h₂ := h₁.step Input.createFlow (by trivial) rfl
  have h₃ := h₂.step (Input.setElements 0 0) (by trivial) rfl
  have h₄ := h₃.step (Input.post 0 0 ⟨false, 0, 0⟩) ⟨by decide, fun c hc => by cases hc; rfl⟩ rfl
  have h₅ := h₄.step Input.processAudioEvents (by trivial) rfl
  have h₆ := h₅.step Input.main (fun _ _ _ _ hm => by cases hm) rfl
  exact ⟨_, rfl, rfl, rfl, event_queue h₆⟩

/-- The last of two events is removed when its flow is destroyed: the tail points to it still. -/
theorem tail_freed :
    ∃ s, List.foldlM step {} [.connect, .createFlow, .createFlow, .setElements 0 0, .setElements 1 0,
        .post 0 0 ⟨false, 0, 0⟩, .post 0 1 ⟨false, 0, 0⟩, .destroyFlow 1, .main, .main, .main, .main, .main,
        .main] = .ok s ∧
      s.auEventQueue = some 0 ∧ s.recs.live 0 = true ∧ s.auEventQueueTail = some 1 ∧ s.recs.live 1 = false ∧
      step s (.post 0 0 ⟨false, 0, 0⟩) = .error .fault ∧ ¬ Intact s := by
  refine ⟨_, rfl, rfl, rfl, rfl, rfl, rfl, fun h => ?_⟩
  obtain ⟨Q, W, hq, -⟩ := h.queue
  exact absurd (hq.tail_live rfl) (by decide)

/-- An event waits for a client that has set the elements of another client's flow, and is freed. -/
theorem client_freed :
    ∃ s, List.foldlM step {} [.connect, .connect, .createFlow, .setElements 0 1, .post 0 0 ⟨false, 0, 0⟩,
        .freeClient 1] = .ok s ∧
      s.auEventQueue = some 0 ∧ s.recs.get 0 = some ⟨false, 0, 1⟩ ∧ s.clients.live 1 = false ∧
      List.foldlM step s [.processAudioEvents, .main] = .error .fault :=
  ⟨_, rfl, rfl, rfl, rfl, rfl⟩

end Nas.EventQueue
