import Nas.LinkedList
import Mathlib.Data.List.Perm.Subperm
import Mathlib.Data.List.TakeWhile

/-!
# Event handlers

`HandleEv.c`: the registered handlers are a doubly linked list, `AuDispatchEvent` calls those of an event, and
`AuHandleEvents` does so for the events in the queue. A handler's callback may do what an application may, and so the
calls that have not returned are a stack of frames. `AuServer.step` is one step of the library (`go`), or of the
application or the callback that has control.

The `Spec` is the same system without pointers and counts: a dispatch has a list of the handlers that were registered
at its start, and calls each of them that is still registered and wants the event. `handlers_agree_iff` is when both
make the same calls: whenever the library goes on behind a handler, that one is still registered, and whenever
it takes one of the events it has counted, there is one.
-/

namespace Nas.EventHandlers

structure AuEvent where
  type : Nat
  /-- `auany.id` -/
  id : Nat
deriving DecidableEq, Repr

/-- What a handler is registered with: which of `type` and `id` to compare. -/
structure Handler where
  typeMask : Bool
  idMask : Bool
  type : Nat
  id : Nat
deriving DecidableEq, Repr

/-- The comparisons of `AuLookupEventHandler`. -/
def Handler.wants (h : Handler) (event : AuEvent) : Bool :=
  if h.typeMask && h.type != event.type then false
  else if h.idMask && h.id != event.id then false
  else true

/-- What the application or a callback does, and the library's next step. -/
inductive Action where
  | registerEventHandler (h : Handler)
  /-- Of a handler that is registered. -/
  | unregisterEventHandler (p : Nat)
  /-- The event at a place of the queue is taken, if there is one. -/
  | takeEvent (i : Nat)
  /-- An event is read. -/
  | arrive (event : AuEvent)
  | handleEvents
  | dispatchEvent (event : AuEvent)
  /-- The callback returns. -/
  | ret
  /-- Where the library waits for an event, `awaited` is the one that comes. -/
  | go (awaited : AuEvent)
deriving DecidableEq, Repr

/-- What is seen of a run. -/
inductive Trace where
  | dispatched (event : AuEvent)
  | called (event : AuEvent) (handler : Nat)
deriving DecidableEq, Repr

/-! ### The library -/

/-- A call that has not returned. -/
inductive Frame where
  /-- `AuHandleEvents`, at the condition of its `for` loop. -/
  | handling (nevents : Nat)
  /-- `AuDispatchEvent`, at the start of its loop or, if not `first`, at its condition. -/
  | dispatching (event : AuEvent) (handler : Option Nat) (first : Bool)
  /-- `AuDispatchEvent` in a callback. -/
  | calling (event : AuEvent) (handler : Nat) (next : Option Nat)
deriving DecidableEq, Repr

/-- The application or a callback has control. -/
def Frame.outside : List Frame → Bool
  | [] | calling .. :: _ => true
  | _ => false

/-- Events are read in the calls of the application, and where `AuHandleEvents` counts them. -/
def Frame.reads : List Frame → Bool
  | [] | calling .. :: _ | handling 0 :: _ => true
  | _ => false

structure AuServer where
  recs : Heap Handler
  links : Nat → Links Nat
  eventhandlerq : Option Nat
  queue : List AuEvent
  stack : List Frame
  trace : List Trace
  /-- `AuHandleEvents` has waited for an event. -/
  waited : Bool

namespace AuServer
variable (aud : AuServer)

def start : AuServer := ⟨Heap.empty, fun _ => {}, none, [], [], [], false⟩

/-- The loop of `AuLookupEventHandler`. There are no more handlers than addresses. -/
def lookup (event : AuEvent) : Nat → Option Nat → Exec (Option Nat)
  | _, none => .ok none
  | 0, some _ => .error .fuel
  | fuel + 1, some p => do
    let h ← Exec.deref (aud.recs.get p)
    if h.wants event then .ok (some p) else lookup event fuel (aud.links p).next

def auLookupEventHandler (event : AuEvent) (handler : Option Nat) : Exec (Option Nat) :=
  aud.lookup event aud.recs.next (if handler.isNone then aud.eventhandlerq else handler)

/-- A call of `AuDispatchEvent`. -/
def enter (event : AuEvent) (rest : List Frame) : AuServer :=
  { aud with stack := .dispatching event none true :: rest, trace := aud.trace ++ [.dispatched event] }

/-- One step of the library. -/
def go (awaited : AuEvent) : Exec AuServer :=
  match aud.stack with
  | .handling nevents :: rest =>
    let nevents := if nevents = 0 then aud.queue.length else nevents
    if nevents = 0 then .ok { aud with stack := rest }
    else
      match aud.queue with
      | [] => .ok ({ aud with waited := true }.enter awaited (.handling (nevents - 1) :: rest))
      | event :: queue => .ok ({ aud with queue }.enter event (.handling (nevents - 1) :: rest))
  | .dispatching event handler first :: rest =>
    if handler = none ∧ first = false then .ok { aud with stack := rest }
    else do
      match ← aud.auLookupEventHandler event handler with
      | none => .ok { aud with stack := rest }
      | some p => .ok { aud with
          stack := .calling event p (aud.links p).next :: rest
          trace := aud.trace ++ [.called event p] }
  | _ => .ok aud

def auRegisterEventHandler (h : Handler) : Exec AuServer := do
  let recs := aud.recs.alloc h
  let (links, eventhandlerq) ← LinkedList.add recs.live aud.links aud.eventhandlerq aud.recs.next
  .ok { aud with recs, links, eventhandlerq }

def auUnregisterEventHandler (p : Nat) : Exec AuServer := do
  let (links, eventhandlerq) ← LinkedList.remove aud.recs.live aud.links aud.eventhandlerq p
  .ok { aud with recs := aud.recs.free p, links, eventhandlerq }

/-- What cannot be done where the run is changes nothing. -/
def step : Action → Exec AuServer
  | .registerEventHandler h => if Frame.outside aud.stack then aud.auRegisterEventHandler h else .ok aud
  | .unregisterEventHandler p => if Frame.outside aud.stack ∧ aud.recs.live p then aud.auUnregisterEventHandler p else .ok aud
  | .takeEvent i => .ok (if Frame.outside aud.stack then { aud with queue := aud.queue.eraseIdx i } else aud)
  | .arrive event => .ok (if Frame.reads aud.stack then { aud with queue := aud.queue ++ [event] } else aud)
  | .handleEvents => .ok (if Frame.outside aud.stack then { aud with stack := .handling 0 :: aud.stack } else aud)
  | .dispatchEvent event => .ok (if Frame.outside aud.stack then aud.enter event aud.stack else aud)
  | .ret =>
    match aud.stack with
    | .calling event _ next :: rest => .ok { aud with stack := .dispatching event next false :: rest }
    | _ => .ok aud
  | .go awaited => aud.go awaited

end AuServer

/-! ### What it is for -/

namespace Spec

inductive Frame where
  | handling
  /-- `todo` are the handlers of the start of the dispatch whose turn has not come. -/
  | dispatching (event : AuEvent) (todo : List Nat)
  | calling (event : AuEvent) (handler : Nat) (todo : List Nat)
deriving DecidableEq, Repr

def Frame.outside : List Frame → Bool
  | [] | calling .. :: _ => true
  | _ => false

end Spec

structure Spec where
  /-- The handlers that are registered, the last one first. -/
  handlers : List (Nat × Handler)
  next : Nat
  queue : List AuEvent
  stack : List Spec.Frame
  trace : List Trace
deriving DecidableEq, Repr

namespace Spec
variable (s : Spec)

def start : Spec := ⟨[], 0, [], [], []⟩

def registered : List Nat := s.handlers.map (·.1)

/-- A handler is registered and wants an event. -/
def due (event : AuEvent) (p : Nat) : Bool := s.handlers.any fun x => x.1 = p ∧ x.2.wants event

def enter (event : AuEvent) (rest : List Frame) : Spec :=
  { s with stack := .dispatching event s.registered :: rest, trace := s.trace ++ [.dispatched event] }

def go : Spec :=
  match s.stack with
  | .handling :: rest =>
    match s.queue with
    | [] => { s with stack := rest }
    | event :: queue => { s with queue }.enter event (.handling :: rest)
  | .dispatching event todo :: rest =>
    match todo.dropWhile fun p => !s.due event p with
    | [] => { s with stack := rest }
    | p :: todo => { s with stack := .calling event p todo :: rest, trace := s.trace ++ [.called event p] }
  | _ => s

/-- `reads` is whether events can be read. -/
def step (reads : Bool) : Action → Spec
  | .registerEventHandler h =>
    if Frame.outside s.stack then { s with handlers := (s.next, h) :: s.handlers, next := s.next + 1 } else s
  | .unregisterEventHandler p => if Frame.outside s.stack then { s with handlers := s.handlers.filter (·.1 ≠ p) } else s
  | .takeEvent i => if Frame.outside s.stack then { s with queue := s.queue.eraseIdx i } else s
  | .arrive event => if reads then { s with queue := s.queue ++ [event] } else s
  | .handleEvents => if Frame.outside s.stack then { s with stack := .handling :: s.stack } else s
  | .dispatchEvent event => if Frame.outside s.stack then s.enter event s.stack else s
  | .ret =>
    match s.stack with
    | .calling event _ todo :: rest => { s with stack := .dispatching event todo :: rest }
    | _ => s
  | .go _ => s.go

end Spec

/-- Both at once. -/
def step (x : AuServer × Spec) (a : Action) : Exec (AuServer × Spec) := do
  let aud ← x.1.step a
  .ok (aud, x.2.step (Frame.reads x.1.stack) a)

/-- The same events were dispatched and the same handlers called, and the same events are left, without waiting. -/
def Agree (x : AuServer × Spec) : Prop := x.1.trace = x.2.trace ∧ x.1.queue = x.2.queue ∧ x.1.waited = false

/-- The handler that the library goes on with is registered, and of the events it has counted there is one left. -/
def Good (x : AuServer × Spec) : Action → Prop
  | .go _ =>
    match x.1.stack with
    | .dispatching _ (some p) _ :: _ => x.1.recs.live p
    | .handling (_ + 1) :: _ => x.1.queue ≠ []
    | _ => True
  | _ => True

/-! ### Where a dispatch goes on -/

/-- The handlers of `todo` that are registered are the end of the list, from `next` on, unless that has gone. -/
def Follows (L : List Nat) (next : Option Nat) (todo : List Nat) : Prop :=
  (∀ p, next = some p → p ∈ L) → todo.filter (· ∈ L) <:+ L ∧ (todo.filter (· ∈ L)).head? = next

/-- The frames of calls that wait for another one to return. -/
inductive FrameOk (L : List Nat) (bound : Nat) : Frame → Spec.Frame → Prop where
  | handling (nevents : Nat) : FrameOk L bound (.handling nevents) .handling
  | calling (event : AuEvent) (p : Nat) {next : Option Nat} {todo : List Nat} (htodo : ∀ q ∈ todo, q < bound)
      (hnext : ∀ q, next = some q → q < bound) (h : Follows L next todo) :
      FrameOk L bound (.calling event p next) (.calling event p todo)

/-- The call that has control. -/
inductive TopOk (L : List Nat) (bound : Nat) : Frame → Spec.Frame → Prop where
  | frame {f : Frame} {g : Spec.Frame} (h : FrameOk L bound f g) : TopOk L bound f g
  | first (event : AuEvent) : TopOk L bound (.dispatching event none true) (.dispatching event L)
  | again (event : AuEvent) {next : Option Nat} {todo : List Nat} (htodo : ∀ q ∈ todo, q < bound)
      (h : Follows L next todo) : TopOk L bound (.dispatching event next false) (.dispatching event todo)

inductive StackOk (L : List Nat) (bound : Nat) : List Frame → List Spec.Frame → Prop where
  | nil : StackOk L bound [] []
  | cons {f : Frame} {g : Spec.Frame} {fs : List Frame} {gs : List Spec.Frame} (top : TopOk L bound f g)
      (rest : List.Forall₂ (FrameOk L bound) fs gs) : StackOk L bound (f :: fs) (g :: gs)

/-- The library's state is that of the specification. -/
structure Simulates (aud : AuServer) (s : Spec) : Prop where
  list : LinkedList.IsList aud.links aud.eventhandlerq s.registered
  recs : ∀ p h, aud.recs.get p = some h ↔ (p, h) ∈ s.handlers
  next : aud.recs.next = s.next
  queue : aud.queue = s.queue
  trace : aud.trace = s.trace
  waited : aud.waited = false
  stack : StackOk s.registered s.next aud.stack s.stack

section
variable {L todo : List Nat} {next : Option Nat} {p b : Nat} {f : Frame} {g : Spec.Frame} {fs : List Frame}
  {gs : List Spec.Frame}

theorem Follows.register (h : Follows L next todo) (htodo : ∀ q ∈ todo, q < b) (hnext : ∀ q, next = some q → q < b) :
    Follows (b :: L) next todo := by
  intro hin
  have hin' : ∀ q, next = some q → q ∈ L := fun q hq => by
    rcases List.mem_cons.1 (hin q hq) with rfl | hmem
    · exact absurd (hnext q hq) (Nat.lt_irrefl q)
    · exact hmem
  have hfilter : todo.filter (· ∈ b :: L) = todo.filter (· ∈ L) := by
    refine List.filter_congr fun q hq => ?_
    have := htodo q hq
    rw [decide_eq_decide, List.mem_cons]
    exact ⟨fun h => h.resolve_left (by omega), .inr⟩
  rw [hfilter]
  exact ⟨(h hin').1.trans (List.suffix_cons b L), (h hin').2⟩

theorem Follows.unregister (h : Follows L next todo) (p : Nat) : Follows (L.filter (· ≠ p)) next todo := by
  intro hin
  have hin' : ∀ q, next = some q → q ∈ L := fun q hq => List.mem_of_mem_filter (hin q hq)
  obtain ⟨hsuffix, hhead⟩ := h hin'
  have hfilter : todo.filter (· ∈ L.filter (· ≠ p)) = (todo.filter (· ∈ L)).filter (· ≠ p) := by
    rw [List.filter_filter]
    refine List.filter_congr fun q _ => ?_
    simp [and_comm]
  rw [hfilter]
  refine ⟨hsuffix.filter _, ?_⟩
  rw [← hhead] at hin ⊢
  rcases hl : todo.filter (· ∈ L) with _ | ⟨q, l⟩
  · rfl
  · have hq := hin q (by rw [hl]; rfl)
    rw [List.filter_cons, if_pos (List.mem_filter.1 hq).2]
    rfl

theorem FrameOk.register (h : FrameOk L b f g) : FrameOk (b :: L) (b + 1) f g := by
  cases h with
  | handling n => exact .handling n
  | calling event p htodo hnext h =>
    exact .calling event p (fun q hq => Nat.lt_succ_of_lt (htodo q hq)) (fun q hq => Nat.lt_succ_of_lt (hnext q hq))
      (h.register htodo hnext)

theorem FrameOk.unregister (h : FrameOk L b f g) (p : Nat) : FrameOk (L.filter (· ≠ p)) b f g := by
  cases h with
  | handling n => exact .handling n
  | calling event q htodo hnext h => exact .calling event q htodo hnext (h.unregister p)

/-- All frames are of waiting calls, if the library does not have control. -/
theorem StackOk.waiting (h : StackOk L b fs gs) (hout : Frame.outside fs = true) : List.Forall₂ (FrameOk L b) fs gs := by
  cases h with
  | nil => exact .nil
  | cons top rest =>
    cases top with
    | frame h => exact .cons h rest
    | first => cases hout
    | again => cases hout

theorem StackOk.of_waiting (h : List.Forall₂ (FrameOk L b) fs gs) : StackOk L b fs gs := by
  cases h with
  | nil => exact .nil
  | cons h rest => exact .cons (.frame h) rest

theorem StackOk.outside_eq (h : StackOk L b fs gs) : Spec.Frame.outside gs = Frame.outside fs := by
  cases h with
  | nil => rfl
  | cons top rest =>
    cases top with
    | frame h => cases h <;> rfl
    | first => rfl
    | again => rfl

end

/-! ### The list -/

section
variable {aud : AuServer} {s : Spec} {p : Nat} {event : AuEvent}

theorem Simulates.live_iff (h : Simulates aud s) : aud.recs.live p = true ↔ p ∈ s.registered := by
  rw [Heap.live, Option.isSome_iff_exists, Spec.registered, List.mem_map]
  constructor
  · rintro ⟨a, ha⟩
    exact ⟨(p, a), (h.recs p a).1 ha, rfl⟩
  · rintro ⟨⟨q, a⟩, hmem, rfl⟩
    exact ⟨a, (h.recs q a).2 hmem⟩

theorem Simulates.lt_next (h : Simulates aud s) (hp : p ∈ s.registered) : p < s.next := by
  obtain ⟨a, ha⟩ := Option.isSome_iff_exists.1 (h.live_iff.2 hp)
  exact h.next ▸ Heap.lt_next ha

theorem Simulates.due_iff (h : Simulates aud s) :
    s.due event p = true ↔ ∃ a, aud.recs.get p = some a ∧ a.wants event = true := by
  rw [Spec.due, List.any_eq_true]
  constructor
  · rintro ⟨⟨q, a⟩, hmem, hx⟩
    obtain ⟨rfl, hw⟩ := of_decide_eq_true hx
    exact ⟨a, (h.recs q a).2 hmem, hw⟩
  · rintro ⟨a, ha, hw⟩
    exact ⟨(p, a), (h.recs p a).1 ha, decide_eq_true ⟨rfl, hw⟩⟩

theorem Simulates.length_le (h : Simulates aud s) : s.registered.length ≤ aud.recs.next := by
  have hsub : s.registered ⊆ List.range aud.recs.next := fun q hq => List.mem_range.2 (h.next ▸ h.lt_next hq)
  have := (List.subperm_of_subset h.list.nodup hsub).length_le
  rwa [List.length_range] at this

theorem Simulates.next_eq (h : Simulates aud s) {l₁ l₂ : List Nat} (hl : s.registered = l₁ ++ p :: l₂) :
    (aud.links p).next = l₂.head? := by
  have hlist := h.list
  rw [hl] at hlist
  exact hlist.neighbours.2

/-- A look-up from some place of the list on finds the first handler that wants the event. -/
theorem Simulates.lookup_eq (h : Simulates aud s) {l₁ l₂ : List Nat} (hl : s.registered = l₁ ++ l₂) {fuel : Nat}
    (hfuel : l₂.length ≤ fuel) : aud.lookup event fuel l₂.head? = .ok (l₂.find? (s.due event)) := by
  induction l₂ generalizing l₁ fuel with
  | nil => cases fuel <;> rfl
  | cons p l₂ ih =>
    obtain _ | fuel := fuel
    · cases hfuel
    have hp : p ∈ s.registered := by
      rw [hl]
      simp
    obtain ⟨a, ha⟩ := Option.isSome_iff_exists.1 (h.live_iff.2 hp)
    rw [List.head?_cons, AuServer.lookup, ha, Exec.deref_some, Exec.ok_bind, List.find?_cons]
    by_cases hw : a.wants event = true
    · rw [if_pos hw, h.due_iff.2 ⟨a, ha, hw⟩]
    · have hdue : s.due event p = false := by
        rw [Bool.eq_false_iff, Ne, h.due_iff]
        rintro ⟨a', ha', hw'⟩
        rw [ha] at ha'
        cases ha'
        exact hw hw'
      rw [if_neg hw, hdue, h.next_eq hl]
      refine @ih (l₁ ++ [p]) ?_ fuel (by simpa using hfuel)
      rw [hl, List.append_assoc]
      rfl

/-- The first handler of `todo` that is due, and what is registered of those behind it. -/
theorem dropWhile_todo (todo : List Nat) {L : List Nat} {due : Nat → Bool} (hdue : ∀ p, due p = true → p ∈ L) :
    (todo.dropWhile (fun p => !due p) = [] ∧ (todo.filter (· ∈ L)).find? due = none) ∨
      ∃ p rest l, todo.dropWhile (fun p => !due p) = p :: rest ∧ (todo.filter (· ∈ L)).find? due = some p ∧
        todo.filter (· ∈ L) = l ++ p :: rest.filter (· ∈ L) := by
  induction todo with
  | nil => exact .inl ⟨rfl, rfl⟩
  | cons q todo ih =>
    by_cases hq : due q = true
    · refine .inr ⟨q, todo, [], ?_, ?_, ?_⟩
      · rw [List.dropWhile_cons, if_neg (by simp [hq])]
      · rw [List.filter_cons, if_pos (decide_eq_true (hdue q hq)), List.find?_cons, hq]
      · rw [List.filter_cons, if_pos (decide_eq_true (hdue q hq)), List.nil_append]
    · rw [List.dropWhile_cons, if_pos (by simp [hq]), List.filter_cons]
      have hfind : ((if decide (q ∈ L) = true then q :: todo.filter (· ∈ L) else todo.filter (· ∈ L)).find? due) =
          (todo.filter (· ∈ L)).find? due := by
        split_ifs
        · rw [List.find?_cons, Bool.eq_false_iff.2 hq]
        · rfl
      rw [hfind]
      rcases ih with h | ⟨p, rest, l, hdrop, hf, hl⟩
      · exact .inl h
      · refine .inr ⟨p, rest, if q ∈ L then q :: l else l, hdrop, hf, ?_⟩
        by_cases hqL : q ∈ L
        · rw [if_pos (decide_eq_true hqL), if_pos hqL, hl, List.cons_append]
        · rw [if_neg (by simpa using hqL), if_neg hqL, hl]

end

/-! ### Steps -/

section
variable {aud : AuServer} {s : Spec} {event : AuEvent} {fs : List Frame} {gs : List Spec.Frame}

theorem Simulates.setStack (h : Simulates aud s) (hstack : StackOk s.registered s.next fs gs) :
    Simulates { aud with stack := fs } { s with stack := gs } :=
  ⟨h.list, h.recs, h.next, h.queue, h.trace, h.waited, hstack⟩

theorem Simulates.enter (h : Simulates aud s) (event : AuEvent)
    (hstack : List.Forall₂ (FrameOk s.registered s.next) fs gs) :
    Simulates (aud.enter event fs) (s.enter event gs) where
  list := h.list
  recs := h.recs
  next := h.next
  queue := h.queue
  trace := by
    show aud.trace ++ _ = s.trace ++ _
    rw [h.trace]
  waited := h.waited
  stack := .cons (.first event) hstack

theorem Simulates.setQueue (h : Simulates aud s) (queue : List AuEvent) :
    Simulates { aud with queue } { s with queue } :=
  ⟨h.list, h.recs, h.next, rfl, h.trace, h.waited, h.stack⟩

theorem Simulates.register (h : Simulates aud s) (a : Handler) (hout : Frame.outside aud.stack = true) :
    ∃ aud', aud.auRegisterEventHandler a = .ok aud' ∧
      Simulates aud' { s with handlers := (s.next, a) :: s.handlers, next := s.next + 1 } := by
  have hfresh : aud.recs.next ∉ s.registered := fun hmem => by
    have := h.lt_next hmem
    rw [h.next] at this
    exact Nat.lt_irrefl _ this
  have hlive : ∀ p ∈ s.registered, (aud.recs.alloc a).live p = true := fun p hp => by
    rw [Heap.live, Heap.get_alloc]
    split_ifs
    · rfl
    · exact h.live_iff.2 hp
  obtain ⟨links, hadd, hlist, -⟩ := h.list.add hfresh hlive
  refine ⟨{ aud with recs := aud.recs.alloc a, links, eventhandlerq := some aud.recs.next }, ?_, ?_⟩
  · rw [AuServer.auRegisterEventHandler, hadd]
    rfl
  · have hstack : StackOk (s.next :: s.registered) (s.next + 1) aud.stack s.stack :=
      .of_waiting ((h.stack.waiting hout).imp fun _ _ hf => hf.register)
    refine ⟨?_, fun p a' => ?_, ?_, h.queue, h.trace, h.waited, hstack⟩
    · show LinkedList.IsList links (some aud.recs.next) (s.next :: s.registered)
      rwa [← h.next]
    · show (aud.recs.alloc a).get p = some a' ↔ _
      rw [Heap.get_alloc, List.mem_cons, h.next]
      by_cases hp : p = s.next
      · rw [if_pos hp, hp]
        constructor
        · rintro ⟨⟩
          exact .inl rfl
        · rintro (h' | h')
          · cases h'
            rfl
          · exact absurd (List.mem_map_of_mem (f := Prod.fst) h') (h.next ▸ hfresh)
      · rw [if_neg hp, h.recs]
        exact ⟨.inr, fun h' => h'.resolve_left fun he => hp (congrArg Prod.fst he)⟩
    · show aud.recs.next + 1 = s.next + 1
      rw [h.next]

theorem Simulates.unregister (h : Simulates aud s) {p : Nat} (hp : aud.recs.live p = true)
    (hout : Frame.outside aud.stack = true) : ∃ aud', aud.auUnregisterEventHandler p = .ok aud' ∧
      Simulates aud' { s with handlers := s.handlers.filter (·.1 ≠ p) } := by
  obtain ⟨links, head, hremove, hlist, -, -⟩ :=
    h.list.remove (h.live_iff.1 hp) fun q hq => h.live_iff.2 hq
  have hreg : Spec.registered { s with handlers := s.handlers.filter (·.1 ≠ p) } = s.registered.filter (· ≠ p) := by
    rw [Spec.registered, Spec.registered, List.filter_map]
    rfl
  refine ⟨{ aud with recs := aud.recs.free p, links, eventhandlerq := head }, ?_, ?_⟩
  · rw [AuServer.auUnregisterEventHandler, hremove]
    rfl
  · refine ⟨?_, fun q a => ?_, h.next, h.queue, h.trace, h.waited, ?_⟩
    · have herase : s.registered.erase p = s.registered.filter (· ≠ p) := by
        rw [h.list.nodup.erase_eq_filter]
        exact List.filter_congr fun q _ => by by_cases hq : q = p <;> simp [hq]
      rw [hreg, ← herase]
      exact hlist
    · show (aud.recs.free p).get q = some a ↔ _
      rw [Heap.get_free, List.mem_filter]
      by_cases hq : q = p
      · simp [hq]
      · rw [if_neg hq, h.recs]
        simp [hq]
    · rw [hreg]
      exact .of_waiting ((h.stack.waiting hout).imp fun _ _ hf => hf.unregister p)

/-- What is not registered is not taken out. -/
theorem Simulates.filter_unregistered (h : Simulates aud s) {p : Nat} (hp : ¬ aud.recs.live p = true) :
    s.handlers.filter (·.1 ≠ p) = s.handlers := by
  refine List.filter_eq_self.2 fun x hx => decide_eq_true fun hxp => ?_
  rw [h.live_iff] at hp
  exact hp (hxp ▸ List.mem_map_of_mem hx)

theorem Simulates.ret (h : Simulates aud s) :
    ∃ aud', aud.step .ret = .ok aud' ∧ Simulates aud' (s.step (Frame.reads aud.stack) .ret) := by
  unfold AuServer.step Spec.step
  dsimp only
  have hstack := h.stack
  rcases hf : aud.stack with _ | ⟨f, fs⟩ <;> rcases hg : s.stack with _ | ⟨g, gs⟩ <;> rw [hf, hg] at hstack
  · exact ⟨aud, rfl, h⟩
  · cases hstack
  · cases hstack
  cases hstack with
  | cons top rest =>
    cases top with
    | frame hframe =>
      cases hframe with
      | handling => exact ⟨aud, rfl, h⟩
      | calling event p htodo _ hfollows => exact ⟨_, rfl, h.setStack (.cons (.again event htodo hfollows) rest)⟩
    | first => exact ⟨aud, rfl, h⟩
    | again => exact ⟨aud, rfl, h⟩

theorem go_idle (hf : aud.stack = .handling 0 :: fs) (hqueue : aud.queue = []) (awaited : AuEvent) :
    aud.go awaited = .ok { aud with stack := fs } := by
  unfold AuServer.go
  rw [hf]
  simp only [hqueue]
  rfl

theorem go_takes {nevents : Nat} {queue : List AuEvent} (hf : aud.stack = .handling nevents :: fs)
    (hqueue : aud.queue = event :: queue) (awaited : AuEvent) :
    ∃ nevents', aud.go awaited = .ok ({ aud with queue }.enter event (.handling nevents' :: fs)) := by
  have hn : (if nevents = 0 then aud.queue.length else nevents) ≠ 0 := by
    rw [hqueue]
    split_ifs with h0
    · simp
    · exact h0
  unfold AuServer.go
  rw [hf]
  dsimp only
  rw [if_neg hn]
  exact ⟨_, by simp only [hqueue]; rfl⟩

/-- A step of `AuHandleEvents`. -/
theorem Simulates.go_handling (h : Simulates aud s) {nevents : Nat} (hf : aud.stack = .handling nevents :: fs)
    (hg : s.stack = .handling :: gs) (hrest : List.Forall₂ (FrameOk s.registered s.next) fs gs) (awaited : AuEvent)
    (hgood : nevents ≠ 0 → aud.queue ≠ []) : ∃ aud', aud.go awaited = .ok aud' ∧ Simulates aud' s.go := by
  unfold Spec.go
  rw [hg]
  rcases hqueue : s.queue with _ | ⟨event, queue⟩
  · have hn : nevents = 0 := by
      by_contra hne
      exact hgood hne (h.queue.trans hqueue)
    rw [hn] at hf
    refine ⟨_, go_idle hf (h.queue.trans hqueue) awaited, ?_⟩
    have hset := h.setStack (.of_waiting hrest)
    simp only [hqueue] at hset ⊢
    exact hset
  · obtain ⟨nevents', hgo⟩ := go_takes hf (h.queue.trans hqueue) awaited
    exact ⟨_, hgo, (h.setQueue queue).enter event (.cons (.handling nevents') hrest)⟩

/-- `AuHandleEvents` waits for an event that it has counted. -/
theorem go_waits {aud' : AuServer} {nevents : Nat} (hf : aud.stack = .handling nevents :: fs) (hn : nevents ≠ 0)
    (hqueue : aud.queue = []) {awaited : AuEvent} (hgo : aud.go awaited = .ok aud') : aud'.waited = true := by
  unfold AuServer.go at hgo
  rw [hf] at hgo
  dsimp only at hgo
  rw [if_neg hn, if_neg hn, hqueue] at hgo
  cases hgo
  rfl

/-- A step of `AuDispatchEvent` that looks for a handler from `l₂` on. -/
theorem Simulates.go_lookup (h : Simulates aud s) {handler : Option Nat} {first : Bool} {todo l₁ : List Nat}
    (hf : aud.stack = .dispatching event handler first :: fs) (hg : s.stack = .dispatching event todo :: gs)
    (hrest : List.Forall₂ (FrameOk s.registered s.next) fs gs) (htodo : ∀ q ∈ todo, q < s.next)
    (hl : s.registered = l₁ ++ todo.filter (· ∈ s.registered))
    (hfrom : (if handler.isNone then aud.eventhandlerq else handler) = (todo.filter (· ∈ s.registered)).head?)
    (hloop : ¬ (handler = none ∧ first = false)) (awaited : AuEvent) :
    ∃ aud', aud.go awaited = .ok aud' ∧ Simulates aud' s.go := by
  have hlen : (todo.filter (· ∈ s.registered)).length ≤ aud.recs.next := by
    have := h.length_le
    rw [hl, List.length_append] at this
    omega
  have hlookup : aud.auLookupEventHandler event handler =
      .ok ((todo.filter (· ∈ s.registered)).find? (s.due event)) := by
    rw [AuServer.auLookupEventHandler, hfrom]
    exact h.lookup_eq hl hlen
  have hdue : ∀ p, s.due event p = true → p ∈ s.registered := fun p hp => by
    obtain ⟨a, ha, -⟩ := h.due_iff.1 hp
    exact h.live_iff.1 (Option.isSome_iff_exists.2 ⟨a, ha⟩)
  unfold AuServer.go Spec.go
  rw [hf, hg]
  dsimp only
  rw [if_neg hloop, hlookup, Exec.ok_bind]
  rcases dropWhile_todo todo hdue with ⟨hdrop, hfind⟩ | ⟨p, rest, l, hdrop, hfind, hsplit⟩
  · rw [hfind, hdrop]
    exact ⟨_, rfl, h.setStack (.of_waiting hrest)⟩
  · rw [hfind, hdrop]
    have hmem : ∀ q ∈ p :: rest, q ∈ todo := fun q hq => (List.dropWhile_suffix _).mem (hdrop ▸ hq)
    have hreg : s.registered = (l₁ ++ l) ++ p :: rest.filter (· ∈ s.registered) := by
      rw [List.append_assoc, ← hsplit]
      exact hl
    have hnext : (aud.links p).next = (rest.filter (· ∈ s.registered)).head? := h.next_eq hreg
    refine ⟨_, rfl, h.list, h.recs, h.next, h.queue, ?_, h.waited, .cons (.frame (.calling event p ?_ ?_ ?_)) hrest⟩
    · show aud.trace ++ _ = s.trace ++ _
      rw [h.trace]
    · exact fun q hq => htodo q (hmem q (List.mem_cons_of_mem _ hq))
    · intro q hq
      rw [hnext] at hq
      exact htodo q (hmem q (List.mem_cons_of_mem _ (List.mem_of_mem_filter (List.mem_of_mem_head? hq))))
    · intro _
      refine ⟨⟨(l₁ ++ l) ++ [p], ?_⟩, hnext.symm⟩
      rw [List.append_assoc, List.singleton_append]
      exact hreg.symm

/-- At the start of a dispatch all that are registered have their turn to come. -/
theorem Simulates.go_first (h : Simulates aud s) (hf : aud.stack = .dispatching event none true :: fs)
    (hg : s.stack = .dispatching event s.registered :: gs)
    (hrest : List.Forall₂ (FrameOk s.registered s.next) fs gs) (awaited : AuEvent) :
    ∃ aud', aud.go awaited = .ok aud' ∧ Simulates aud' s.go := by
  have hall : s.registered.filter (· ∈ s.registered) = s.registered :=
    List.filter_eq_self.2 fun q hq => decide_eq_true hq
  have hl : s.registered = [] ++ s.registered.filter (· ∈ s.registered) := by rw [hall, List.nil_append]
  refine h.go_lookup hf hg hrest (fun q hq => h.lt_next hq) hl ?_ (by simp) awaited
  rw [hall]
  exact h.list.head_eq

theorem Simulates.go_again (h : Simulates aud s) {next : Option Nat} {todo : List Nat}
    (hf : aud.stack = .dispatching event next false :: fs) (hg : s.stack = .dispatching event todo :: gs)
    (hrest : List.Forall₂ (FrameOk s.registered s.next) fs gs) (htodo : ∀ q ∈ todo, q < s.next)
    (hfollows : Follows s.registered next todo) (hgood : ∀ p, next = some p → aud.recs.live p = true)
    (awaited : AuEvent) : ∃ aud', aud.go awaited = .ok aud' ∧ Simulates aud' s.go := by
  obtain ⟨⟨l₁, hsplit⟩, hhead⟩ := hfollows fun p hp => h.live_iff.1 (hgood p hp)
  cases next with
  | none =>
    have hnil : todo.filter (· ∈ s.registered) = [] := List.head?_eq_none_iff.1 hhead
    have hdue : ∀ q ∈ todo, (!s.due event q) = true := fun q hq => by
      rw [Bool.not_eq_true', Bool.eq_false_iff, Ne, h.due_iff]
      rintro ⟨a, ha, -⟩
      have hmem : q ∈ todo.filter (· ∈ s.registered) :=
        List.mem_filter.2 ⟨hq, decide_eq_true (h.live_iff.1 (Option.isSome_iff_exists.2 ⟨a, ha⟩))⟩
      rw [hnil] at hmem
      cases hmem
    unfold AuServer.go Spec.go
    rw [hf, hg]
    dsimp only
    rw [if_pos ⟨rfl, rfl⟩, List.dropWhile_eq_nil_iff.2 hdue]
    exact ⟨_, rfl, h.setStack (.of_waiting hrest)⟩
  | some p => exact h.go_lookup hf hg hrest htodo hsplit.symm hhead.symm (by simp) awaited

/-- `AuLookupEventHandler` reads the handler it starts from. -/
theorem go_freed {p : Nat} {first : Bool} (hf : aud.stack = .dispatching event (some p) first :: fs)
    (hp : aud.recs.live p = false) (awaited : AuEvent) (aud' : AuServer) : aud.go awaited ≠ .ok aud' := by
  have hget : aud.recs.get p = none := Option.not_isSome_iff_eq_none.1 (by rw [← Heap.live, hp]; simp)
  have herror : ∃ e, aud.auLookupEventHandler event (some p) = .error e := by
    unfold AuServer.auLookupEventHandler
    cases aud.recs.next with
    | zero => exact ⟨.fuel, rfl⟩
    | succ n =>
      rw [Option.isNone_some, if_neg Bool.false_ne_true, AuServer.lookup, hget]
      exact ⟨.fault, rfl⟩
  obtain ⟨e, he⟩ := herror
  intro hgo
  unfold AuServer.go at hgo
  rw [hf] at hgo
  dsimp only at hgo
  rw [if_neg (by simp), he] at hgo
  cases hgo

theorem Simulates.go (h : Simulates aud s) (awaited : AuEvent) (hgood : Good (aud, s) (.go awaited)) :
    ∃ aud', aud.go awaited = .ok aud' ∧ Simulates aud' s.go := by
  unfold Good at hgood
  dsimp only at hgood
  have hstack := h.stack
  rcases hf : aud.stack with _ | ⟨f, fs⟩ <;> rcases hg : s.stack with _ | ⟨g, gs⟩ <;> rw [hf, hg] at hstack
  · refine ⟨aud, ?_, ?_⟩
    · unfold AuServer.go
      rw [hf]
    · unfold Spec.go
      rw [hg]
      exact h
  · cases hstack
  · cases hstack
  cases hstack with
  | cons top rest =>
    rw [hf] at hgood
    cases top with
    | frame hframe =>
      cases hframe with
      | handling nevents =>
        refine h.go_handling hf hg rest awaited fun hn => ?_
        obtain ⟨n, rfl⟩ := Nat.exists_eq_succ_of_ne_zero hn
        exact hgood
      | calling =>
        refine ⟨aud, ?_, ?_⟩
        · unfold AuServer.go
          rw [hf]
        · unfold Spec.go
          rw [hg]
          exact h
    | first => exact h.go_first hf hg rest awaited
    | again event htodo hfollows =>
      refine h.go_again hf hg rest htodo hfollows (fun p hp => ?_) awaited
      subst hp
      exact hgood

/-- One step of the run, whoever takes it. -/
theorem Simulates.step (h : Simulates aud s) (a : Action) (hgood : Good (aud, s) a) :
    ∃ aud', aud.step a = .ok aud' ∧ Simulates aud' (s.step (Frame.reads aud.stack) a) := by
  have hout := h.stack.outside_eq
  cases a with
  | registerEventHandler a =>
    unfold AuServer.step Spec.step
    dsimp only
    rw [hout]
    split_ifs with ho
    · exact h.register a ho
    · exact ⟨aud, rfl, h⟩
  | unregisterEventHandler p =>
    unfold AuServer.step Spec.step
    dsimp only
    rw [hout]
    by_cases ho : Frame.outside aud.stack = true
    · rw [if_pos ho]
      by_cases hp : aud.recs.live p = true
      · rw [if_pos ⟨ho, hp⟩]
        exact h.unregister hp ho
      · rw [if_neg fun hc => hp hc.2]
        refine ⟨aud, rfl, ?_⟩
        rw [h.filter_unregistered hp]
        exact h
    · rw [if_neg ho, if_neg fun hc => ho hc.1]
      exact ⟨aud, rfl, h⟩
  | takeEvent i =>
    refine ⟨_, rfl, ?_⟩
    unfold Spec.step
    dsimp only
    rw [hout]
    split_ifs
    · rw [h.queue]
      exact h.setQueue _
    · exact h
  | arrive event =>
    refine ⟨_, rfl, ?_⟩
    unfold Spec.step
    dsimp only
    split_ifs
    · rw [h.queue]
      exact h.setQueue _
    · exact h
  | handleEvents =>
    refine ⟨_, rfl, ?_⟩
    unfold Spec.step
    dsimp only
    rw [hout]
    split_ifs with ho
    · exact h.setStack (.cons (.frame (.handling 0)) (h.stack.waiting ho))
    · exact h
  | dispatchEvent event =>
    refine ⟨_, rfl, ?_⟩
    unfold Spec.step
    dsimp only
    rw [hout]
    split_ifs with ho
    · exact h.enter event (h.stack.waiting ho)
    · exact h
  | ret => exact h.ret
  | go awaited => exact h.go awaited hgood

theorem Simulates.agree (h : Simulates aud s) : Agree (aud, s) := ⟨h.trace, h.queue, h.waited⟩

theorem simulates_start : Simulates AuServer.start Spec.start :=
  ⟨.nil, fun p h => by simp [AuServer.start, Spec.start, Heap.empty], rfl, rfl, rfl, rfl, .nil⟩

theorem good_step (x : AuServer × Spec) (a : Action) (h : Simulates x.1 x.2) (hgood : Good x a) :
    ∃ x', step x a = .ok x' ∧ Simulates x'.1 x'.2 := by
  obtain ⟨aud', he, h'⟩ := h.step a hgood
  refine ⟨(aud', x.2.step (Frame.reads x.1.stack) a), ?_, h'⟩
  rw [step, he]
  rfl

theorem bad_step (x : AuServer × Spec) (a : Action) (x' : AuServer × Spec) (_ : Simulates x.1 x.2) (hbad : ¬ Good x a)
    (he : step x a = .ok x') : ¬ Agree x' := by
  rw [step, Exec.bind_eq_ok] at he
  obtain ⟨aud', hgo, he⟩ := he
  cases he
  unfold Good at hbad
  split at hbad
  · split at hbad
    · rename_i hf
      exact absurd hgo (go_freed hf (Bool.eq_false_iff.2 hbad) _ aud')
    · rename_i n fs hf
      have hwaited := go_waits hf (Nat.succ_ne_zero n) (not_not.1 hbad) hgo
      rintro ⟨-, -, hno⟩
      exact absurd (hwaited.symm.trans hno) Bool.noConfusion
    · exact absurd trivial hbad
  · exact absurd trivial hbad

/-- The library dispatches the events and calls the handlers as it should if and only if the handler after the one
it has called is registered when it goes on, and the events it has counted are there when it takes them. -/
theorem handlers_agree_iff (actions : List Action) :
    Throughout step Agree actions (AuServer.start, Spec.start) ↔
      Each step Good actions (AuServer.start, Spec.start) :=
  throughout_iff_each (I := fun x => Simulates x.1 x.2) (fun _ => Simulates.agree) good_step bad_step simulates_start

/-- Of two handlers the first one's callback unregisters the other one. -/
def unregistersOther : List Action :=
  let all : Handler := ⟨false, false, 0, 0⟩
  let event : AuEvent := ⟨0, 0⟩
  [.registerEventHandler all, .registerEventHandler all, .arrive event, .handleEvents, .go event, .go event,
    .unregisterEventHandler 0, .ret, .go event]

theorem next_handler_freed : ¬ Throughout step Agree unregistersOther (AuServer.start, Spec.start) := by
  intro h
  obtain ⟨s', hs'⟩ := Throughout.runs h
  have hfault : List.foldlM step (AuServer.start, Spec.start) unregistersOther = .error .fault := rfl
  rw [hfault] at hs'
  cases hs'

end

end Nas.EventHandlers
