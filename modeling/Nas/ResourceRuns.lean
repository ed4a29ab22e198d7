import Nas.RebuildTable

/-!
# The resource table refines a multimap

`Inv` says of a state between two steps that its table is that of the multimap of its history (`TableOk`), that each
record that is neither there nor freed is waited for by a delete function (`Accounts`), and that the operations on the
stack can go on (`StackOk`). What happens above an operation on the stack only takes records out (`Shrinks`).
`FreeResource` goes on behind the record that it was behind, if the count of elements says that nothing was freed. But
`FreeResourceByType` does not change the count: `Kept` is that the record was not freed. A run is that of a multimap
exactly if this holds whenever a delete function returns to `FreeResource` (`refines_iff`).
-/

namespace Nas.ResourceTable

variable {L L' L'' : Nat → Nat → List ResourcePtr} {m : Multimap} {s s' s'' : State} {cid j : Nat} {p q : ResourcePtr}
  {node : Node ResourceItem} {pre post rest pend : List ResourcePtr} {id : AuID} {call : Call} {l : FreeLoop}
  {records : Heap (Node ResourceItem)} {history : List Event} {r : ResourceItem} {f : Frame} {stack : List Frame}

/-! ### Accounts -/

/-- The record that is to be freed when a delete function returns. -/
def Frame.pending : Frame → Option ResourcePtr
  | .freeResourceDelete _ res _ => some res
  | .freeResourceByTypeDelete res => some res
  | .freeClientResourcesDelete _ _ this => some this
  | _ => none

def pending (stack : List Frame) : List ResourcePtr := stack.filterMap (·.pending)

/-- A record is in the multimap, or taken out and to be freed, or freed. -/
structure Accounts (records : Heap (Node ResourceItem)) (history : List Event) (pend : List ResourcePtr) : Prop where
  legal : Legal history
  nodup : pend.Nodup
  owed : ∀ p ∈ pend, (records.get p).isSome ∧ p ∉ (Multimap.of history).map (·.record) ∧ takings history p ≠ [] ∧
    .freed p ∉ history
  live : ∀ p, (records.get p).isSome → p ∈ (Multimap.of history).map (·.record) ∨ p ∈ pend
  added : ∀ p r, .added p r ∈ history → p < records.next

namespace Accounts

theorem congr (h : Accounts records history pend) {records' : Heap (Node ResourceItem)}
    (hsome : ∀ p, (records'.get p).isSome = (records.get p).isSome) (hnext : records'.next = records.next) :
    Accounts records' history pend where
  legal := h.legal
  nodup := h.nodup
  owed p hp := by
    rw [hsome]
    exact h.owed p hp
  live p hp := h.live p (hsome p ▸ hp)
  added p r hp := hnext ▸ h.added p r hp

theorem take (h : Accounts records history pend) (hsome : (records.get p).isSome)
    (hfind : (Multimap.of history).find? (fun e => e.item.id = r.id && call.wants e.item) = some ⟨p, r⟩) :
    Accounts records (.taken call p (call.deletes r) :: history) (p :: pend) := by
  have hmem : p ∈ (Multimap.of history).map (·.record) :=
    List.mem_map.2 ⟨⟨p, r⟩, List.mem_of_find?_eq_some hfind, rfl⟩
  have hlife := h.legal.life p
  have hsub : ∀ {q}, q ∈ (Multimap.of (.taken call p (call.deletes r) :: history)).map (·.record) →
      q ∈ (Multimap.of history).map (·.record) ∧ q ≠ p := fun hq => by
    obtain ⟨e, he, rfl⟩ := List.mem_map.1 hq
    obtain ⟨he, hne⟩ := List.mem_filter.1 he
    exact ⟨List.mem_map_of_mem he, by simpa using hne⟩
  refine ⟨⟨h.legal, ⟨p, r⟩, hfind, rfl, rfl⟩, List.nodup_cons.2 ⟨fun hp => (h.owed p hp).2.1 hmem, h.nodup⟩,
    fun q hq => ?_, fun q hq => ?_, fun q r' hq => h.added q r' (by simpa using hq)⟩
  · rcases List.mem_cons.1 hq with rfl | hq
    · refine ⟨hsome, fun hq' => (hsub hq').2 rfl, by rw [Legal.takings_taken]; simp, fun hf => ?_⟩
      exact (hlife.freed (by simpa using hf)).1 (hlife.there hmem).2
    · obtain ⟨hs, hm, ht, hf⟩ := h.owed q hq
      refine ⟨hs, fun hq' => hm (hsub hq').1, ?_, by simpa using hf⟩
      rw [Legal.takings_cons]
      · exact ht
      · intro call' deleted heq
        cases heq
        exact hm hmem
  · rcases h.live q hq with hq | hq
    · by_cases hqp : q = p
      · exact .inr (by simp [hqp])
      · obtain ⟨e, he, rfl⟩ := List.mem_map.1 hq
        exact .inl (List.mem_map.2 ⟨e, List.mem_filter.2 ⟨he, by simpa using hqp⟩, rfl⟩)
    · exact .inr (List.mem_cons_of_mem _ hq)

theorem free (h : Accounts records history (p :: pend)) :
    Accounts (records.free p) (.freed p :: history) pend := by
  obtain ⟨-, hm, ht, hf⟩ := h.owed p (by simp)
  obtain ⟨hp, hnodup⟩ := List.nodup_cons.1 h.nodup
  have hget : ∀ {q}, q ≠ p → (records.free p).get q = records.get q := fun hq => by rw [Heap.get_free, if_neg hq]
  refine ⟨⟨h.legal, ht, hf⟩, hnodup, fun q hq => ?_, fun q hq => ?_, fun q r hq => h.added q r (by simpa using hq)⟩
  · have hqp : q ≠ p := by
      rintro rfl
      exact hp hq
    obtain ⟨hs, hm', ht', hf'⟩ := h.owed q (List.mem_cons_of_mem _ hq)
    refine ⟨by rwa [hget hqp], hm', ?_, by simpa [hqp] using hf'⟩
    rwa [Legal.takings_cons _ (by simp)]
  · by_cases hqp : q = p
    · rw [hqp, Heap.get_free, if_pos rfl] at hq
      cases hq
    · rw [hget hqp] at hq
      rcases h.live q hq with hq | hq
      · exact .inl hq
      · exact .inr ((List.mem_cons.1 hq).resolve_left hqp)

theorem add (h : Accounts records history pend) (node : Node ResourceItem) :
    Accounts (records.alloc node) (.added records.next node.item :: history) pend := by
  have hget : ∀ {q}, q ≠ records.next → (records.alloc node).get q = records.get q := fun hq => by
    rw [Heap.get_alloc, if_neg hq]
  refine ⟨⟨h.legal, fun r hr => Nat.lt_irrefl _ (h.added _ r hr)⟩, h.nodup, fun q hq => ?_, fun q hq => ?_,
    fun q r hq => ?_⟩
  · obtain ⟨hs, hm, ht, hf⟩ := h.owed q hq
    obtain ⟨n, hn⟩ := Option.isSome_iff_exists.1 hs
    have hne : q ≠ records.next := Nat.ne_of_lt (Heap.lt_next hn)
    refine ⟨by rwa [hget hne], ?_, by rwa [Legal.takings_cons _ (by simp)], by simpa using hf⟩
    rw [Multimap.of_cons, Multimap.apply, List.map_cons, List.mem_cons, not_or]
    exact ⟨hne, hm⟩
  · by_cases hne : q = records.next
    · exact .inl (by rw [hne, Multimap.of_cons, Multimap.apply]; simp)
    · rw [hget hne] at hq
      rcases h.live q hq with hq | hq
      · exact .inl (by rw [Multimap.of_cons, Multimap.apply, List.map_cons]; exact List.mem_cons_of_mem _ hq)
      · exact .inr hq
  · rw [Heap.alloc_next]
    rcases List.mem_cons.1 hq with hq | hq
    · cases hq
      exact Nat.lt_succ_self _
    · exact Nat.lt_succ_of_lt (h.added q r hq)

/-- An event that is about no record. -/
theorem other (h : Accounts records history pend) {e : Event} (hperm : Permitted (Multimap.of history) history e)
    (hm : (Multimap.of (e :: history)).map (·.record) = (Multimap.of history).map (·.record))
    (htaken : ∀ call p deleted, e ≠ .taken call p deleted) (hfreed : ∀ p, e ≠ .freed p) (hadded : ∀ p r, e ≠ .added p r) :
    Accounts records (e :: history) pend := by
  refine ⟨⟨h.legal, hperm⟩, h.nodup, fun q hq => ?_, fun q hq => ?_, fun q r hq => ?_⟩
  · obtain ⟨hs, hmem, ht, hf⟩ := h.owed q hq
    refine ⟨hs, by rwa [hm], by rwa [Legal.takings_cons _ fun call d => htaken call q d], fun hq => ?_⟩
    rcases List.mem_cons.1 hq with hq | hq
    · exact hfreed q hq.symm
    · exact hf hq
  · rw [hm]
    exact h.live q hq
  · rcases List.mem_cons.1 hq with hq | hq
    · exact absurd hq.symm (hadded q r)
    · exact h.added q r hq

end Accounts

/-! ### The stack -/

/-- What the calls of a delete function do to the table that others are at work on. -/
structure Shrinks (L L' : Nat → Nat → List ResourcePtr) (s s' : State) : Prop where
  hashsize : ∀ cid, (s'.clientTable cid).hashsize = (s.clientTable cid).hashsize
  inUse : ∀ cid, s'.inUse cid = s.inUse cid
  elements : ∀ cid, (s'.clientTable cid).elements ≤ (s.clientTable cid).elements
  sublist : ∀ cid j, (L' cid j).Sublist (L cid j)
  ids : ∀ p node', s'.records.get p = some node' → ∃ node, s.records.get p = some node ∧ node.item.id = node'.item.id

namespace Shrinks

theorem trans (h : Shrinks L L' s s') (h' : Shrinks L' L'' s' s'') : Shrinks L L'' s s'' where
  hashsize cid := (h'.hashsize cid).trans (h.hashsize cid)
  inUse cid := (h'.inUse cid).trans (h.inUse cid)
  elements cid := (h'.elements cid).trans (h.elements cid)
  sublist cid j := (h'.sublist cid j).trans (h.sublist cid j)
  ids p node hp := by
    obtain ⟨node', hp', hid⟩ := h'.ids p node hp
    obtain ⟨node'', hp'', hid'⟩ := h.ids p node' hp'
    exact ⟨node'', hp'', hid'.trans hid⟩

theorem of_linked (h : Linked s s') (hsub : ∀ cid j, (L' cid j).Sublist (L cid j)) : Shrinks L L' s s' where
  hashsize := h.hashsize
  inUse _ := h.inUse
  elements cid := (h.elements cid).le
  sublist := hsub
  ids p node' hp := by
    have hitem := h.items p
    rw [hp] at hitem
    obtain ⟨node, hget, hitem⟩ := Option.map_eq_some_iff.1 hitem.symm
    exact ⟨node, hget, congrArg (·.id) hitem⟩

theorem bucket (h : Shrinks L L' s s') (id : AuID) : s'.bucket id = s.bucket id := by
  rw [State.bucket, State.bucket, h.hashsize]

theorem hasId_false (h : Shrinks L L' s s') (hid : s.hasId id p = false) : s'.hasId id p = false := by
  rw [State.hasId] at hid ⊢
  rcases hp : s'.records.get p with _ | node'
  · rfl
  · obtain ⟨node, hget, heq⟩ := h.ids p node' hp
    rw [hget, Option.any_some] at hid
    rw [Option.any_some, ← heq]
    exact hid

end Shrinks

/-- `FreeResource` is behind a record of its chain, in front of which no record has the id. -/
structure Behind (L : Nat → Nat → List ResourcePtr) (s : State) (l : FreeLoop) (p : ResourcePtr) : Prop where
  own : ∀ node, s.records.get p = some node → clientId node.item.id = clientId l.id ∧ s.bucket node.item.id = l.head
  front : ∀ pre post, L (clientId l.id) l.head = pre ++ p :: post → ∀ q ∈ pre ++ [p], s.hasId l.id q = false

/-- What an operation relies on that waits for a delete function. -/
def Waiting (L : Nat → Nat → List ResourcePtr) (s : State) (stack : List Frame) : Frame → Prop
  | .addResourceDelete | .freeResourceByTypeDelete _ => True
  | .freeResourceDelete l res elements =>
    s.inUse (clientId l.id) = true ∧ l.head = s.bucket l.id ∧
      (s.clientTable (clientId l.id)).elements ≤ elements ∧
      ((s.clientTable (clientId l.id)).elements = elements →
        l.prev = .head l.head ∨ ∃ p, l.prev = .next p ∧ p ∉ res :: pending stack ∧ Behind L s l p)
  | .freeClientResourcesDelete client j _ => stack = [] ∧ s.inUse client = true ∧ ∀ i, i < j → L client i = []
  | .freeResource _ | .freeClientResources .. => False

/-- What a loop relies on. -/
def Looping (L : Nat → Nat → List ResourcePtr) (s : State) (stack : List Frame) : Frame → Prop
  | .freeResource l =>
    s.inUse (clientId l.id) = true ∧ l.head = s.bucket l.id ∧
      ∃ pre post, L (clientId l.id) l.head = pre ++ post ∧ l.prev = (Slot.head l.head).after pre ∧
        ∀ q ∈ pre, s.hasId l.id q = false
  | .freeClientResources client j => stack = [] ∧ s.inUse client = true ∧ ∀ i, i < j → L client i = []
  | _ => False

def AllWaiting (L : Nat → Nat → List ResourcePtr) (s : State) : List Frame → Prop
  | [] => True
  | f :: stack => Waiting L s stack f ∧ AllWaiting L s stack

/-- Below what runs, all wait. -/
def StackOk (L : Nat → Nat → List ResourcePtr) (s : State) : List Frame → Prop
  | [] => True
  | f :: stack => (if f.inDelete then Waiting L s stack f else Looping L s stack f) ∧ AllWaiting L s stack

theorem Behind.shrinks (h : Behind L s l p) (hs : Shrinks L L' s s') : Behind L' s' l p where
  own node' hp := by
    obtain ⟨node, hget, hid⟩ := hs.ids p node' hp
    rw [hs.bucket, ← hid]
    exact h.own node hget
  front pre post hL q hq := by
    -- what is in front of the record now was in front of it then
    have hsub := hs.sublist (clientId l.id) l.head
    rw [hL] at hsub
    obtain ⟨r₁, r₂, heq, h₁, h₂⟩ := List.append_sublist_iff.1 hsub
    obtain ⟨a, b, rfl⟩ := List.append_of_mem (h₂.subset List.mem_cons_self)
    refine hs.hasId_false (h.front (r₁ ++ a) b (by rw [heq, List.append_assoc]) q ?_)
    rcases List.mem_append.1 hq with hq | hq
    · exact List.mem_append_left _ (List.mem_append_left _ (h₁.subset hq))
    · exact List.mem_append_right _ hq

theorem Waiting.shrinks (h : Waiting L s stack f) (hs : Shrinks L L' s s') : Waiting L' s' stack f := by
  have hempty : ∀ {client j}, (∀ i, i < j → L client i = []) → ∀ i, i < j → L' client i = [] := fun {client j} hL i hi => by
    have hsub := hs.sublist client i
    rw [hL i hi] at hsub
    exact List.sublist_nil.1 hsub
  rcases f with _ | l | ⟨l, res, elements⟩ | res | ⟨client, j⟩ | ⟨client, j, this⟩
  · trivial
  · exact h
  · obtain ⟨hc, hhead, hle, hprev⟩ := h
    refine ⟨(hs.inUse _).trans hc, hhead.trans (hs.bucket _).symm, (hs.elements _).trans hle, fun heq => ?_⟩
    have hold : (s.clientTable (clientId l.id)).elements = elements := le_antisymm hle (heq ▸ hs.elements _)
    rcases hprev hold with hprev | ⟨p, hprev, hp, hbehind⟩
    · exact .inl hprev
    · exact .inr ⟨p, hprev, hp, hbehind.shrinks hs⟩
  · trivial
  · exact h
  · exact ⟨h.1, (hs.inUse _).trans h.2.1, hempty h.2.2⟩

theorem AllWaiting.shrinks (h : AllWaiting L s stack) (hs : Shrinks L L' s s') : AllWaiting L' s' stack := by
  induction stack with
  | nil => trivial
  | cons f stack ih => exact ⟨h.1.shrinks hs, ih h.2⟩

/-- An operation is called where all wait. -/
theorem StackOk.allWaiting (h : StackOk L s stack) (hd : stack.all (·.inDelete) = true) : AllWaiting L s stack := by
  rcases stack with _ | ⟨f, stack⟩
  · trivial
  · have hf : f.inDelete = true := List.all_eq_true.1 hd f List.mem_cons_self
    obtain ⟨hf', hrest⟩ := h
    rw [if_pos hf] at hf'
    exact ⟨hf', hrest⟩

theorem AllWaiting.stackOk (h : AllWaiting L s stack) : StackOk L s stack := by
  rcases stack with _ | ⟨f, stack⟩
  · trivial
  · obtain ⟨hf, hrest⟩ := h
    have hd : f.inDelete = true := by
      rcases f with _ | _ | _ | _ | _ | _
      all_goals first | rfl | exact hf.elim
    refine ⟨?_, hrest⟩
    rw [if_pos hd]
    exact hf

/-- Two states have the same table. -/
structure SameTable (s s' : State) : Prop where
  clientTable : s'.clientTable = s.clientTable
  records : s'.records = s.records

namespace SameTable

theorem tableOk (h : SameTable s s') (ht : TableOk L m s) : TableOk L m s' :=
  ht.congr (fun _ => by rw [h.clientTable]) (fun _ => by rw [h.clientTable]) h.records

theorem shrinks (h : SameTable s s') (L : Nat → Nat → List ResourcePtr) : Shrinks L L s s' where
  hashsize _ := by rw [h.clientTable]
  inUse _ := by rw [State.inUse, State.inUse, h.clientTable]
  elements _ := by rw [h.clientTable]
  sublist _ _ := .refl _
  ids p node hp := ⟨node, h.records ▸ hp, rfl⟩

theorem looping (h : SameTable s s') (hl : Looping L s stack f) : Looping L s' stack f := by
  have hs := h.shrinks L
  rcases f with _ | l | _ | _ | ⟨client, j⟩ | _
  all_goals try exact hl
  · obtain ⟨hc, hhead, pre, post, hL, hprev, hpre⟩ := hl
    exact ⟨(hs.inUse _).trans hc, hhead.trans (hs.bucket _).symm, pre, post, hL, hprev,
      fun q hq => hs.hasId_false (hpre q hq)⟩
  · exact ⟨hl.1, (hs.inUse _).trans hl.2.1, hl.2.2⟩

theorem stackOk (h : SameTable s s') (hs : StackOk L s stack) : StackOk L s' stack := by
  rcases stack with _ | ⟨f, stack⟩
  · trivial
  · obtain ⟨hf, hrest⟩ := hs
    refine ⟨?_, hrest.shrinks (h.shrinks L)⟩
    split at hf <;> rename_i hd
    · rw [if_pos hd]
      exact hf.shrinks (h.shrinks L)
    · rw [if_neg hd]
      exact h.looping hf

end SameTable

structure Inv (L : Nat → Nat → List ResourcePtr) (s : State) : Prop where
  table : TableOk L (Multimap.of s.history) s
  accounts : Accounts s.records s.history (pending s.stack)
  stack : StackOk L s s.stack

/-- The table is that of another state. -/
theorem Inv.of_same (h : SameTable s s') (ht : TableOk L (Multimap.of s'.history) s)
    (ha : Accounts s.records s'.history (pending s'.stack)) (hst : StackOk L s s'.stack) : Inv L s' :=
  ⟨h.tableOk ht, h.records ▸ ha, h.stackOk hst⟩

/-! ### Taking a record out -/

theorem Accounts.linked (h : Accounts s.records history pend) (hl : Linked s s') :
    Accounts s'.records history pend := by
  refine h.congr (fun p => ?_) hl.next
  have hitem := congrArg Option.isSome (hl.items p)
  rwa [Option.isSome_map, Option.isSome_map] at hitem

/-- A record that is the first of its id in its chain that a call wants is taken out. -/
theorem take_spec (call : Call) (ht : TableOk L (Multimap.of s.history) s) (ha : Accounts s.records s.history pend)
    (hj : j < (s.clientTable cid).resources.length) (hL : L cid j = pre ++ p :: post)
    (hget : s.records.get p = some node) (hwants : call.wants node.item = true)
    (hpre : ∀ q ∈ pre, ∀ n, s.records.get q = some n → n.item.id = node.item.id → call.wants n.item = false) :
    ∃ s', s.writeSlot cid ((Slot.head j).after pre) node.next = .ok s' ∧ Linked s s' ∧
      Shrinks L (without p L) s s' ∧
      TableOk (without p L) (Multimap.of (.taken call p (call.deletes node.item) :: s.history)) s' ∧
      Accounts s'.records (.taken call p (call.deletes node.item) :: s.history) (p :: pend) := by
  obtain ⟨s', hwrite, hl, htable⟩ := ht.take hj hL hget
  refine ⟨s', hwrite, hl, .of_linked hl fun cid j => List.filter_sublist, htable, ?_⟩
  refine (ha.take (by rw [hget]; rfl) ?_).linked hl
  obtain ⟨node', hget', rfl, rfl⟩ := ht.label cid j p (by rw [hL]; simp)
  cases hget.symm.trans hget'
  refine ht.first (w := fun r => r.id = node.item.id && call.wants r) hL hget (by simp [hwants]) (fun r hr => ?_)
    fun q hq n hn => ?_
  · simp only [Bool.and_eq_true, decide_eq_true_eq] at hr
    exact hr.1
  · by_cases hid : n.item.id = node.item.id
    · simp [hid, hpre q hq n hn hid]
    · simp [hid]

/-- What is in no chain is freed. -/
theorem Shrinks.free (L : Nat → Nat → List ResourcePtr) (s : State) (p : ResourcePtr) :
    Shrinks L L s { s with records := s.records.free p } where
  hashsize _ := rfl
  inUse _ := rfl
  elements _ := le_rfl
  sublist _ _ := .refl _
  ids q node hq := by
    replace hq : (s.records.free p).get q = some node := hq
    rw [Heap.get_free] at hq
    split at hq
    · cases hq
    · exact ⟨node, hq, rfl⟩

/-- `xfree` of the record that a delete function was called for. -/
theorem free_spec (ht : TableOk L (Multimap.of s.history) s) (ha : Accounts s.records s.history (p :: pend)) :
    ∃ s', s.free p = .ok s' ∧ s' = { s with records := s.records.free p, history := .freed p :: s.history } ∧
      TableOk L (Multimap.of s'.history) s' ∧ Accounts s'.records s'.history pend ∧ Shrinks L L s s' := by
  obtain ⟨hsome, hm, -, -⟩ := ha.owed p (by simp)
  have hlive : s.records.live p = true := hsome
  refine ⟨_, by rw [State.free, if_pos hlive]; rfl, rfl, ?_, ha.free, ?_⟩
  · exact (ht.free hm).congr (fun _ => rfl) (fun _ => rfl) rfl
  · have h := Shrinks.free L s p
    exact ⟨h.hashsize, h.inUse, h.elements, h.sublist, h.ids⟩

/-- `--*eltptr` -/
theorem decrement_spec (ht : TableOk L m s) (cid : Nat) :
    TableOk L m (s.modifyClient cid fun rrec => { rrec with elements := rrec.elements - 1 }) ∧
      Shrinks L L s (s.modifyClient cid fun rrec => { rrec with elements := rrec.elements - 1 }) := by
  generalize hs' : (s.modifyClient cid fun rrec => { rrec with elements := rrec.elements - 1 }) = s'
  have htable : ∀ c, s'.clientTable c = if c = cid then
      { s.clientTable cid with elements := (s.clientTable cid).elements - 1 } else s.clientTable c := fun c => by
    rw [← hs']
    exact clientTable_modifyClient c
  have hresources : ∀ c, (s'.clientTable c).resources = (s.clientTable c).resources := fun c => by
    rw [htable]
    by_cases hc : c = cid
    · rw [if_pos hc, hc]
    · rw [if_neg hc]
  have hhashsize : ∀ c, (s'.clientTable c).hashsize = (s.clientTable c).hashsize := fun c => by
    rw [htable]
    by_cases hc : c = cid
    · rw [if_pos hc, hc]
    · rw [if_neg hc]
  have hrecords : s'.records = s.records := by
    rw [← hs']
    rfl
  refine ⟨ht.congr hresources hhashsize hrecords, hhashsize, fun c => ?_, fun c => ?_, fun _ _ => .refl _,
    fun q n hn => ⟨n, hrecords ▸ hn, rfl⟩⟩
  · rw [State.inUse, State.inUse, hresources]
  · rw [htable]
    by_cases hc : c = cid
    · rw [if_pos hc, hc]
      exact Int.sub_le_self _ (by omega)
    · rw [if_neg hc]

theorem hasId_false_iff : s.hasId id p = false ↔ ∀ n, s.records.get p = some n → n.item.id ≠ id := by
  rw [State.hasId]
  rcases s.records.get p with _ | node
  · simp
  · simp

/-! ### The loops -/

/-- `FreeResource` behind a record that it has come by. -/
theorem waiting_after (ht : TableOk L m s) (hcu : s.inUse (clientId l.id) = true) (hhead : l.head = s.bucket l.id)
    (hL : L (clientId l.id) l.head = pre ++ post) (hpre : ∀ q ∈ pre, s.hasId l.id q = false)
    (hbelow : ∀ q ∈ pre, q ∉ p :: pending stack) (elements : Int)
    (hle : (s.clientTable (clientId l.id)).elements ≤ elements) :
    Waiting L s stack (.freeResourceDelete { l with prev := (Slot.head l.head).after pre } p elements) := by
  refine ⟨hcu, hhead, hle, fun _ => ?_⟩
  rcases List.eq_nil_or_concat' pre with rfl | ⟨pre, q, rfl⟩
  · exact .inl rfl
  refine .inr ⟨q, Slot.after_concat .., hbelow q (by simp), ⟨fun n hn => ?_, fun pre₁ post₁ heq => ?_⟩⟩
  · obtain ⟨n', hn', hcid, hhash⟩ := ht.label (clientId l.id) l.head q (by rw [hL]; simp)
    cases hn.symm.trans hn'
    refine ⟨hcid, ?_⟩
    show s.bucket n.item.id = l.head
    rw [← hhash, State.bucket, hcid]
  · -- the record stands in its chain once
    have hnodup := ht.chain_nodup (clientId l.id) l.head
    replace heq : L (clientId l.id) l.head = pre₁ ++ q :: post₁ := heq
    rw [heq] at hnodup hL
    rw [List.nodup_middle, List.nodup_cons, List.mem_append, not_or] at hnodup
    rw [List.append_assoc, List.singleton_append] at hL
    obtain ⟨rfl, -, -⟩ := (List.append_cons_inj_of_notMem hnodup.1.1 hnodup.1.2).1 hL
    exact hpre

theorem freeResourceLoop_spec (ht : TableOk L (Multimap.of s.history) s)
    (ha : Accounts s.records s.history (pending stack)) (hl : Looping L s stack (.freeResource l))
    (hw : AllWaiting L s stack) (hstack : s.stack = .freeResource l :: stack) :
    ∃ s' L', freeResourceLoop l stack s = .ok s' ∧ Inv L' s' := by
  obtain ⟨hcu, hhead, pre, rest, hL, hprev, hpre⟩ := hl
  have hj : l.head < (s.clientTable (clientId l.id)).resources.length := by
    rw [hhead]
    exact ht.bucket_lt hcu
  unfold freeResourceLoop
  rw [hprev]
  rcases ht.search hj hL (fun r => decide (r.id = l.id)) with
    ⟨hsearch, hnone⟩ | ⟨mid, p, post, node, rfl, hget, hwn, hmid, hsearch⟩
  · rw [hsearch, Exec.ok_bind]
    dsimp only
    by_cases hgot : l.gotOne = true
    · rw [if_pos hgot]
      have hall : ∀ e ∈ Multimap.of s.history, decide (e.item.id = l.id) = false := by
        refine ht.none_wanted (w := fun r => decide (r.id = l.id)) (fun r hr => of_decide_eq_true hr) fun q hq n hn => ?_
        rw [← hhead, hL] at hq
        rcases List.mem_append.1 hq with hq | hq
        · exact decide_eq_false (hasId_false_iff.1 (hpre q hq) n hn)
        · exact hnone q hq n hn
      exact ⟨_, L, rfl, .of_same (s := s) ⟨rfl, rfl⟩ ht (ha.other hall rfl (by simp) (by simp) (by simp)) hw.stackOk⟩
    · rw [if_neg hgot]
      refine ⟨_, L, rfl, .of_same (s := s) ⟨rfl, rfl⟩ ht ?_ ?_⟩
      · show Accounts s.records s.history (pending s.stack)
        rw [hstack]
        exact ha
      · show StackOk L s s.stack
        rw [hstack]
        exact ⟨⟨hcu, hhead, pre, rest, hL, hprev, hpre⟩, hw⟩
  rw [hsearch, Exec.ok_bind]
  dsimp only
  have hid : node.item.id = l.id := of_decide_eq_true hwn
  have hL' : L (clientId l.id) l.head = (pre ++ mid) ++ p :: post := by rw [hL, List.append_assoc]
  have hfront : ∀ q ∈ pre ++ mid, s.hasId l.id q = false := fun q hq => by
    rcases List.mem_append.1 hq with hq | hq
    · exact hpre q hq
    · exact hasId_false_iff.2 fun n hn => of_decide_eq_false (hmid q hq n hn)
  obtain ⟨s₁, hwrite, hlinked, hshrinks, ht₁, ha₁⟩ := take_spec
    (.freeResource l.id l.skipDeleteFuncType) ht ha hj hL' hget (by simpa [Call.wants] using hid)
    fun q hq n hn hnid => absurd (hnid.trans hid) (hasId_false_iff.1 (hfront q hq) n hn)
  rw [hwrite, Exec.ok_bind]
  obtain ⟨ht₂, hs₂⟩ := decrement_spec ht₁ (clientId l.id)
  generalize hs₂def : s₁.modifyClient (clientId l.id) (fun rrec => { rrec with elements := rrec.elements - 1 }) = s₂
    at ht₂ hs₂
  have hrecords : s₂.records = s₁.records := by
    rw [← hs₂def]
    rfl
  have hhistory : s₂.history = s.history := by
    rw [← hs₂def]
    exact hlinked.history
  rw [← hrecords] at ha₁
  replace hs₂ := hshrinks.trans hs₂
  have hchain₂ : without p L (clientId l.id) l.head = (pre ++ mid) ++ post := by
    rw [without, hL', without_self]
    rw [← hL']
    exact ht.chain_nodup _ _
  have hcu₂ := (hs₂.inUse (clientId l.id)).trans hcu
  have hhead₂ := hhead.trans (hs₂.bucket l.id).symm
  have hfront₂ : ∀ q ∈ pre ++ mid, s₂.hasId l.id q = false := fun q hq => hs₂.hasId_false (hfront q hq)
  by_cases hskip : node.item.type ≠ l.skipDeleteFuncType
  · rw [if_pos hskip]
    have hdel : (Call.freeResource l.id l.skipDeleteFuncType).deletes node.item = some node.item := by
      rw [Call.deletes, if_neg (by simpa [Call.skips] using hskip)]
    rw [hdel, ← hhistory] at ht₂ ha₁
    refine ⟨_, without p L, rfl, .of_same (s := s₂) ⟨rfl, rfl⟩ ht₂ ha₁ ⟨?_, hw.shrinks hs₂⟩⟩
    rw [if_pos (by rfl)]
    refine waiting_after ht₂ hcu₂ hhead₂ hchain₂ hfront₂ (fun q hq hmem => ?_) _ le_rfl
    -- what is in the chain is not waited for
    obtain ⟨e, he, rfl⟩ : ∃ e ∈ Multimap.of s.history, e.record = q :=
      ht.mem_of_chain (show q ∈ L (clientId l.id) l.head by rw [hL']; exact List.mem_append_left _ hq)
    have hqp : e.record ≠ p := by
      intro heq
      have hnodup := ht.chain_nodup (clientId l.id) l.head
      rw [hL', ← heq] at hnodup
      exact List.disjoint_of_nodup_append hnodup hq List.mem_cons_self
    exact (ha.owed e.record ((List.mem_cons.1 hmem).resolve_left hqp)).2.1 (List.mem_map_of_mem he)
  · rw [if_neg hskip]
    have hdel : (Call.freeResource l.id l.skipDeleteFuncType).deletes node.item = none := by
      rw [Call.deletes, if_pos (by simpa [Call.skips] using hskip)]
    rw [hdel, ← hhistory] at ht₂ ha₁
    have hnote : SameTable s₂ (s₂.note (.taken (.freeResource l.id l.skipDeleteFuncType) p none)) := ⟨rfl, rfl⟩
    obtain ⟨s₃, hfree, -, ht₃, ha₃, hs₃⟩ :=
      free_spec (s := s₂.note (.taken (.freeResource l.id l.skipDeleteFuncType) p none)) (hnote.tableOk ht₂) ha₁
    rw [hfree, Exec.ok_bind]
    replace hs₃ := (hs₂.trans (hnote.shrinks _)).trans hs₃
    refine ⟨_, without p L, rfl, .of_same (s := s₃) ⟨rfl, rfl⟩ ht₃ ha₃ ⟨?_, hw.shrinks hs₃⟩⟩
    rw [if_neg (by simp [Frame.inDelete])]
    exact ⟨(hs₃.inUse _).trans hcu, hhead.trans (hs₃.bucket _).symm, pre ++ mid, post, hchain₂, rfl,
      fun q hq => hs₃.hasId_false (hfront q hq)⟩

theorem freeClientResourcesLoop_spec {client : Nat} (ht : TableOk L (Multimap.of s.history) s)
    (ha : Accounts s.records s.history (pending stack)) (hl : Looping L s stack (.freeClientResources client j))
    (hw : AllWaiting L s stack) :
    ∃ s' L', freeClientResourcesLoop client j stack s = .ok s' ∧ Inv L' s' := by
  obtain ⟨hbottom, hcu, hempty⟩ := hl
  unfold freeClientResourcesLoop
  by_cases hj : j < (s.clientTable client).resources.length
  swap
  · -- the chains are empty
    rw [if_neg hj]
    have hall : ∀ i, L client i = [] := fun i => by
      rcases Nat.lt_or_ge i j with hi | hi
      · exact hempty i hi
      · exact ht.outside client i (by omega)
    have hnone : ∀ e ∈ Multimap.of s.history, (Call.freeClientResources client).wants e.item = false := fun e he => by
      have hmem := ht.mem_chain he
      by_contra hwants
      rw [Call.wants, decide_eq_false_iff_not, not_not] at hwants
      rw [hwants, hall] at hmem
      cases hmem
    have ht' := ht.modifyClient hall ({ · with resources := [] }) (.inl rfl) fun i head hi => by cases hi
    refine ⟨_, L, rfl, .of_same (s := s.modifyClient client ({ · with resources := [] })) ⟨rfl, rfl⟩ ht' ?_ ?_⟩
    · exact ha.other hnone rfl (by simp) (by simp) (by simp)
    · rw [hbottom]
      trivial
  rw [if_pos hj]
  have hhead := List.getElem?_eq_getElem hj
  generalize (s.clientTable client).resources[j] = head at hhead
  have hread : s.readSlot client (.head j) = .ok head := by
    rw [State.readSlot, Slot.read, hhead, Exec.deref_some]
  have hseg := ht.chain client j head hhead
  rw [hread, Exec.ok_bind]
  rcases hL : L client j with _ | ⟨p, post⟩
  · rw [hL] at hseg
    cases hseg
    refine ⟨_, L, rfl, .of_same (s := s) ⟨rfl, rfl⟩ ht ha ⟨?_, hw⟩⟩
    rw [if_neg (by simp [Frame.inDelete])]
    refine ⟨hbottom, hcu, fun i hi => ?_⟩
    rcases Nat.lt_succ_iff_lt_or_eq.1 hi with hi | rfl
    · exact hempty i hi
    · exact hL
  · rw [hL] at hseg
    obtain ⟨rfl, node, hget, -⟩ := hseg
    dsimp only
    rw [hget, Exec.deref_some, Exec.ok_bind]
    obtain ⟨node', hget', hcid, -⟩ := ht.label client j p (by rw [hL]; simp)
    cases hget.symm.trans hget'
    obtain ⟨s₁, hwrite, hlinked, hshrinks, ht₁, ha₁⟩ := take_spec
      (.freeClientResources client) ht ha hj (show L client j = [] ++ p :: post from hL) hget (by simpa [Call.wants] using hcid)
      fun q hq => by cases hq
    rw [Slot.after_nil] at hwrite
    rw [hwrite, Exec.ok_bind]
    have hdel : (Call.freeClientResources client).deletes node.item = some node.item := rfl
    rw [hdel, ← hlinked.history] at ht₁ ha₁
    refine ⟨_, without p L, rfl, .of_same (s := s₁) ⟨rfl, rfl⟩ ht₁ ha₁ ⟨?_, hw.shrinks hshrinks⟩⟩
    rw [if_pos (by rfl)]
    refine ⟨hbottom, (hshrinks.inUse _).trans hcu, fun i hi => ?_⟩
    rw [without, hempty i hi]
    rfl

/-! ### Calls -/

theorem freeResourceByType_spec (h : Inv L s) (hd : s.stack.all (·.inDelete) = true) (id : AuID) (type : ResType)
    (skipFree : Bool) : ∃ s' L', freeResourceByType id type skipFree s = .ok s' ∧ Inv L' s' := by
  have hw := h.stack.allWaiting hd
  unfold freeResourceByType
  by_cases hcu : s.inUse (clientId id) = true
  swap
  · rw [if_pos hcu]
    exact ⟨s, L, rfl, h⟩
  rw [if_neg (by simpa using hcu)]
  have hj := h.table.bucket_lt hcu
  rcases h.table.search_head hj (fun r => decide (r.id = id ∧ r.type = type)) with
    ⟨hsearch, -⟩ | ⟨mid, p, post, node, hL, hget, hwn, hmid, hsearch⟩
  · rw [hsearch, Exec.ok_bind]
    exact ⟨s, L, rfl, h⟩
  rw [hsearch, Exec.ok_bind]
  dsimp only
  obtain ⟨hid, htype⟩ := of_decide_eq_true hwn
  obtain ⟨s₁, hwrite, hlinked, hshrinks, ht₁, ha₁⟩ := take_spec
    (.freeResourceByType id type skipFree) h.table h.accounts hj hL hget hwn fun q hq n hn _ => hmid q hq n hn
  rw [hwrite, Exec.ok_bind]
  have hdel : (Call.freeResourceByType id type skipFree).deletes node.item = if skipFree then none else some node.item :=
    rfl
  rw [hdel, ← hlinked.history] at ht₁ ha₁
  have hw₁ := hw.shrinks hshrinks
  rcases skipFree with _ | _
  · rw [if_pos (by simp)]
    refine ⟨_, without p L, rfl, .of_same (s := s₁) ⟨rfl, rfl⟩ ht₁ ?_ ?_⟩
    · show Accounts s₁.records _ (p :: pending s₁.stack)
      rw [hlinked.stack]
      exact ha₁
    · show StackOk _ s₁ (.freeResourceByTypeDelete p :: s₁.stack)
      rw [hlinked.stack]
      exact ⟨trivial, hw₁⟩
  · rw [if_neg (by simp)]
    have hnote : SameTable s₁ (s₁.note (.taken (.freeResourceByType id type true) p none)) := ⟨rfl, rfl⟩
    obtain ⟨s₂, hfree, hs₂, ht₂, ha₂, hshrinks₂⟩ :=
      free_spec (s := s₁.note (.taken (.freeResourceByType id type true) p none)) (hnote.tableOk ht₁) ha₁
    have hstack : s₂.stack = s.stack := by
      rw [hs₂]
      exact hlinked.stack
    refine ⟨s₂, without p L, hfree, ht₂, ?_, ?_⟩
    · rw [hstack]
      exact ha₂
    · rw [hstack]
      exact ((hw₁.shrinks (hnote.shrinks _)).shrinks hshrinks₂).stackOk

theorem changeResourceValue_spec (h : Inv L s) (hd : s.stack.all (·.inDelete) = true) (id : AuID) (type : ResType)
    (value : Pointer) : ∃ done s', changeResourceValue id type value s = .ok (done, s') ∧ Inv L s' := by
  have hw := h.stack.allWaiting hd
  unfold changeResourceValue
  by_cases hcu : s.inUse (clientId id) = true
  swap
  · rw [if_pos hcu]
    exact ⟨false, s, rfl, h⟩
  rw [if_neg (by simpa using hcu)]
  have hj := h.table.bucket_lt hcu
  rcases h.table.search_head hj (fun r => decide (r.id = id ∧ r.type = type)) with
    ⟨hsearch, -⟩ | ⟨mid, p, post, node, hL, hget, hwn, hmid, hsearch⟩
  · rw [hsearch, Exec.ok_bind]
    exact ⟨false, s, rfl, h⟩
  rw [hsearch, Exec.ok_bind]
  dsimp only
  obtain ⟨hid, htype⟩ := of_decide_eq_true hwn
  have hfind : (Multimap.of s.history).find? (fun e => decide (e.item.id = id ∧ e.item.type = type)) =
      some ⟨p, node.item⟩ := by
    subst hid
    exact h.table.first (w := fun r => decide (r.id = node.item.id ∧ r.type = type)) hL hget hwn
      (fun r hr => (of_decide_eq_true hr).1) hmid
  generalize hs₁ : ({ s with records := s.records.modify p fun res =>
    { res with item := { res.item with value } } } : State) = s₁
  have ht₁ : TableOk L (Multimap.change id type value (Multimap.of s.history)) s₁ := hs₁ ▸ h.table.change value hfind
  have hget₁ : ∀ q, s₁.records.get q = if q = p then (s.records.get q).map fun res =>
      { res with item := { res.item with value } } else s.records.get q := fun q => by
    rw [← hs₁]
    exact Heap.get_modify
  have hshrinks : Shrinks L L s s₁ := by
    refine ⟨fun _ => by rw [← hs₁], fun _ => by rw [← hs₁]; rfl, fun _ => by rw [← hs₁], fun _ _ => .refl _,
      fun q node' hq => ?_⟩
    rw [hget₁] at hq
    split at hq
    · obtain ⟨n, hn, rfl⟩ := Option.map_eq_some_iff.1 hq
      exact ⟨n, hn, rfl⟩
    · exact ⟨node', hq, rfl⟩
  have hhistory : s₁.history = s.history := by rw [← hs₁]
  have hstack : s₁.stack = s.stack := by rw [← hs₁]
  refine ⟨true, _, rfl, .of_same (s := s₁) ⟨rfl, rfl⟩ ?_ ?_ ?_⟩
  · show TableOk L (Multimap.of (_ :: s₁.history)) s₁
    rw [hhistory]
    exact ht₁
  · show Accounts s₁.records (_ :: s₁.history) (pending s₁.stack)
    rw [hhistory, hstack]
    refine Accounts.other (h.accounts.congr (fun q => ?_) (by rw [← hs₁]; rfl)) trivial
      (Multimap.map_record_change ..) (by simp) (by simp) (by simp)
    rw [hget₁]
    split
    · rw [Option.isSome_map]
    · rfl
  · show StackOk L s₁ s₁.stack
    rw [hstack]
    exact (hw.shrinks hshrinks).stackOk

theorem growTable_spec (h : TableOk L m s) (hc : s.inUse cid = true) (mem : Bool) :
    ∃ s' L', growTable mem cid s = .ok s' ∧ TableOk L' m s' ∧ s'.stack = s.stack ∧ s'.history = s.history ∧
      s'.records.next = s.records.next ∧
      (∀ p, (s'.records.get p).map (·.item) = (s.records.get p).map (·.item)) ∧ ∀ c, s'.inUse c = s.inUse c := by
  unfold growTable
  split
  · rename_i hgrow
    obtain ⟨s', L', he, ht, hstack, hhistory, -, hnext, hitems, hinUse⟩ := rebuildTable_spec h hc hgrow.2 mem
    exact ⟨s', L', he, ht, hstack, hhistory, hnext, hitems, hinUse⟩
  · exact ⟨s, L, rfl, h, rfl, rfl, rfl, fun _ => rfl, fun _ => rfl⟩

theorem addResource_spec (h : Inv L s) (hstack : s.stack = []) (tableMem recMem : Bool) (id : AuID) (type : ResType)
    (value : Pointer) : ∃ s' L', addResource tableMem recMem id type value s = .ok s' ∧ Inv L' s' := by
  unfold addResource
  dsimp only
  by_cases hcu : s.inUse (clientId id) = true
  swap
  · rw [if_pos hcu]
    exact ⟨s, L, rfl, h⟩
  rw [if_neg (by simpa using hcu)]
  obtain ⟨s₁, L₁, hgrow, ht₁, hstack₁, hhistory₁, hnext₁, hitems₁, hinUse₁⟩ := growTable_spec h.table hcu tableMem
  rw [hgrow, Exec.ok_bind]
  rw [← hhistory₁] at ht₁
  have hnil : s₁.stack = [] := hstack₁.trans hstack
  have ha₁ : Accounts s₁.records s₁.history [] := by
    rw [hhistory₁]
    have ha := h.accounts
    rw [hstack] at ha
    refine ha.congr (fun p => ?_) hnext₁
    have hitem := congrArg Option.isSome (hitems₁ p)
    rwa [Option.isSome_map, Option.isSome_map] at hitem
  rcases recMem with _ | _
  · rw [if_pos (by simp)]
    refine ⟨_, L₁, rfl, .of_same (s := s₁) ⟨rfl, rfl⟩ ht₁ ?_ ?_⟩
    · show Accounts s₁.records s₁.history (pending (.addResourceDelete :: s₁.stack))
      rw [hnil]
      exact ha₁
    · show StackOk L₁ s₁ (.addResourceDelete :: s₁.stack)
      rw [hnil]
      exact ⟨trivial, trivial⟩
  rw [if_neg (by simp)]
  have hj := ht₁.bucket_lt ((hinUse₁ (clientId id)).trans hcu)
  have hfirst := List.getElem?_eq_getElem hj
  generalize (s₁.clientTable (clientId id)).resources[s₁.bucket id] = first at hfirst
  have hread : s₁.readSlot (clientId id) (.head (s₁.bucket id)) = .ok first := by
    rw [State.readSlot, Slot.read, hfirst, Exec.deref_some]
  obtain ⟨s₂, hwrite, hlinked, hget₂, ht₂⟩ := ht₁.add ⟨id, type, value⟩ hfirst
  rw [hread, Exec.ok_bind, hwrite, Exec.ok_bind]
  -- the counts
  generalize hs₃ : s₂.modifyClient (clientId id) (fun rrec => { rrec with
    elements := rrec.elements + 1
    expectID := if id &&& serverBit = 0 ∧ id ≥ rrec.expectID then id + 1 else rrec.expectID }) = s₃
  have htable₃ : ∀ c, s₃.clientTable c = if c = clientId id then
      { s₂.clientTable (clientId id) with
        elements := (s₂.clientTable (clientId id)).elements + 1
        expectID := if id &&& serverBit = 0 ∧ id ≥ (s₂.clientTable (clientId id)).expectID then id + 1
          else (s₂.clientTable (clientId id)).expectID } else s₂.clientTable c := fun c => by
    rw [← hs₃]
    exact clientTable_modifyClient c
  have hrecords : s₃.records = s₂.records := by
    rw [← hs₃]
    rfl
  have hhistory : s₃.history = s₁.history := by
    rw [← hs₃]
    exact hlinked.history
  have hstack₃ : s₃.stack = [] := by
    rw [← hs₃]
    exact hlinked.stack.trans hnil
  refine ⟨_, TableOk.insertAt (clientId id) (s₁.bucket id) s₁.records.next L₁, rfl,
    .of_same (s := s₃) ⟨rfl, rfl⟩ ?_ ?_ ?_⟩
  · show TableOk _ (Multimap.of (_ :: s₃.history)) s₃
    rw [hhistory]
    refine ht₂.congr (fun c => ?_) (fun c => ?_) hrecords
    · rw [htable₃]
      by_cases hc : c = clientId id
      · rw [if_pos hc, hc]
      · rw [if_neg hc]
    · rw [htable₃]
      by_cases hc : c = clientId id
      · rw [if_pos hc, hc]
      · rw [if_neg hc]
  · show Accounts s₃.records (_ :: s₃.history) (pending s₃.stack)
    rw [hhistory, hstack₃, hrecords]
    refine (ha₁.add ⟨⟨id, type, value⟩, first⟩).congr (fun p => by rw [hget₂]) hlinked.next
  · show StackOk _ s₃ s₃.stack
    rw [hstack₃]
    trivial

theorem initClientResources_spec {client : Nat} (h : Inv L s) (hstack : s.stack = []) (hfree : s.inUse client = false) :
    Inv L (initClientResources client s) := by
  have hempty : ∀ j, L client j = [] := fun j => by
    refine h.table.outside client j ?_
    have hlen := mt inUse_iff.2 (by rw [hfree]; simp : ¬ s.inUse client = true)
    omega
  have ht := h.table.modifyClient hempty
    (fun _ =>
      { resources := List.replicate initBuckets none, elements := 0, hashsize := initHashSize
        expectID := client * 2 ^ 22 })
    (.inr ⟨(show 6 ≤ 6 ∧ 6 ≤ 11 by decide), List.length_replicate⟩)
    fun i head hi => (List.mem_replicate.1 (List.mem_of_getElem? hi)).2
  refine ⟨ht, h.accounts, ?_⟩
  show StackOk L _ s.stack
  rw [hstack]
  trivial

theorem freeResource_spec (h : Inv L s) (hd : s.stack.all (·.inDelete) = true) (id : AuID)
    (skipDeleteFuncType : ResType) : Inv L (freeResource id skipDeleteFuncType s) := by
  have hw := h.stack.allWaiting hd
  unfold freeResource
  by_cases hcu : s.inUse (clientId id) = true
  · rw [if_pos hcu]
    refine .of_same (s := s) ⟨rfl, rfl⟩ h.table h.accounts ⟨?_, hw⟩
    rw [if_neg (by simp [Frame.inDelete])]
    exact ⟨hcu, rfl, [], _, rfl, rfl, fun q hq => by cases hq⟩
  · rw [if_neg hcu]
    exact .of_same (s := s) ⟨rfl, rfl⟩ h.table h.accounts h.stack

/-! ### Returns -/

/-- When a delete function returns to `FreeResource`, and the count of elements is what it was, the record that the
loop is behind was not freed. -/
def Kept (s : State) : Input → Bool
  | .deleteReturns =>
    match s.stack with
    | .freeResourceDelete l _ elements :: _ =>
      decide ((s.clientTable (clientId l.id)).elements ≠ elements) ||
        match l.prev with
        | .head _ => true
        | .next p => s.records.live p
    | _ => true
  | _ => true

/-- `FreeResource` goes on. -/
theorem freeResourceReturn_spec {res : ResourcePtr} {elements : Int} (ht : TableOk L (Multimap.of s.history) s)
    (ha : Accounts s.records s.history (res :: pending stack))
    (hl : Waiting L s stack (.freeResourceDelete l res elements)) (hw : AllWaiting L s stack) :
    ∃ s', freeResourceReturn l res elements stack s = .ok s' ∧
      ((s.clientTable (clientId l.id)).elements ≠ elements ∨ (∀ p, l.prev = .next p → s.records.live p = true) →
        Inv L s') := by
  obtain ⟨hcu, hhead, -, hprev⟩ := hl
  obtain ⟨s₁, hfree, hs₁, ht₁, ha₁, hshrinks⟩ := free_spec ht ha
  unfold freeResourceReturn
  rw [hfree, Exec.ok_bind]
  have helements : (s₁.clientTable (clientId l.id)).elements = (s.clientTable (clientId l.id)).elements := by rw [hs₁]
  dsimp only
  rw [helements]
  refine ⟨_, rfl, fun hkept => .of_same (s := s₁) ⟨rfl, rfl⟩ ht₁ ha₁ ⟨?_, hw.shrinks hshrinks⟩⟩
  rw [if_neg (by simp [Frame.inDelete])]
  refine ⟨(hshrinks.inUse _).trans hcu, hhead.trans (hshrinks.bucket _).symm, ?_⟩
  -- from the head on, or from behind the record
  have hstart : ∃ pre post, L (clientId l.id) l.head = pre ++ post ∧ Slot.head l.head = (Slot.head l.head).after pre ∧
      ∀ q ∈ pre, s₁.hasId l.id q = false := ⟨[], _, rfl, rfl, fun q hq => by cases hq⟩
  by_cases heq : (s.clientTable (clientId l.id)).elements = elements
  swap
  · rw [if_pos heq]
    exact hstart
  rw [if_neg (not_not.2 heq)]
  rcases hprev heq with hprev | ⟨p, hprev, hp, hbehind⟩
  · rw [hprev]
    exact hstart
  have hlive := (hkept.resolve_left (not_not.2 heq)) p hprev
  obtain ⟨node, hget⟩ := Option.isSome_iff_exists.1 hlive
  -- the record is still in its chain
  have hmem : p ∈ L (clientId l.id) l.head := by
    obtain ⟨e, he, rfl⟩ := List.mem_map.1 ((ha.live p hlive).resolve_right hp)
    have hchain := ht.mem_chain he
    obtain ⟨node', hget', hitem⟩ := ht.entry e he
    obtain ⟨hcid, hbucket⟩ := hbehind.own node' hget'
    rw [← hitem, hcid, hbucket] at hchain
    exact hchain
  obtain ⟨pre, post, hL⟩ := List.append_of_mem hmem
  refine ⟨pre ++ [p], post, by rw [hL]; simp, by rw [hprev, Slot.after_concat], fun q hq => ?_⟩
  exact hshrinks.hasId_false (hbehind.front pre post hL q hq)

theorem deleteReturns_spec (h : Inv L s) :
    ∃ s', deleteReturns s = .ok s' ∧ (Kept s .deleteReturns = true → Inv L s') := by
  obtain ⟨ht, ha, hst⟩ := h
  unfold deleteReturns
  rcases hstack : s.stack with _ | ⟨f, stack⟩
  · exact ⟨s, rfl, fun _ => ⟨ht, ha, hst⟩⟩
  rw [hstack] at ha hst
  obtain ⟨hf, hw⟩ := hst
  rcases f with _ | l | ⟨l, res, elements⟩ | res | ⟨client, j⟩ | ⟨client, j, this⟩
  · exact ⟨_, rfl, fun _ => .of_same (s := s) ⟨rfl, rfl⟩ ht ha hw.stackOk⟩
  · refine ⟨s, rfl, fun _ => ⟨ht, by rw [hstack]; exact ha, ?_⟩⟩
    rw [hstack]
    exact ⟨hf, hw⟩
  · obtain ⟨s', he, hinv⟩ := freeResourceReturn_spec ht ha hf hw
    refine ⟨s', he, fun hkept => hinv ?_⟩
    rw [Kept, hstack] at hkept
    rcases (Bool.or_eq_true ..).mp hkept with hkept | hkept
    · exact .inl (of_decide_eq_true hkept)
    · refine .inr fun p hp => ?_
      rw [hp] at hkept
      exact hkept
  · obtain ⟨s', he, hs', ht', ha', hshrinks⟩ := free_spec (s := { s with stack }) (ht.congr (fun _ => rfl) (fun _ => rfl) rfl) ha
    refine ⟨s', he, fun _ => ⟨ht', ?_, ?_⟩⟩
    · rw [hs']
      rw [hs'] at ha'
      exact ha'
    · have hstack' : s'.stack = stack := by rw [hs']
      rw [hstack']
      have hsame : SameTable s { s with stack } := ⟨rfl, rfl⟩
      exact ((hw.shrinks (hsame.shrinks L)).shrinks hshrinks).stackOk
  · refine ⟨s, rfl, fun _ => ⟨ht, by rw [hstack]; exact ha, ?_⟩⟩
    rw [hstack]
    exact ⟨hf, hw⟩
  · obtain ⟨s', he, hs', ht', ha', hshrinks⟩ := free_spec ht ha
    dsimp only
    rw [he, Exec.ok_bind]
    refine ⟨_, rfl, fun _ => .of_same (s := s') ⟨rfl, rfl⟩ ht' ha' ⟨?_, hw.shrinks hshrinks⟩⟩
    obtain ⟨hbottom, hcu, hempty⟩ := hf
    exact ⟨hbottom, (hshrinks.inUse _).trans hcu, hempty⟩

theorem continues_spec (h : Inv L s) : ∃ s' L', continues s = .ok s' ∧ Inv L' s' := by
  obtain ⟨ht, ha, hst⟩ := h
  unfold continues
  rcases hstack : s.stack with _ | ⟨f, stack⟩
  · exact ⟨s, L, rfl, ht, ha, hst⟩
  have ha' := ha
  have hst' := hst
  rw [hstack] at ha hst
  obtain ⟨hf, hw⟩ := hst
  rcases f with _ | l | _ | _ | ⟨client, j⟩ | _
  · exact ⟨s, L, rfl, ht, ha', hst'⟩
  · exact freeResourceLoop_spec ht ha hf hw hstack
  · exact ⟨s, L, rfl, ht, ha', hst'⟩
  · exact ⟨s, L, rfl, ht, ha', hst'⟩
  · exact freeClientResourcesLoop_spec ht ha hf hw
  · exact ⟨s, L, rfl, ht, ha', hst'⟩

/-- Each step that can happen happens, and keeps the invariant if the loop's record is kept. -/
theorem step_spec (h : Inv L s) {r : Input} (hr : Allowed s r = true) :
    ∃ s', step s r = .ok s' ∧ (Kept s r = true → ∃ L', Inv L' s') := by
  have hin := ((Bool.and_eq_true ..).mp hr).2
  rcases r with client | ⟨tableMem, recMem, id, type, value⟩ | ⟨id, type, value⟩ | ⟨id, skip⟩ | ⟨id, type, skip⟩ | client |
    _ | _
  · simp only [Bool.and_eq_true, List.isEmpty_iff, Bool.not_eq_true'] at hin
    exact ⟨_, rfl, fun _ => ⟨L, initClientResources_spec h hin.1.1 hin.2⟩⟩
  · obtain ⟨s', L', he, hinv⟩ := addResource_spec h (List.isEmpty_iff.1 hin) tableMem recMem id type value
    exact ⟨s', he, fun _ => ⟨L', hinv⟩⟩
  · obtain ⟨done, s', he, hinv⟩ := changeResourceValue_spec h hin id type value
    exact ⟨s', by rw [step, he]; rfl, fun _ => ⟨L, hinv⟩⟩
  · exact ⟨_, rfl, fun _ => ⟨L, freeResource_spec h hin id skip⟩⟩
  · obtain ⟨s', L', he, hinv⟩ := freeResourceByType_spec h hin id type skip
    exact ⟨s', he, fun _ => ⟨L', hinv⟩⟩
  · obtain ⟨hstack, hcu⟩ := (Bool.and_eq_true ..).mp hin
    rw [List.isEmpty_iff] at hstack
    refine ⟨_, rfl, fun _ => ⟨L, .of_same (s := s) ⟨rfl, rfl⟩ h.table h.accounts ?_⟩⟩
    show StackOk L s (.freeClientResources client 0 :: s.stack)
    rw [hstack]
    exact ⟨⟨rfl, hcu, fun i hi => by omega⟩, trivial⟩
  · obtain ⟨s', L', he, hinv⟩ := continues_spec h
    exact ⟨s', he, fun _ => ⟨L', hinv⟩⟩
  · obtain ⟨s', he, hinv⟩ := deleteReturns_spec h
    exact ⟨s', he, fun hkept => ⟨L, hinv hkept⟩⟩

/-! ### Refinement -/

/-- The records of an id, in the order in which they stand in its chain. -/
def State.recordsOf (s : State) (id : AuID) : Exec (List ResourcePtr) :=
  if ¬ s.inUse (clientId id) then .ok []
  else do
    let p ← s.readSlot (clientId id) (.head (s.bucket id))
    let l ← follow s.records s.records.next p
    .ok (l.filter (s.hasId id))

/-- The state is that of a multimap. -/
structure Refines (s : State) : Prop where
  /-- A lookup finds the latest record that was added and not freed. -/
  lookup : ∀ id type, lookupIDByType id type s = .ok (Multimap.lookup (Multimap.of s.history) id type)
  /-- The records of an id stand in the order in which they were added. -/
  order : ∀ id, s.recordsOf id = .ok (Multimap.recordsOf (Multimap.of s.history) id)
  rebuild : ∀ mem cid, s.inUse cid = true → (s.clientTable cid).hashsize < maxHashSize →
    ∃ s', rebuildTable mem cid s = .ok s' ∧ ∀ id, s'.recordsOf id = s.recordsOf id
  /-- What was freed is what a multimap would have freed. -/
  legal : Legal s.history
  once : Once s.history
  /-- No step that can happen touches a freed record. -/
  steps : ∀ r, Allowed s r = true → ∃ s', step s r = .ok s'

theorem TableOk.not_inUse (h : TableOk L m s) (hcu : ¬ s.inUse (clientId id) = true) :
    ∀ e ∈ m, e.item.id ≠ id := by
  intro e he hid
  have hmem := h.mem_chain he
  rw [hid, h.outside (clientId id) (s.bucket id) ?_] at hmem
  · cases hmem
  · have hlen := mt inUse_iff.2 hcu
    omega

theorem TableOk.recordsOf (h : TableOk L m s) (id : AuID) : s.recordsOf id = .ok (Multimap.recordsOf m id) := by
  unfold State.recordsOf
  by_cases hcu : s.inUse (clientId id) = true
  · have hj := h.bucket_lt hcu
    have hhead := List.getElem?_eq_getElem hj
    have hseg := h.chain _ _ _ hhead
    rw [if_neg (by simpa using hcu), State.readSlot, Slot.read, hhead, Exec.deref_some, Exec.ok_bind,
      hseg.follow hseg.length_le, Exec.ok_bind, h.agree]
  · rw [if_pos hcu, Multimap.recordsOf, List.filter_eq_nil_iff.2]
    · rfl
    · intro e he
      simpa using h.not_inUse hcu e he

theorem TableOk.lookup (h : TableOk L m s) (id : AuID) (type : ResType) :
    lookupIDByType id type s = .ok (Multimap.lookup m id type) := by
  unfold lookupIDByType Multimap.lookup
  by_cases hcu : s.inUse (clientId id) = true
  swap
  · rw [if_pos hcu, List.find?_eq_none.2]
    · rfl
    · intro e he
      simpa using fun hid _ => h.not_inUse hcu e he hid
  rw [if_neg (by simpa using hcu)]
  have hj := h.bucket_lt hcu
  rcases h.search_head hj (fun r => decide (r.id = id ∧ r.type = type)) with
    ⟨hsearch, hnone⟩ | ⟨mid, p, post, node, hL, hget, hwn, hmid, hsearch⟩
  · rw [hsearch, Exec.ok_bind]
    have hall := h.none_wanted (w := fun r => decide (r.id = id ∧ r.type = type))
      (fun r hr => (of_decide_eq_true hr).1) hnone
    rw [List.find?_eq_none.2 fun e he => by rw [hall e he]; simp]
    rfl
  · rw [hsearch, Exec.ok_bind]
    obtain ⟨rfl, htype⟩ := of_decide_eq_true hwn
    rw [h.first (w := fun r => decide (r.id = node.item.id ∧ r.type = type)) hL hget hwn
      (fun r hr => (of_decide_eq_true hr).1) hmid]
    rfl

theorem Inv.refines (h : Inv L s) : Refines s where
  lookup := h.table.lookup
  order := h.table.recordsOf
  rebuild mem cid hcu hsize := by
    obtain ⟨s', L', he, ht, -⟩ := rebuildTable_spec h.table hcu hsize mem
    exact ⟨s', he, fun id => (ht.recordsOf id).trans (h.table.recordsOf id).symm⟩
  legal := h.accounts.legal
  once := h.accounts.legal.once
  steps r hr := by
    obtain ⟨s', he, -⟩ := step_spec h hr
    exact ⟨s', he⟩

/-- Where the record that `FreeResource` is behind was freed, the loop goes on from there. -/
theorem not_refines_of_not_kept (h : Inv L s) {r : Input} (hr : Allowed s r = true) (hnot : ¬ Kept s r = true) :
    ∃ s', step s r = .ok s' ∧ ¬ Refines s' := by
  obtain ⟨s', he, -⟩ := step_spec h hr
  refine ⟨s', he, fun href => ?_⟩
  unfold Kept at hnot
  rcases r with _ | _ | _ | _ | _ | _ | _ | _
  all_goals try exact hnot rfl
  rcases hstack : s.stack with _ | ⟨f, stack⟩
  · rw [hstack] at hnot
    exact hnot rfl
  rw [hstack] at hnot
  rcases f with _ | _ | ⟨l, res, elements⟩ | _ | _ | _
  all_goals try exact hnot rfl
  simp only [Bool.or_eq_true, decide_eq_true_eq, not_or, not_not] at hnot
  obtain ⟨heq, hprev⟩ := hnot
  rcases hp : l.prev with j | p
  · rw [hp] at hprev
    exact hprev rfl
  rw [hp] at hprev
  have ha := h.accounts
  rw [hstack] at ha
  obtain ⟨s₁, hfree, hs₁, -⟩ := free_spec h.table ha
  replace he : deleteReturns s = .ok s' := he
  unfold deleteReturns at he
  rw [hstack] at he
  dsimp only at he
  unfold freeResourceReturn at he
  rw [hfree, Exec.ok_bind] at he
  have helements : (s₁.clientTable (clientId l.id)).elements = elements := by
    rw [hs₁]
    exact heq
  dsimp only at he
  rw [if_neg (not_not.2 helements), hp] at he
  have hexited : s.exited = false := by
    simpa using ((Bool.and_eq_true ..).mp hr).1
  have hnone : s₁.records.get p = none := by
    rw [hs₁]
    show (s.records.free res).get p = none
    rw [Heap.get_free]
    split
    · rfl
    · simpa [Heap.live] using hprev
  cases he
  obtain ⟨s'', he'⟩ := href.steps .continues (by simp [Allowed, hs₁, hexited, Frame.inDelete])
  replace he' : freeResourceLoop { l with prev := .next p, gotOne := true } stack
      { s₁ with stack := .freeResource { l with prev := .next p, gotOne := true } :: stack } = .ok s'' := he'
  unfold freeResourceLoop State.search State.readSlot at he'
  dsimp only at he'
  rw [Slot.read, hnone] at he'
  cases he'

theorem inv_init : Inv (fun _ _ => []) {} where
  table :=
    { sizes := fun cid hc => by cases hc
      chain := fun cid j head hj => by cases hj
      outside := fun _ _ _ => rfl
      label := fun cid j p hp => by cases hp
      agree := fun _ => rfl
      entry := fun e he => by cases he
      nodup := List.nodup_nil }
  accounts :=
    { legal := trivial
      nodup := List.nodup_nil
      owed := fun p hp => by cases hp
      live := fun p hp => by cases hp
      added := fun p r hp => by cases hp }
  stack := trivial

/-- Every state of a run is that of a multimap exactly if, whenever a delete function returns to `FreeResource` with
the count of elements as it was, the record that the loop is behind was not freed. -/
theorem refines_iff {inputs : List Input} (hallowed : Each step (fun s r => Allowed s r = true) inputs {}) :
    Always step Refines inputs {} ↔ Each step (fun s r => Kept s r = true) inputs {} := by
  refine always_iff_each (I := fun s => ∃ L, Inv L s) (fun s ⟨L, h⟩ => h.refines) (fun s r s' ⟨L, h⟩ hr hk he => ?_)
    (fun s r ⟨L, h⟩ hr hk => not_refines_of_not_kept h hr hk) ⟨_, inv_init⟩ hallowed
  obtain ⟨s'', he', hinv⟩ := step_spec h hr
  cases he'.symm.trans he
  exact hinv hk

/-- Of two resources in one chain, the delete function of the one frees the other one by its id. -/
def freesOther : List Input :=
  [.initClientResources 1, .addResource true true 4194368 5 11, .addResource true true 4194305 5 22,
    .freeResource 4194368 0, .continues, .freeResource 4194305 0, .continues, .deleteReturns, .continues,
    .deleteReturns, .continues]

theorem refines_freesOther : Always step Refines freesOther {} :=
  (refines_iff (by decide +kernel)).2 (by decide +kernel)

/-- The same, by id and type. -/
def freesOtherByType : List Input :=
  [.initClientResources 1, .addResource true true 4194368 5 11, .addResource true true 4194305 5 22,
    .freeResource 4194368 0, .continues, .freeResourceByType 4194305 5 false, .deleteReturns, .deleteReturns]

/-- Then `FreeResource` reads the `next` of a freed record. -/
theorem freesOtherByType_touches :
    Each step (fun s r => Allowed s r = true) freesOtherByType {} ∧ ¬ Always step Refines freesOtherByType {} := by
  refine ⟨by decide +kernel, fun h => ?_⟩
  have hrun : (freesOtherByType.foldlM step {}).toOption.any (fun s =>
      Allowed s .continues && ! (step s .continues).toOption.isSome) = true := by decide +kernel
  obtain ⟨s, hs, hrun⟩ := (Option.any_eq_true ..).1 hrun
  obtain ⟨hallowed, hfault⟩ := (Bool.and_eq_true ..).mp hrun
  obtain ⟨s', he⟩ := (h.run (Exec.toOption_eq_some.1 hs)).steps .continues hallowed
  rw [he] at hfault
  cases hfault

end Nas.ResourceTable
