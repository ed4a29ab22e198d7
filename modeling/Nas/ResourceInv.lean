import Nas.Multimap
import Mathlib.Tactic.IntervalCases
import Mathlib.Tactic.NormNum

/-!
# The table and the multimap

`TableOk L m s` says that the chains of a state are the lists `L`, that each record stands in the chain of its id, and
that of each id the records in the chain are those of the multimap `m`, in its order. Walking, taking a record out,
adding one, changing one and rebuilding the table keep this, each with what it makes of `m`.
-/

namespace Nas.ResourceTable

variable {L L' L'' : Nat → Nat → List ResourcePtr} {m : Multimap} {s s' s'' : State} {cid j : Nat} {p : ResourcePtr}
  {node : Node ResourceItem} {pre post rest : List ResourcePtr} {id : AuID} {w : ResourceItem → Bool}

theorem hash_lt {k : Nat} (h : 6 ≤ k ∧ k ≤ 11) (id : AuID) : hash k id < 2 ^ k := by
  obtain ⟨hl, hu⟩ := h
  unfold hash
  interval_cases k <;> exact Nat.mod_lt _ (by norm_num)

theorem inUse_iff : s.inUse cid = true ↔ 0 < (s.clientTable cid).resources.length := by
  rw [State.inUse, List.length_pos_iff]
  simp

/-! ### Multimaps -/

namespace Multimap

theorem recordsOf_filter (m : Multimap) (p : ResourcePtr) (id : AuID) :
    recordsOf (m.filter (·.record ≠ p)) id = (recordsOf m id).filter (· ≠ p) := by
  rw [recordsOf, recordsOf, List.filter_map, List.filter_filter, List.filter_filter]
  congr 1
  refine List.filter_congr fun e _ => ?_
  simp [Bool.and_comm]

theorem mem_recordsOf {m : Multimap} : p ∈ recordsOf m id ↔ ∃ e ∈ m, e.record = p ∧ e.item.id = id := by
  simp only [recordsOf, List.mem_map, List.mem_filter, decide_eq_true_eq]
  constructor
  · rintro ⟨e, ⟨he, hid⟩, hp⟩
    exact ⟨e, he, hp, hid⟩
  · rintro ⟨e, he, hp, hid⟩
    exact ⟨e, ⟨he, hid⟩, hp⟩

/-- Where the entry that is changed stands. -/
theorem change_eq {m : Multimap} {type : ResType} (value : Pointer) {e : Entry}
    (h : m.find? (fun e => decide (e.item.id = id ∧ e.item.type = type)) = some e) :
    ∃ m₁ m₂, m = m₁ ++ e :: m₂ ∧
      change id type value m = m₁ ++ { e with item := { e.item with value } } :: m₂ := by
  induction m with
  | nil => cases h
  | cons e' m ih =>
    unfold change
    by_cases he : e'.item.id = id ∧ e'.item.type = type
    · rw [List.find?_cons_of_pos (by simpa using he)] at h
      cases h
      rw [if_pos he]
      exact ⟨[], m, rfl, rfl⟩
    · rw [List.find?_cons_of_neg (by simpa using he)] at h
      obtain ⟨m₁, m₂, rfl, hch⟩ := ih h
      rw [if_neg he, hch]
      exact ⟨e' :: m₁, m₂, rfl, rfl⟩

theorem recordsOf_append (m₁ m₂ : Multimap) (id : AuID) :
    recordsOf (m₁ ++ m₂) id = recordsOf m₁ id ++ recordsOf m₂ id := by
  rw [recordsOf, List.filter_append, List.map_append]
  rfl

theorem recordsOf_cons (e : Entry) (m : Multimap) (id : AuID) :
    recordsOf (e :: m) id = if e.item.id = id then e.record :: recordsOf m id else recordsOf m id := by
  rw [recordsOf, List.filter_cons]
  split <;> rename_i h
  · rw [if_pos (by simpa using h)]
    rfl
  · rw [if_neg (by simpa using h)]
    rfl

end Multimap

/-! ### The invariant of the table -/

/-- Whether a record is of an id. -/
def State.hasId (s : State) (id : AuID) (p : ResourcePtr) : Bool := (s.records.get p).any (·.item.id = id)

structure TableOk (L : Nat → Nat → List ResourcePtr) (m : Multimap) (s : State) : Prop where
  sizes : ∀ cid, s.inUse cid = true → (6 ≤ (s.clientTable cid).hashsize ∧ (s.clientTable cid).hashsize ≤ 11) ∧
    (s.clientTable cid).resources.length = 2 ^ (s.clientTable cid).hashsize
  chain : ∀ cid j head, (s.clientTable cid).resources[j]? = some head → Segment s.records head (L cid j) none
  outside : ∀ cid j, (s.clientTable cid).resources.length ≤ j → L cid j = []
  label : ∀ cid j p, p ∈ L cid j → ∃ node, s.records.get p = some node ∧ clientId node.item.id = cid ∧
    hash (s.clientTable cid).hashsize node.item.id = j
  agree : ∀ id, (L (clientId id) (s.bucket id)).filter (s.hasId id) = Multimap.recordsOf m id
  entry : ∀ e ∈ m, ∃ node, s.records.get e.record = some node ∧ node.item = e.item
  nodup : (m.map (·.record)).Nodup

/-- The chains without a record. -/
def without (p : ResourcePtr) (L : Nat → Nat → List ResourcePtr) : Nat → Nat → List ResourcePtr := fun cid j =>
  (L cid j).filter (· ≠ p)

namespace TableOk

theorem congr (h : TableOk L m s) (hres : ∀ cid, (s'.clientTable cid).resources = (s.clientTable cid).resources)
    (hsize : ∀ cid, (s'.clientTable cid).hashsize = (s.clientTable cid).hashsize) (hrec : s'.records = s.records) :
    TableOk L m s' where
  sizes cid hc := by
    rw [hres, hsize]
    refine h.sizes cid ?_
    rwa [State.inUse, hres] at hc
  chain cid j head hj := by
    rw [hrec]
    exact h.chain cid j head (hres cid ▸ hj)
  outside cid j hj := h.outside cid j (hres cid ▸ hj)
  label cid j p hp := by
    rw [hrec, hsize]
    exact h.label cid j p hp
  agree id := by
    have hid : s'.hasId id = s.hasId id := by
      funext p
      rw [State.hasId, State.hasId, hrec]
    rw [State.bucket, hsize, hid]
    exact h.agree id
  entry e he := by
    rw [hrec]
    exact h.entry e he
  nodup := h.nodup

theorem chain_nodup (h : TableOk L m s) (cid j : Nat) : (L cid j).Nodup := by
  by_cases hj : j < (s.clientTable cid).resources.length
  · exact (h.chain cid j _ (List.getElem?_eq_getElem hj)).nodup
  · rw [h.outside cid j (by omega)]
    exact List.nodup_nil

/-- A record stands in one chain only. -/
theorem disjoint (h : TableOk L m s) {c i : Nat} (hp : p ∈ L cid j) (hp' : p ∈ L c i) : c = cid ∧ i = j := by
  obtain ⟨node, hget, hc, hj⟩ := h.label cid j p hp
  obtain ⟨node', hget', hc', hj'⟩ := h.label c i p hp'
  cases hget.symm.trans hget'
  have hcc : c = cid := hc'.symm.trans hc
  subst hcc
  exact ⟨rfl, hj'.symm.trans hj⟩

theorem mem_chain (h : TableOk L m s) {e : Entry} (he : e ∈ m) :
    e.record ∈ L (clientId e.item.id) (s.bucket e.item.id) := by
  have hmem : e.record ∈ Multimap.recordsOf m e.item.id := Multimap.mem_recordsOf.2 ⟨e, he, rfl, rfl⟩
  rw [← h.agree] at hmem
  exact (List.mem_filter.1 hmem).1

theorem mem_of_chain (h : TableOk L m s) (hp : p ∈ L cid j) : ∃ e ∈ m, e.record = p := by
  obtain ⟨node, hget, rfl, rfl⟩ := h.label cid j p hp
  have hmem : p ∈ (L (clientId node.item.id) (s.bucket node.item.id)).filter (s.hasId node.item.id) :=
    List.mem_filter.2 ⟨hp, by rw [State.hasId, hget]; simp⟩
  rw [h.agree] at hmem
  obtain ⟨e, he, hrec, -⟩ := Multimap.mem_recordsOf.1 hmem
  exact ⟨e, he, hrec⟩

theorem bucket_lt (h : TableOk L m s) (hc : s.inUse (clientId id) = true) :
    s.bucket id < (s.clientTable (clientId id)).resources.length := by
  obtain ⟨hsize, hlen⟩ := h.sizes _ hc
  rw [hlen]
  exact hash_lt hsize id

/-- The first record in its chain that is wanted is the latest entry that is. -/
theorem first (h : TableOk L m s) (hL : L (clientId node.item.id) (s.bucket node.item.id) = pre ++ p :: post)
    (hget : s.records.get p = some node) (hw : w node.item = true) (hid : ∀ r, w r = true → r.id = node.item.id)
    (hpre : ∀ q ∈ pre, ∀ n, s.records.get q = some n → w n.item = false) :
    m.find? (fun e => w e.item) = some ⟨p, node.item⟩ := by
  have hagree := h.agree node.item.id
  rw [hL, List.filter_append, List.filter_cons_of_pos (by rw [State.hasId, hget]; simp)] at hagree
  obtain ⟨m₁, m₂, hm, hm₁, hm₂⟩ := List.map_eq_append_iff.1 hagree.symm
  obtain ⟨e, m₃, rfl, he, -⟩ := List.map_eq_cons_iff.1 hm₂
  have hmem : ∀ e', e' ∈ m₁ ++ e :: m₃ → e' ∈ m := fun e' he' => (List.mem_filter.1 (hm ▸ he')).1
  obtain ⟨node', hget', hitem⟩ := h.entry e (hmem e (by simp))
  rw [he, hget] at hget'
  cases hget'
  have hee : e = ⟨p, node.item⟩ := by
    rw [← he, hitem]
  -- the entries of other ids are not wanted
  have hfilter : (m.filter (·.item.id = node.item.id)).find? (fun e => w e.item) = m.find? (fun e => w e.item) := by
    rw [List.find?_filter]
    congr 1
    funext e'
    by_cases hwe : w e'.item = true
    · simp [hwe, hid _ hwe]
    · simp [hwe]
  rw [← hfilter, hm, List.find?_append, List.find?_eq_none.2 fun e' he' => ?_, Option.none_or, hee]
  · exact List.find?_cons_of_pos hw
  obtain ⟨n, hgetn, hn⟩ := h.entry e' (hmem e' (by simp [he']))
  have hq : e'.record ∈ pre := by
    have : e'.record ∈ m₁.map (·.record) := List.mem_map_of_mem he'
    rw [hm₁] at this
    exact (List.mem_filter.1 this).1
  rw [← hn, hpre _ hq n hgetn]
  simp

/-- Where nothing in the chain is wanted, no entry is. -/
theorem none_wanted (h : TableOk L m s) (hid : ∀ r, w r = true → r.id = id)
    (hall : ∀ p ∈ L (clientId id) (s.bucket id), ∀ n, s.records.get p = some n → w n.item = false) :
    ∀ e ∈ m, w e.item = false := by
  intro e he
  by_contra hwe
  rw [Bool.not_eq_false] at hwe
  have hmem := h.mem_chain he
  obtain ⟨n, hget, hn⟩ := h.entry e he
  rw [hid _ hwe] at hmem
  have := hall _ hmem n hget
  rw [hn, hwe] at this
  cases this

/-- A walk from behind some records of a chain. -/
theorem search (h : TableOk L m s) (hj : j < (s.clientTable cid).resources.length) (hL : L cid j = pre ++ rest)
    (w : ResourceItem → Bool) :
    (s.search cid w ((Slot.head j).after pre) = .ok none ∧
        ∀ p ∈ rest, ∀ n, s.records.get p = some n → w n.item = false) ∨
      ∃ mid p post node, rest = mid ++ p :: post ∧ s.records.get p = some node ∧ w node.item = true ∧
        (∀ q ∈ mid, ∀ n, s.records.get q = some n → w n.item = false) ∧
        s.search cid w ((Slot.head j).after pre) = .ok (some ((Slot.head j).after (pre ++ mid), p, node)) := by
  have hhead := List.getElem?_eq_getElem hj
  have hchain := h.chain cid j _ hhead
  have hlen := hchain.length_le
  rw [hL] at hchain hlen
  obtain ⟨q, hpre, hrest⟩ := Segment.append.1 hchain
  unfold State.search State.readSlot
  rw [hpre.read hhead, Exec.ok_bind]
  simp only [Slot.after_append]
  exact hrest.find w (by rw [List.length_append] at hlen; omega) _

/-- The search of a whole chain. -/
theorem search_head (h : TableOk L m s) (hj : j < (s.clientTable cid).resources.length) (w : ResourceItem → Bool) :
    (s.search cid w (.head j) = .ok none ∧ ∀ p ∈ L cid j, ∀ n, s.records.get p = some n → w n.item = false) ∨
      ∃ mid p post node, L cid j = mid ++ p :: post ∧ s.records.get p = some node ∧ w node.item = true ∧
        (∀ q ∈ mid, ∀ n, s.records.get q = some n → w n.item = false) ∧
        s.search cid w (.head j) = .ok (some ((Slot.head j).after mid, p, node)) := by
  have hsearch := h.search hj (show L cid j = [] ++ L cid j from rfl) w
  rwa [Slot.after_nil] at hsearch

/-- Another item in no chain is freed. -/
theorem free (h : TableOk L m s) (hp : p ∉ m.map (·.record)) :
    TableOk L m { s with records := s.records.free p } := by
  have hne : ∀ {q cid j}, q ∈ L cid j → q ≠ p := by
    rintro q cid j hq rfl
    obtain ⟨e, he, rfl⟩ := h.mem_of_chain hq
    exact hp (List.mem_map_of_mem he)
  have hget : ∀ {q}, q ≠ p → (s.records.free p).get q = s.records.get q := fun hq => by
    rw [Heap.get_free, if_neg hq]
  refine ⟨h.sizes, fun cid j head hj => (h.chain cid j head hj).congr fun q hq => hget (hne hq), h.outside,
    fun cid j q hq => ?_, fun id => ?_, fun e he => ?_, h.nodup⟩
  · show ∃ node, (s.records.free p).get q = some node ∧ _
    rw [hget (hne hq)]
    exact h.label cid j q hq
  · refine Eq.trans (List.filter_congr fun q hq => ?_) (h.agree id)
    show ((s.records.free p).get q).any _ = _
    rw [hget (hne hq)]
    rfl
  · show ∃ node, (s.records.free p).get e.record = some node ∧ _
    rw [hget fun heq => hp (heq ▸ List.mem_map_of_mem he)]
    exact h.entry e he

end TableOk

/-! ### Taking out, adding and changing -/

theorem clientTable_modifyClient {f : ClientResourceRec → ClientResourceRec} (c : Nat) :
    (s.modifyClient cid f).clientTable c = if c = cid then f (s.clientTable cid) else s.clientTable c := by
  rw [State.modifyClient]
  dsimp only
  by_cases hc : c = cid
  · rw [if_pos hc, hc, Function.update_self]
  · rw [if_neg hc, Function.update_of_ne hc]

/-- A write to a slot changes the chains, and nothing else. -/
structure Linked (s s' : State) : Prop where
  hashsize : ∀ cid, (s'.clientTable cid).hashsize = (s.clientTable cid).hashsize
  length : ∀ cid, (s'.clientTable cid).resources.length = (s.clientTable cid).resources.length
  elements : ∀ cid, (s'.clientTable cid).elements = (s.clientTable cid).elements
  items : ∀ p, (s'.records.get p).map (·.item) = (s.records.get p).map (·.item)
  next : s'.records.next = s.records.next
  stack : s'.stack = s.stack
  history : s'.history = s.history
  exited : s'.exited = s.exited

theorem Linked.inUse (h : Linked s s') : s'.inUse cid = s.inUse cid := by
  rw [Bool.eq_iff_iff, inUse_iff, inUse_iff, h.length]

theorem Linked.hasId (h : Linked s s') : s'.hasId id = s.hasId id := by
  funext p
  have hany : ∀ t : State, t.hasId id p = ((t.records.get p).map (·.item)).any (·.id = id) := fun t => by
    rw [State.hasId, Option.any_map]
  rw [hany, hany, h.items]

theorem Linked.get (h : Linked s s') (hget : s.records.get p = some node) :
    ∃ node', s'.records.get p = some node' ∧ node'.item = node.item := by
  have hitem := h.items p
  rw [hget] at hitem
  exact Option.map_eq_some_iff.1 hitem

/-- A write to the slot behind some records of a chain, and what the heads and the nodes are then. -/
theorem writeSlot_spec {head q : Option ResourcePtr} (pre : List ResourcePtr)
    (hhead : (s.clientTable cid).resources[j]? = some head)
    (hseg : Segment s.records head pre q) (hpre : pre.Nodup) (v : Option ResourcePtr) :
    ∃ s', s.writeSlot cid ((Slot.head j).after pre) v = .ok s' ∧ Linked s s' ∧
      (∃ head', (s'.clientTable cid).resources[j]? = some head' ∧ Segment s'.records head' pre v) ∧
      (∀ c i, ¬ (c = cid ∧ i = j) → (s'.clientTable c).resources[i]? = (s.clientTable c).resources[i]?) ∧
      ∀ p, p ∉ pre → s'.records.get p = s.records.get p := by
  obtain ⟨resources, records, hwrite, hw⟩ := hseg.write hhead hpre v
  have htable : ∀ c, ({ s.modifyClient cid ({ · with resources }) with records } : State).clientTable c =
      if c = cid then { s.clientTable cid with resources } else s.clientTable c := fun c => by
    show (s.modifyClient cid ({ · with resources })).clientTable c = _
    exact clientTable_modifyClient c
  have hfield : ∀ {β : Type} (f : ClientResourceRec → β), f { s.clientTable cid with resources } = f (s.clientTable cid) →
      ∀ c, f (({ s.modifyClient cid ({ · with resources }) with records } : State).clientTable c) =
        f (s.clientTable c) := by
    intro β f hf c
    rw [htable]
    by_cases hc : c = cid
    · rw [if_pos hc, hc, hf]
    · rw [if_neg hc]
  refine ⟨{ s.modifyClient cid ({ · with resources }) with records }, by rw [State.writeSlot, hwrite, Exec.ok_bind],
    ⟨hfield _ rfl, hfield (·.resources.length) hw.length, hfield _ rfl, hw.items, hw.next, rfl, rfl, rfl⟩, ?_,
    fun c i hne => ?_, hw.nodes⟩
  · rw [htable, if_pos rfl]
    exact hw.segment
  · rw [htable]
    by_cases hc : c = cid
    · rw [if_pos hc, hc]
      exact hw.heads i fun hi => hne ⟨hc, hi⟩
    · rw [if_neg hc]

theorem without_self (h : (pre ++ p :: post).Nodup) : (pre ++ p :: post).filter (· ≠ p) = pre ++ post := by
  obtain ⟨hp, -⟩ := List.nodup_middle.1 h |> List.nodup_cons.1
  rw [List.mem_append, not_or] at hp
  have hne : ∀ l : List ResourcePtr, p ∉ l → l.filter (· ≠ p) = l := fun l hl => by
    rw [List.filter_eq_self]
    intro q hq
    have : q ≠ p := by
      rintro rfl
      exact hl hq
    simpa using this
  rw [List.filter_append, List.filter_cons_of_neg (by simp), hne pre hp.1, hne post hp.2]

namespace TableOk

/-- What is in the chains is as it was, in other chains. -/
theorem linked (h : TableOk L m s) (hl : Linked s s') {m' : Multimap} (hsub : ∀ cid j, (L' cid j).Sublist (L cid j))
    (hchain : ∀ cid j head, (s'.clientTable cid).resources[j]? = some head → Segment s'.records head (L' cid j) none)
    (hagree : ∀ id, (L' (clientId id) (s.bucket id)).filter (s.hasId id) = Multimap.recordsOf m' id)
    (hm : m'.Sublist m) : TableOk L' m' s' where
  sizes cid hc := by
    rw [hl.inUse] at hc
    rw [hl.hashsize, hl.length]
    exact h.sizes cid hc
  chain := hchain
  outside cid j hj := by
    have := hsub cid j
    rw [hl.length] at hj
    rw [h.outside cid j hj] at this
    exact List.sublist_nil.1 this
  label cid j p hp := by
    obtain ⟨node, hget, hlabel⟩ := h.label cid j p ((hsub cid j).subset hp)
    obtain ⟨node', hget', hitem⟩ := hl.get hget
    rw [hl.hashsize]
    exact ⟨node', hget', by rw [hitem]; exact hlabel⟩
  agree id := by
    rw [hl.hasId, State.bucket, hl.hashsize]
    exact hagree id
  entry e he := by
    obtain ⟨node, hget, hitem⟩ := h.entry e (hm.subset he)
    obtain ⟨node', hget', hitem'⟩ := hl.get hget
    exact ⟨node', hget', hitem'.trans hitem⟩
  nodup := h.nodup.sublist (hm.map _)

/-- `*prev = res->next` -/
theorem take (h : TableOk L m s) (hj : j < (s.clientTable cid).resources.length) (hL : L cid j = pre ++ p :: post)
    (hget : s.records.get p = some node) :
    ∃ s', s.writeSlot cid ((Slot.head j).after pre) node.next = .ok s' ∧ Linked s s' ∧
      TableOk (without p L) (m.filter (·.record ≠ p)) s' := by
  have hhead := List.getElem?_eq_getElem hj
  have hnodup := h.chain_nodup cid j
  have hseg := h.chain cid j _ hhead
  rw [hL] at hnodup hseg
  obtain ⟨q, hpre, -, node', hget', hpost⟩ := Segment.append.1 hseg
  cases hget.symm.trans hget'
  have hdisj := List.disjoint_of_nodup_append hnodup
  obtain ⟨s', hwrite, hl, ⟨head', hhead', hseg'⟩, hheads, hnodes⟩ :=
    writeSlot_spec pre hhead hpre (hnodup.sublist (List.sublist_append_left ..)) node.next
  refine ⟨s', hwrite, hl, h.linked hl (fun cid j => List.filter_sublist) (fun c i head hi => ?_) (fun id => ?_)
    List.filter_sublist⟩
  · by_cases hci : c = cid ∧ i = j
    · obtain ⟨rfl, rfl⟩ := hci
      cases hhead'.symm.trans hi
      rw [without, hL, without_self hnodup]
      refine Segment.append.2 ⟨node.next, hseg', hpost.congr fun q hq => hnodes q fun hq' => ?_⟩
      exact hdisj hq' (List.mem_cons_of_mem _ hq)
    · rw [hheads c i hci] at hi
      have hother : ∀ q ∈ L c i, q ∉ pre ++ [p] := fun q hq hq' => by
        refine hci (h.disjoint ?_ hq)
        rw [hL]
        rcases List.mem_append.1 hq' with hq' | hq'
        · exact List.mem_append_left _ hq'
        · rw [List.mem_singleton.1 hq']
          simp
      have hsame : without p L c i = L c i := by
        rw [without, List.filter_eq_self]
        intro q hq
        have := hother q hq
        simp only [List.mem_append, List.mem_singleton, not_or] at this
        simpa using this.2
      rw [hsame]
      refine (h.chain c i head hi).congr fun q hq => hnodes q fun hq' => ?_
      exact hother q hq (List.mem_append_left _ hq')
  · rw [without, List.filter_filter, Multimap.recordsOf_filter, ← h.agree, List.filter_filter]
    refine List.filter_congr fun q _ => ?_
    rw [Bool.and_comm]

/-- The chains with a new record at the head of one. -/
def insertAt (cid j : Nat) (p : ResourcePtr) (L : Nat → Nat → List ResourcePtr) : Nat → Nat → List ResourcePtr :=
  fun c i => if c = cid ∧ i = j then p :: L c i else L c i

/-- `res->next = *head; *head = res` -/
theorem add (h : TableOk L m s) (r : ResourceItem) {first : Option ResourcePtr}
    (hfirst : (s.clientTable (clientId r.id)).resources[s.bucket r.id]? = some first) :
    ∃ s', ({ s with records := s.records.alloc ⟨r, first⟩ } : State).writeSlot (clientId r.id) (.head (s.bucket r.id))
        (some s.records.next) = .ok s' ∧
      Linked { s with records := s.records.alloc ⟨r, first⟩ } s' ∧
      (∀ p, s'.records.get p = (s.records.alloc ⟨r, first⟩).get p) ∧
      TableOk (insertAt (clientId r.id) (s.bucket r.id) s.records.next L) (⟨s.records.next, r⟩ :: m) s' := by
  obtain ⟨s', hwrite, hl, ⟨head', hhead', rfl⟩, hheads, hnodes⟩ :=
    writeSlot_spec (s := { s with records := s.records.alloc ⟨r, first⟩ }) []
      hfirst rfl List.nodup_nil (some s.records.next)
  rw [Slot.after_nil] at hwrite
  have hget : ∀ q, s'.records.get q = if q = s.records.next then some ⟨r, first⟩ else s.records.get q := fun q => by
    rw [hnodes q (by simp)]
    exact Heap.get_alloc
  have hold : ∀ {q n}, s.records.get q = some n → s'.records.get q = some n := fun {q n} hq => by
    rw [hget, if_neg (Nat.ne_of_lt (Heap.lt_next hq)), hq]
  have hself : s'.records.get s.records.next = some ⟨r, first⟩ := by rw [hget, if_pos rfl]
  have hbucket : ∀ id, s'.bucket id = s.bucket id := fun id => by rw [State.bucket, State.bucket, hl.hashsize]
  have hhas : ∀ {id c i q}, q ∈ L c i → s'.hasId id q = s.hasId id q := fun {id c i q} hq => by
    obtain ⟨n, hn, -⟩ := h.label c i q hq
    rw [State.hasId, State.hasId, hold hn, hn]
  have hchain : ∀ {c i head}, (s.clientTable c).resources[i]? = some head → Segment s'.records head (L c i) none :=
    fun {c i head} hi => (h.chain c i head hi).congr fun q hq => by
      obtain ⟨n, hn, -⟩ := h.label c i q hq
      rw [hold hn, hn]
  refine ⟨s', hwrite, hl, fun q => hnodes q (by simp), ⟨fun cid hc => ?_, fun c i head hi => ?_, fun c i hi => ?_,
    fun c i q hq => ?_, fun id => ?_, fun e he => ?_, ?_⟩⟩
  · rw [hl.inUse] at hc
    rw [hl.hashsize, hl.length]
    exact h.sizes cid hc
  · by_cases hci : c = clientId r.id ∧ i = s.bucket r.id
    · obtain ⟨rfl, rfl⟩ := hci
      cases hhead'.symm.trans hi
      rw [insertAt, if_pos ⟨rfl, rfl⟩]
      exact ⟨rfl, ⟨r, first⟩, hself, hchain hfirst⟩
    · rw [insertAt, if_neg hci]
      rw [hheads c i hci] at hi
      exact hchain hi
  · rw [hl.length] at hi
    rw [insertAt, if_neg]
    · exact h.outside c i hi
    · rintro ⟨rfl, rfl⟩
      rw [List.getElem?_eq_none hi] at hfirst
      cases hfirst
  · rw [hl.hashsize]
    rw [insertAt] at hq
    have hinner : q ∈ L c i → ∃ node, s'.records.get q = some node ∧ clientId node.item.id = c ∧
        hash (s.clientTable c).hashsize node.item.id = i := fun hq => by
      obtain ⟨n, hn, hlabel⟩ := h.label c i q hq
      exact ⟨n, hold hn, hlabel⟩
    split at hq
    · rename_i hci
      rcases List.mem_cons.1 hq with rfl | hq
      · exact ⟨_, hself, hci.1.symm, by rw [hci.2, hci.1]; rfl⟩
      · exact hinner hq
    · exact hinner hq
  · rw [hbucket, Multimap.recordsOf, insertAt]
    have hrest : (L (clientId id) (s.bucket id)).filter (s'.hasId id) = Multimap.recordsOf m id :=
      (List.filter_congr fun q hq => hhas hq).trans (h.agree id)
    by_cases hid : r.id = id
    · subst hid
      have hself' : s'.hasId r.id s.records.next = true := by
        rw [State.hasId, hself]
        simp
      rw [if_pos ⟨rfl, rfl⟩, List.filter_cons_of_pos hself', List.filter_cons_of_pos (by simp), List.map_cons, hrest]
      rfl
    · have hself' : ¬ s'.hasId id s.records.next = true := by
        rw [State.hasId, hself]
        simpa using hid
      rw [List.filter_cons_of_neg (by simpa using hid)]
      split
      · rw [List.filter_cons_of_neg hself']
        exact hrest
      · exact hrest
  · rcases List.mem_cons.1 he with rfl | he
    · exact ⟨_, hself, rfl⟩
    · obtain ⟨n, hn, hitem⟩ := h.entry e he
      exact ⟨n, hold hn, hitem⟩
  · refine List.nodup_cons.2 ⟨fun hmem => ?_, h.nodup⟩
    obtain ⟨e, he, hrec⟩ := List.mem_map.1 hmem
    obtain ⟨n, hn, -⟩ := h.entry e he
    exact absurd (Heap.lt_next hn) (by rw [hrec]; exact Nat.lt_irrefl _)

/-- Another value in the record of the latest entry of an id and type. -/
theorem change (h : TableOk L m s) {type : ResType} (value : Pointer)
    (hfind : m.find? (fun e => decide (e.item.id = id ∧ e.item.type = type)) = some ⟨p, node.item⟩) :
    TableOk L (Multimap.change id type value m)
      { s with records := s.records.modify p fun res => { res with item := { res.item with value } } } := by
  obtain ⟨m₁, m₂, rfl, hchange⟩ := Multimap.change_eq value hfind
  have hget : ∀ q, (s.records.modify p fun res => { res with item := { res.item with value } }).get q =
      if q = p then (s.records.get q).map fun res => { res with item := { res.item with value } }
      else s.records.get q := fun q => Heap.get_modify
  generalize hrec : (s.records.modify p fun res => { res with item := { res.item with value } }) = records at hget ⊢
  have hhas : ({ s with records } : State).hasId = s.hasId := by
    funext id q
    show (records.get q).any _ = (s.records.get q).any _
    rw [hget]
    split
    · rw [Option.any_map]
    · rfl
  have hids : ∀ id, Multimap.recordsOf (m₁ ++ ⟨p, { node.item with value }⟩ :: m₂) id =
      Multimap.recordsOf (m₁ ++ ⟨p, node.item⟩ :: m₂) id := fun id => by
    rw [Multimap.recordsOf_append, Multimap.recordsOf_append, Multimap.recordsOf_cons, Multimap.recordsOf_cons]
  have hnodup := h.nodup
  rw [hchange]
  refine ⟨h.sizes, fun c i head hi => (h.chain c i head hi).congr_next fun q _ => ?_, h.outside, fun c i q hq => ?_,
    fun id => ?_, fun e he => ?_, by simpa using hnodup⟩
  · rw [hget]
    split
    · rw [Option.map_map]
      rfl
    · rfl
  · obtain ⟨n, hn, hlabel⟩ := h.label c i q hq
    show ∃ node, records.get q = some node ∧ _
    rw [hget, hn]
    split
    · exact ⟨_, rfl, hlabel⟩
    · exact ⟨n, rfl, hlabel⟩
  · rw [hhas, hids]
    exact h.agree id
  · show ∃ node, records.get e.record = some node ∧ _
    rw [hget]
    -- the other entries are of other records
    have hother : e ∈ m₁ ∨ e ∈ m₂ → e ∈ m₁ ++ ⟨p, node.item⟩ :: m₂ ∧ e.record ≠ p := fun he => by
      rw [List.map_append, List.map_cons, List.nodup_middle, List.nodup_cons, List.mem_append, not_or] at hnodup
      refine ⟨by simp only [List.mem_append, List.mem_cons]; tauto, ?_⟩
      intro heq
      rcases he with he | he
      · exact hnodup.1.1 (List.mem_map.2 ⟨e, he, heq⟩)
      · exact hnodup.1.2 (List.mem_map.2 ⟨e, he, heq⟩)
    have hkeep : e ∈ m₁ ∨ e ∈ m₂ → ∃ n, (if e.record = p then
        (s.records.get e.record).map fun res => { res with item := { res.item with value } }
        else s.records.get e.record) = some n ∧ n.item = e.item := fun he => by
      obtain ⟨hmem, hne⟩ := hother he
      rw [if_neg hne]
      exact h.entry e hmem
    rcases List.mem_append.1 he with he | he
    · exact hkeep (.inl he)
    rcases List.mem_cons.1 he with rfl | he
    · obtain ⟨n, hn, hitem⟩ := h.entry ⟨p, node.item⟩ (by simp)
      rw [if_pos rfl]
      refine ⟨{ n with item := { n.item with value } }, ?_, ?_⟩
      · show (s.records.get p).map _ = _
        rw [show s.records.get p = some n from hn]
        rfl
      · show ({ n.item with value } : ResourceItem) = { node.item with value }
        rw [hitem]
    · exact hkeep (.inr he)

/-- A client whose chains are empty gets others that are. -/
theorem modifyClient (h : TableOk L m s) (hL : ∀ j, L cid j = []) (f : ClientResourceRec → ClientResourceRec)
    (hsizes : (f (s.clientTable cid)).resources = [] ∨
      (6 ≤ (f (s.clientTable cid)).hashsize ∧ (f (s.clientTable cid)).hashsize ≤ 11) ∧
        (f (s.clientTable cid)).resources.length = 2 ^ (f (s.clientTable cid)).hashsize)
    (hnone : ∀ (j : Nat) (head : Option ResourcePtr), (f (s.clientTable cid)).resources[j]? = some head → head = none) :
    TableOk L m (s.modifyClient cid f) := by
  refine ⟨fun c hc => ?_, fun c i head hi => ?_, fun c i hi => ?_, fun c i q hq => ?_, fun id => ?_, h.entry, h.nodup⟩
  · rw [inUse_iff] at hc
    rw [clientTable_modifyClient] at hc ⊢
    by_cases hcc : c = cid
    · rw [if_pos hcc] at hc ⊢
      rcases hsizes with hempty | hsizes
      · rw [hempty] at hc
        cases hc
      · exact hsizes
    · rw [if_neg hcc] at hc ⊢
      exact h.sizes c (inUse_iff.2 hc)
  · rw [clientTable_modifyClient] at hi
    by_cases hcc : c = cid
    · rw [if_pos hcc] at hi
      rw [hcc, hL, hnone i head hi]
      rfl
    · rw [if_neg hcc] at hi
      exact h.chain c i head hi
  · by_cases hcc : c = cid
    · rw [hcc, hL]
    · rw [clientTable_modifyClient, if_neg hcc] at hi
      exact h.outside c i hi
  · have hcc : c ≠ cid := by
      rintro rfl
      rw [hL] at hq
      cases hq
    rw [clientTable_modifyClient, if_neg hcc]
    exact h.label c i q hq
  · by_cases hcc : clientId id = cid
    · have hagree := h.agree id
      rw [hcc, hL] at hagree
      rw [hcc, hL, ← hagree]
      rfl
    · have hbucket : (s.modifyClient cid f).bucket id = s.bucket id := by
        rw [State.bucket, clientTable_modifyClient, if_neg hcc]
        rfl
      rw [hbucket]
      exact h.agree id

end TableOk

end Nas.ResourceTable
