import Nas.ResourceInv

/-!
# A larger table

`RebuildTable` takes the records out of the old chains one after the other, and puts each at the end of its new one.
After some of them, `moved`, the new chain of an index has those of them that belong there, in the order in which they
came (`Rebuilt`). So the records of an id, which came from one old chain, keep their order (`rebuildTable_spec`).
-/

namespace Nas.ResourceTable

variable {L : Nat → Nat → List ResourcePtr} {m : Multimap} {s s' : State} {cid j k n : Nat} {p : ResourcePtr}
  {node : Node ResourceItem} {moved l : List ResourcePtr} {t : Rebuild} {id : AuID}

/-- Whether a record belongs to a chain of a table of that size. -/
def State.belongs (s : State) (k j : Nat) (p : ResourcePtr) : Bool :=
  (s.records.get p).any fun node => hash k node.item.id = j

/-- `RebuildTable`, after it has moved some records. -/
structure Rebuilt (s : State) (k : Nat) (moved : List ResourcePtr) (t : Rebuild) : Prop where
  length : t.resources.length = 2 ^ k
  chain : ∀ j, j < 2 ^ k → ∃ head, t.resources[j]? = some head ∧
    Segment t.records head (moved.filter (s.belongs k j)) none
  tails : ∀ j, j < 2 ^ k → t.tails[j]? = some ((Slot.head j).after (moved.filter (s.belongs k j)))
  items : ∀ p, (t.records.get p).map (·.item) = (s.records.get p).map (·.item)
  others : ∀ p, p ∉ moved → t.records.get p = s.records.get p
  next : t.records.next = s.records.next

theorem moveRecord_spec (h : Rebuilt s k moved t) (hk : 6 ≤ k ∧ k ≤ 11) (hnodup : (moved ++ [p]).Nodup)
    (hget : s.records.get p = some node) :
    ∃ t', moveRecord k p t = .ok (node.next, t') ∧ Rebuilt s k (moved ++ [p]) t' := by
  have hp : p ∉ moved := fun hp => (List.disjoint_of_nodup_append hnodup) hp (List.mem_singleton_self p)
  have hj := hash_lt hk node.item.id
  generalize hjdef : hash k node.item.id = j at hj
  obtain ⟨head, hhead, hseg⟩ := h.chain j hj
  have hpj : p ∉ moved.filter (s.belongs k j) := fun hmem => hp (List.mem_filter.1 hmem).1
  -- the record has no `next` any more
  have hget₁ : ∀ q, (t.records.modify p ({ · with next := none })).get q =
      if q = p then some { node with next := none } else t.records.get q := fun q => by
    rw [Heap.get_modify]
    by_cases hq : q = p
    · rw [if_pos hq, if_pos hq, hq, h.others p hp, hget]
      rfl
    · rw [if_neg hq, if_neg hq]
  have hseg₁ : Segment (t.records.modify p ({ · with next := none })) head (moved.filter (s.belongs k j)) none :=
    hseg.congr fun q hq => by
      rw [hget₁, if_neg]
      rintro rfl
      exact hpj hq
  have hchain := ((hnodup.sublist (List.sublist_append_left ..)).filter (s.belongs k j))
  obtain ⟨resources, records, hwrite, hw⟩ := hseg₁.write hhead hchain (some p)
  have hbelongs : ∀ i, (moved ++ [p]).filter (s.belongs k i) =
      if i = j then moved.filter (s.belongs k j) ++ [p] else moved.filter (s.belongs k i) := fun i => by
    have hpi : s.belongs k i p = decide (j = i) := by
      rw [State.belongs, hget, Option.any_some, hjdef]
    rw [List.filter_append, List.filter_cons, hpi, List.filter_nil]
    by_cases hij : i = j
    · rw [if_pos hij, hij, if_pos (by simp)]
    · rw [if_neg hij, if_neg (by simpa using fun h => hij h.symm), List.append_nil]
  refine ⟨{ resources, tails := t.tails.set j (.next p), records }, ?_, hw.length.trans h.length, fun i hi => ?_,
    fun i hi => ?_, fun q => ?_, fun q hq => ?_, ?_⟩
  · unfold moveRecord
    rw [h.others p hp, hget, Exec.deref_some, Exec.ok_bind, hjdef]
    dsimp only
    rw [h.tails j hj, Exec.deref_some, Exec.ok_bind, hwrite, Exec.ok_bind]
  · show ∃ head, resources[i]? = some head ∧ Segment records head _ none
    rw [hbelongs]
    by_cases hij : i = j
    · subst hij
      obtain ⟨head', hhead', hseg'⟩ := hw.segment
      rw [if_pos rfl]
      refine ⟨head', hhead', Segment.append.2 ⟨some p, hseg', rfl, { node with next := none }, ?_, rfl⟩⟩
      rw [hw.nodes p hpj, hget₁, if_pos rfl]
    · obtain ⟨head', hhead', hseg'⟩ := h.chain i hi
      rw [if_neg hij]
      refine ⟨head', (hw.heads i hij).trans hhead', hseg'.congr fun q hq => ?_⟩
      -- what belongs to one chain does not belong to the other
      have hqj : q ∉ moved.filter (s.belongs k j) := by
        intro hq'
        have hi' := (List.mem_filter.1 hq).2
        have hj' := (List.mem_filter.1 hq').2
        rw [State.belongs] at hi' hj'
        obtain ⟨n, hn, hi'⟩ := (Option.any_eq_true ..).1 hi'
        obtain ⟨n', hn', hj'⟩ := (Option.any_eq_true ..).1 hj'
        cases hn.symm.trans hn'
        exact hij ((of_decide_eq_true hi').symm.trans (of_decide_eq_true hj'))
      rw [hw.nodes q hqj, hget₁, if_neg]
      rintro rfl
      exact hp (List.mem_filter.1 hq).1
  · show (t.tails.set j (.next p))[i]? = _
    rw [hbelongs]
    by_cases hij : i = j
    · subst hij
      have hlt : i < t.tails.length := (List.getElem?_eq_some_iff.1 (h.tails i hi)).1
      rw [if_pos rfl, Slot.after_concat, List.getElem?_set_self hlt]
    · rw [if_neg hij, List.getElem?_set_ne (fun h => hij h.symm)]
      exact h.tails i hi
  · show (records.get q).map _ = _
    rw [hw.items, hget₁]
    by_cases hq : q = p
    · rw [if_pos hq, hq, hget]
      rfl
    · rw [if_neg hq]
      exact h.items q
  · rw [List.mem_append, not_or, List.mem_singleton] at hq
    have hqj : q ∉ moved.filter (s.belongs k j) := fun hmem => hq.1 (List.mem_filter.1 hmem).1
    show records.get q = _
    rw [hw.nodes q hqj, hget₁, if_neg hq.2, h.others q hq.1]
  · exact hw.next.trans h.next

theorem moveChain_spec (h : Rebuilt s k moved t) (hk : 6 ≤ k ∧ k ≤ 11) (hnodup : (moved ++ l).Nodup)
    {head : Option ResourcePtr} (hseg : Segment s.records head l none) (hn : l.length ≤ n) :
    ∃ t', moveChain k n t head = .ok t' ∧ Rebuilt s k (moved ++ l) t' := by
  induction l generalizing moved t head n with
  | nil =>
    cases hseg
    refine ⟨t, ?_, by rwa [List.append_nil]⟩
    unfold moveChain
    rfl
  | cons p l ih =>
    obtain ⟨rfl, node, hget, hseg⟩ := hseg
    obtain ⟨n, rfl⟩ : ∃ n', n = n' + 1 := ⟨n - 1, by simp at hn; omega⟩
    rw [show moved ++ p :: l = (moved ++ [p]) ++ l by simp] at hnodup ⊢
    obtain ⟨t₁, hmove, h₁⟩ := moveRecord_spec h hk (hnodup.sublist (List.sublist_append_left ..)) hget
    obtain ⟨t', hrest, h'⟩ := ih h₁ hnodup hseg (by simpa using hn)
    exact ⟨t', by rw [moveChain, hmove, Exec.ok_bind]; exact hrest, h'⟩

/-- The loop over the old chains. -/
theorem moveChains_spec {heads : List (Option ResourcePtr)} {chains : List (List ResourcePtr)}
    (hchains : List.Forall₂ (fun head l => Segment s.records head l none) heads chains) (h : Rebuilt s k moved t)
    (hk : 6 ≤ k ∧ k ≤ 11) (hnodup : (moved ++ chains.flatten).Nodup) :
    ∃ t', heads.foldlM (moveChain k s.records.next) t = .ok t' ∧ Rebuilt s k (moved ++ chains.flatten) t' := by
  induction hchains generalizing moved t with
  | nil => exact ⟨t, rfl, by simpa using h⟩
  | @cons head l heads chains hseg _ ih =>
    rw [List.flatten_cons, ← List.append_assoc] at hnodup ⊢
    obtain ⟨t₁, hmove, h₁⟩ := moveChain_spec h hk (hnodup.sublist (List.sublist_append_left ..)) hseg hseg.length_le
    obtain ⟨t', hrest, h'⟩ := ih h₁ hnodup
    exact ⟨t', by rw [List.foldlM_cons, hmove]; exact hrest, h'⟩

/-! ### The table -/

theorem rebuilt_start (s : State) (k : Nat) : Rebuilt s k []
    { resources := List.replicate (2 ^ k) none, tails := (List.range (2 ^ k)).map .head, records := s.records } where
  length := List.length_replicate
  chain j hj := ⟨none, by rw [List.getElem?_replicate, if_pos hj], rfl⟩
  tails j hj := by
    rw [List.getElem?_map, List.getElem?_range hj]
    rfl
  items _ := rfl
  others _ _ := rfl
  next := rfl

/-- Where all lists but one are empty. -/
theorem flatMap_range_single {α : Type} {f : Nat → List α} (hj : j < n) (hf : ∀ i, i ≠ j → f i = []) :
    (List.range n).flatMap f = f j := by
  induction n with
  | zero => cases hj
  | succ n ih =>
    rw [List.range_succ, List.flatMap_append, List.flatMap_cons, List.flatMap_nil, List.append_nil]
    by_cases hjn : j = n
    · rw [hjn, List.flatMap_eq_nil_iff.2 fun i hi => hf i ?_, List.nil_append]
      rw [hjn]
      exact Nat.ne_of_lt (List.mem_range.1 hi)
    · rw [ih (by omega), hf n fun h => hjn h.symm, List.append_nil]

/-- A record that moves is one of the client's. -/
theorem label_of_mem (h : TableOk L m s)
    (hp : p ∈ (List.range (s.clientTable cid).resources.length).flatMap (L cid)) :
    ∃ node i, s.records.get p = some node ∧ clientId node.item.id = cid ∧ p ∈ L cid i := by
  obtain ⟨i, -, hpi⟩ := List.mem_flatMap.1 hp
  obtain ⟨node, hget, hcid, -⟩ := h.label cid i p hpi
  exact ⟨node, i, hget, hcid, hpi⟩

theorem nodup_flatMap_chains (h : TableOk L m s) :
    ((List.range (s.clientTable cid).resources.length).flatMap (L cid)).Nodup := by
  refine List.nodup_flatMap.2 ⟨fun i _ => h.chain_nodup cid i, ?_⟩
  refine List.nodup_range.imp fun {i j} hij p hpi hpj => ?_
  exact hij (h.disjoint hpj hpi).2

/-- What the records of an id are, in the chains that move. -/
theorem filter_flatMap_chains (h : TableOk L m s) (hid : clientId id = cid) (hc : s.inUse cid = true) :
    ((List.range (s.clientTable cid).resources.length).flatMap (L cid)).filter (s.hasId id) =
      Multimap.recordsOf m id := by
  have hother : ∀ i, i ≠ s.bucket id → (L cid i).filter (s.hasId id) = [] := fun i hi => by
    rw [List.filter_eq_nil_iff]
    intro p hp hhas
    obtain ⟨node, hget, -, hhash⟩ := h.label cid i p hp
    rw [State.hasId, hget, Option.any_some, decide_eq_true_eq] at hhas
    rw [hhas, ← hid] at hhash
    exact hi hhash.symm
  subst hid
  rw [List.filter_flatMap, flatMap_range_single (h.bucket_lt hc) hother]
  exact h.agree id

theorem rebuildTable_spec (h : TableOk L m s) (hc : s.inUse cid = true) (hsize : (s.clientTable cid).hashsize < 11)
    (mem : Bool) :
    ∃ s' L', rebuildTable mem cid s = .ok s' ∧ TableOk L' m s' ∧ s'.stack = s.stack ∧ s'.history = s.history ∧
      s'.exited = s.exited ∧ s'.records.next = s.records.next ∧
      (∀ p, (s'.records.get p).map (·.item) = (s.records.get p).map (·.item)) ∧
      ∀ c, s'.inUse c = s.inUse c := by
  unfold rebuildTable
  rcases mem with _ | _
  · exact ⟨s, L, by rw [if_pos (by simp)], h, rfl, rfl, rfl, rfl, fun _ => rfl, fun _ => rfl⟩
  rw [if_neg (by simp)]
  dsimp only
  obtain ⟨hsz, hlen⟩ := h.sizes cid hc
  have hk : 6 ≤ (s.clientTable cid).hashsize + 1 ∧ (s.clientTable cid).hashsize + 1 ≤ 11 := by omega
  have hdouble : 2 * (s.clientTable cid).resources.length = 2 ^ ((s.clientTable cid).hashsize + 1) := by
    rw [hlen, pow_succ, Nat.mul_comm]
  rw [hdouble]
  generalize hkdef : (s.clientTable cid).hashsize + 1 = k at hk ⊢
  have hchains : List.Forall₂ (fun head l => Segment s.records head l none) (s.clientTable cid).resources
      ((List.range (s.clientTable cid).resources.length).map (L cid)) := by
    refine List.forall₂_iff_get.2 ⟨by simp, fun i hi hi' => ?_⟩
    rw [List.get_eq_getElem, List.get_eq_getElem, List.getElem_map, List.getElem_range]
    exact h.chain cid i _ (List.getElem?_eq_getElem hi)
  have hnodup : ((List.range (s.clientTable cid).resources.length).flatMap (L cid)).Nodup := nodup_flatMap_chains h
  obtain ⟨t, hmove, ht⟩ := moveChains_spec hchains (rebuilt_start s k) hk
    (by rw [List.nil_append, ← List.flatMap_def]; exact hnodup)
  rw [List.nil_append, ← List.flatMap_def] at ht
  rw [hmove, Exec.ok_bind]
  generalize hmoved : (List.range (s.clientTable cid).resources.length).flatMap (L cid) = moved at ht
  have hlabel : ∀ {p}, p ∈ moved → ∃ node i, s.records.get p = some node ∧ clientId node.item.id = cid ∧ p ∈ L cid i :=
    fun hp => label_of_mem h (hmoved ▸ hp)
  generalize hs' : ({ s.modifyClient cid ({ · with resources := t.resources, hashsize := k }) with
    records := t.records } : State) = s'
  have htable : ∀ c, s'.clientTable c =
      if c = cid then { s.clientTable cid with resources := t.resources, hashsize := k } else s.clientTable c := by
    intro c
    rw [← hs']
    show (s.modifyClient cid ({ · with resources := t.resources, hashsize := k })).clientTable c = _
    exact clientTable_modifyClient c
  have hrecords : s'.records = t.records := by rw [← hs']
  have hget : ∀ {p node}, s.records.get p = some node → ∃ node', s'.records.get p = some node' ∧ node'.item = node.item :=
    fun {p node} hp => by
      have hitem := ht.items p
      rw [hp] at hitem
      rw [hrecords]
      exact Option.map_eq_some_iff.1 hitem
  have hinUse : ∀ c, s'.inUse c = s.inUse c := by
    intro c
    rw [Bool.eq_iff_iff, inUse_iff, inUse_iff, htable]
    by_cases hcc : c = cid
    · have hold := inUse_iff.1 hc
      have hnew : 0 < t.resources.length := by
        rw [ht.length]
        exact Nat.two_pow_pos k
      rw [if_pos hcc, hcc]
      exact ⟨fun _ => hold, fun _ => hnew⟩
    · rw [if_neg hcc]
  have hhas : s'.hasId = s.hasId := by
    funext id p
    have hany : ∀ o : Option (Node ResourceItem), o.any (fun node => decide (node.item.id = id)) =
        (o.map (·.item)).any fun r => decide (r.id = id) := fun o => by rw [Option.any_map]
    rw [State.hasId, State.hasId, hrecords, hany, hany, ht.items]
  refine ⟨s', fun c j => if c = cid then moved.filter (s.belongs k j) else L c j, rfl,
    ⟨fun c hcu => ?_, fun c j head hj => ?_, fun c j hj => ?_, fun c j p hp => ?_, fun id => ?_, fun e he => ?_, h.nodup⟩,
    by rw [← hs']; rfl, by rw [← hs']; rfl, by rw [← hs']; rfl, by rw [hrecords, ht.next],
    fun p => by rw [hrecords, ht.items], hinUse⟩
  · rw [hinUse] at hcu
    rw [htable]
    by_cases hcc : c = cid
    · rw [if_pos hcc]
      exact ⟨hk, ht.length⟩
    · rw [if_neg hcc]
      exact h.sizes c hcu
  · rw [htable] at hj
    rw [hrecords]
    by_cases hcc : c = cid
    · rw [if_pos hcc] at hj ⊢
      have hlt : j < t.resources.length := (List.getElem?_eq_some_iff.1 hj).1
      obtain ⟨head', hhead', hseg⟩ := ht.chain j (ht.length ▸ hlt)
      cases hhead'.symm.trans hj
      exact hseg
    · rw [if_neg hcc] at hj ⊢
      refine (h.chain c j head hj).congr fun q hq => ht.others q fun hq' => ?_
      obtain ⟨-, i, -, -, hqi⟩ := hlabel hq'
      exact hcc (h.disjoint hqi hq).1
  · rw [htable] at hj
    by_cases hcc : c = cid
    · rw [if_pos hcc] at hj ⊢
      rw [List.filter_eq_nil_iff]
      intro q hq hbel
      obtain ⟨node, -, hn, -, -⟩ := hlabel hq
      rw [State.belongs, hn, Option.any_some, decide_eq_true_eq] at hbel
      have hlt := hash_lt hk node.item.id
      rw [hbel] at hlt
      rw [ht.length] at hj
      omega
    · rw [if_neg hcc] at hj ⊢
      exact h.outside c j hj
  · rw [htable]
    by_cases hcc : c = cid
    · rw [if_pos hcc] at hp ⊢
      obtain ⟨hpm, hbel⟩ := List.mem_filter.1 hp
      obtain ⟨node, -, hn, hcid, -⟩ := hlabel hpm
      obtain ⟨node', hn', hitem⟩ := hget hn
      rw [State.belongs, hn, Option.any_some, decide_eq_true_eq] at hbel
      exact ⟨node', hn', by rw [hitem, hcid, hcc], by rw [hitem]; exact hbel⟩
    · rw [if_neg hcc] at hp ⊢
      obtain ⟨node, hn, hl⟩ := h.label c j p hp
      obtain ⟨node', hn', hitem⟩ := hget hn
      exact ⟨node', hn', by rw [hitem]; exact hl⟩
  · rw [hhas, State.bucket, htable]
    by_cases hcc : clientId id = cid
    · rw [if_pos hcc, if_pos hcc, List.filter_filter, ← filter_flatMap_chains h hcc hc, hmoved]
      refine List.filter_congr fun q _ => ?_
      -- what has the id belongs to its chain
      rw [State.hasId, State.belongs]
      rcases s.records.get q with _ | node
      · rfl
      · rw [Option.any_some, Option.any_some]
        by_cases hq : node.item.id = id
        · simp [hq]
        · simp [hq]
    · rw [if_neg hcc, if_neg hcc]
      exact h.agree id
  · obtain ⟨node, hn, hitem⟩ := h.entry e he
    obtain ⟨node', hn', hitem'⟩ := hget hn
    exact ⟨node', hn', hitem'.trans hitem⟩

end Nas.ResourceTable
