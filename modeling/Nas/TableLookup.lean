import Nas.TableCount

/-!
# Lookups in the table of resources

`Placed` says that each record is in the chain for the hash of its id, which a table keeps when it grows. What a
lookup finds is then what it found before, or a record that was added under its id (`lookup_add`); taking records
out only makes it find less.
-/

namespace Nas

variable {c : ClientResource} {t : ClientTable} {id : AuID} {type : ResourceType} {q client : Nat} {r : Resource}

/-- Each record is in the chain for the hash of its id. -/
def ClientResource.Placed (c : ClientResource) : Prop :=
  ∀ j l, c.resources[j]? = some l → ∀ r ∈ l, hash c.hashsize r.id = j

def ClientTable.Placed (t : ClientTable) : Prop := ∀ client c, t client = some c → c.Placed

/-- What is only in one chain is found there. -/
theorem find_flatten {α : Type} {l : List (List α)} {P : α → Bool} {k : Nat}
    (h : ∀ j c, l[j]? = some c → ∀ a ∈ c, P a → j = k) : l.flatten.find? P = (l.getD k []).find? P := by
  induction l generalizing k with
  | nil => rfl
  | cons c l ih =>
    rw [List.flatten_cons, List.find?_append]
    cases k with
    | zero =>
      have hrest : l.flatten.find? P = none := by
        rw [List.find?_eq_none]
        intro a ha hP
        obtain ⟨d, hd, ha⟩ := List.mem_flatten.1 ha
        obtain ⟨j, hj⟩ := List.getElem?_of_mem hd
        exact absurd (h (j + 1) d hj a ha hP) (Nat.succ_ne_zero j)
      rw [hrest, Option.or_none, List.getD_cons_zero]
    | succ k =>
      have hfirst : c.find? P = none := by
        rw [List.find?_eq_none]
        intro a ha hP
        exact absurd (h 0 c rfl a ha hP) (Nat.succ_ne_zero k).symm
      rw [hfirst, Option.none_or, List.getD_cons_succ]
      exact ih fun j d hj a ha hP => Nat.succ.inj (h (j + 1) d hj a ha hP)

namespace ClientResource.Placed

theorem find_chain (h : c.Placed) {P : Resource → Bool} (hP : ∀ r, P r → r.id = id) :
    c.resources.flatten.find? P = (c.chain id).find? P :=
  find_flatten fun j l hj r hr hPr => by rw [← hP r hPr, h j l hj r hr]

/-- A larger table has the records of an id in their order. -/
theorem find_grow (h : c.Placed) {mem : Bool} {P : Resource → Bool} (hP : ∀ r, P r → r.id = id)
    (hr : ((c.grow mem).chain id).find? P = some r) : (c.chain id).find? P = some r := by
  unfold ClientResource.grow at hr
  split at hr
  · rw [← h.find_chain hP]
    unfold ClientResource.chain ClientResource.rebuildTable at hr
    dsimp only at hr
    rw [List.getD_eq_getElem?_getD, List.getElem?_map] at hr
    cases hk : (List.range (2 * c.resources.length))[hash (c.hashsize + 1) id]? with
    | none =>
      rw [hk] at hr
      cases hr
    | some k =>
      rw [hk, Option.map_some, Option.getD_some, List.find?_filter] at hr
      obtain rfl : hash (c.hashsize + 1) id = k := by
        rw [List.getElem?_eq_some_iff] at hk
        obtain ⟨hlt, hk⟩ := hk
        rwa [List.getElem_range] at hk
      rw [← hr]
      congr 1
      funext r
      by_cases hPr : P r = true
      · simp [hPr, hP r hPr]
      · simp [hPr]
  · exact hr

theorem grow (h : c.Placed) (mem : Bool) : (c.grow mem).Placed := by
  unfold ClientResource.grow
  split
  · intro j l hj r hr
    unfold ClientResource.rebuildTable at hj ⊢
    rw [List.getElem?_map] at hj
    obtain ⟨k, hk, rfl⟩ := Option.map_eq_some_iff.1 hj
    rw [List.getElem?_eq_some_iff] at hk
    obtain ⟨hlt, hk⟩ := hk
    rw [List.getElem_range] at hk
    subst hk
    exact of_decide_eq_true (List.mem_filter.1 hr).2
  · exact h

theorem modifyChain (h : c.Placed) {f : List Resource → List Resource} {elements : Nat}
    (hf : ∀ l, ∀ r ∈ f l, r ∈ l ∨ r.id = id) :
    ({ c.modifyChain id f with elements } : ClientResource).Placed := by
  intro j l hj r hr
  unfold ClientResource.modifyChain at hj ⊢
  dsimp only at hj ⊢
  rw [List.getElem?_modify] at hj
  obtain ⟨l₀, hl₀, rfl⟩ := Option.map_eq_some_iff.1 hj
  split at hr
  · rename_i hk
    rcases hf l₀ r hr with hr | hid
    · exact h j l₀ hl₀ r hr
    · rw [hid, hk]
  · exact h j l₀ hl₀ r hr

theorem add (h : c.Placed) (r : Resource) : (c.add r).Placed := by
  unfold ClientResource.add
  refine h.modifyChain fun l r' hr' => ?_
  rcases List.mem_cons.1 hr' with rfl | hr'
  · exact .inr rfl
  · exact .inl hr'

end ClientResource.Placed

/-- The chain of an id when that of another one is changed. -/
theorem chain_modifyChain (c : ClientResource) (id id' : AuID) (f : List Resource → List Resource) (elements : Nat) :
    ({ c.modifyChain id f with elements } : ClientResource).chain id' =
      if hash c.hashsize id = hash c.hashsize id' ∧ hash c.hashsize id < c.resources.length then f (c.chain id')
      else c.chain id' := by
  unfold ClientResource.chain ClientResource.modifyChain
  dsimp only
  rw [List.getD_eq_getElem?_getD, List.getElem?_modify, List.getD_eq_getElem?_getD]
  by_cases hlt : hash c.hashsize id' < c.resources.length
  · rw [List.getElem?_eq_getElem hlt]
    by_cases hk : hash c.hashsize id = hash c.hashsize id'
    · rw [if_pos ⟨hk, hk ▸ hlt⟩]
      simp [hk]
    · rw [if_neg fun h => hk h.1]
      simp [hk]
  · rw [List.getElem?_eq_none (Nat.le_of_not_lt hlt), if_neg (by rintro ⟨hk, hlt'⟩; exact hlt (hk ▸ hlt'))]
    rfl

theorem lookup_eq_some : lookupIDByType t id type = some q ↔
    ∃ c r, t (clientId id) = some c ∧ (c.chain id).find? (fun r => r.id = id ∧ r.type = type) = some r ∧ r.value = q := by
  unfold lookupIDByType
  rw [Option.map_eq_some_iff]
  constructor
  · rintro ⟨r, hr, hq⟩
    obtain ⟨c, hc, hr⟩ := Option.bind_eq_some_iff.1 hr
    exact ⟨c, r, hc, hr, hq⟩
  · rintro ⟨c, r, hc, hr, hq⟩
    exact ⟨r, Option.bind_eq_some_iff.2 ⟨c, hc, hr⟩, hq⟩

theorem lookup_take {id' : AuID} (h : lookupIDByType (takeResource t id).2 id' type = some q) :
    lookupIDByType t id' type = some q := by
  unfold takeResource at h
  split at h
  · exact h
  · rename_i c hc
    dsimp only at h
    obtain ⟨c', r, hc', hr, hq⟩ := lookup_eq_some.1 h
    by_cases hclient : clientId id' = clientId id
    · rw [hclient, Function.update_self, Option.some.injEq] at hc'
      subst hc'
      refine lookup_eq_some.2 ⟨c, r, by rw [hclient]; exact hc, ?_, hq⟩
      rw [chain_modifyChain] at hr
      split at hr
      · rw [List.find?_filter] at hr
        -- a record that is left is the first one that there was
        have hne : id' ≠ id := by
          rintro rfl
          have hr := List.find?_some hr
          simp only [decide_eq_true_eq] at hr
          exact hr.1 hr.2.1
        rw [← hr]
        congr 1
        funext r'
        by_cases hid : r'.id = id'
        · simp [hid, hne]
        · simp [hid]
      · exact hr
    · rw [Function.update_of_ne hclient] at hc'
      exact lookup_eq_some.2 ⟨c', r, hc', hr, hq⟩

theorem lookup_close (h : lookupIDByType (takeClientResources t client).2 id type = some q) :
    lookupIDByType t id type = some q := by
  obtain ⟨c, r, hc, hr, hq⟩ := lookup_eq_some.1 h
  unfold takeClientResources at hc
  dsimp only at hc
  by_cases hclient : clientId id = client
  · rw [hclient, Function.update_self] at hc
    cases hc
  · rw [Function.update_of_ne hclient] at hc
    exact lookup_eq_some.2 ⟨c, r, hc, hr, hq⟩

/-- A record is added, or the table only grows for it. -/
theorem lookup_grow (ht : t.Placed) {mem : Bool} (hc : t client = some c)
    (h : lookupIDByType (Function.update t client (some (c.grow mem))) id type = some q) :
    lookupIDByType t id type = some q := by
  obtain ⟨c', r, hc', hr, hq⟩ := lookup_eq_some.1 h
  by_cases hclient : clientId id = client
  · rw [hclient, Function.update_self, Option.some.injEq] at hc'
    subst hc'
    exact lookup_eq_some.2 ⟨c, r, by rw [hclient]; exact hc,
      (ht client c hc).find_grow (fun r hr => (of_decide_eq_true hr).1) hr, hq⟩
  · rw [Function.update_of_ne hclient] at hc'
    exact lookup_eq_some.2 ⟨c', r, hc', hr, hq⟩

theorem lookup_add {c₀ : ClientResource} (h : lookupIDByType (Function.update t (clientId r.id) (some (c₀.add r))) id type =
    some q) : lookupIDByType (Function.update t (clientId r.id) (some c₀)) id type = some q ∨
      id = r.id ∧ type = r.type ∧ q = r.value := by
  obtain ⟨c', r', hc', hr, hq⟩ := lookup_eq_some.1 h
  by_cases hclient : clientId id = clientId r.id
  · rw [hclient, Function.update_self, Option.some.injEq] at hc'
    subst hc'
    unfold ClientResource.add at hr
    rw [chain_modifyChain] at hr
    have hold (hr : (c₀.chain id).find? (fun r => r.id = id ∧ r.type = type) = some r') :
        lookupIDByType (Function.update t (clientId r.id) (some c₀)) id type = some q :=
      lookup_eq_some.2 ⟨c₀, r', by rw [hclient, Function.update_self], hr, hq⟩
    split at hr
    · rw [List.find?_cons] at hr
      split at hr
      · rename_i hnew
        cases hr
        exact .inr ⟨(of_decide_eq_true hnew).1.symm, (of_decide_eq_true hnew).2.symm, hq.symm⟩
      · exact .inl (hold hr)
    · exact .inl (hold hr)
  · rw [Function.update_of_ne hclient] at hc'
    exact .inl (lookup_eq_some.2 ⟨c', r', by rw [Function.update_of_ne hclient]; exact hc', hr, hq⟩)

namespace ClientTable.Placed

theorem update (h : t.Placed) (hc : c.Placed) : ClientTable.Placed (Function.update t client (some c)) := by
  intro client' c' hc'
  by_cases hclient : client' = client
  · rw [hclient, Function.update_self, Option.some.injEq] at hc'
    exact hc' ▸ hc
  · rw [Function.update_of_ne hclient] at hc'
    exact h client' c' hc'

theorem take (h : t.Placed) (id : AuID) : ClientTable.Placed (takeResource t id).2 := by
  unfold takeResource
  split
  · exact h
  · rename_i c hc
    exact h.update ((h _ c hc).modifyChain fun l r hr => .inl (List.mem_filter.1 hr).1)

theorem close (h : t.Placed) (client : Nat) : ClientTable.Placed (takeClientResources t client).2 := by
  intro client' c' hc'
  unfold takeClientResources at hc'
  dsimp only at hc'
  by_cases hclient : client' = client
  · rw [hclient, Function.update_self] at hc'
    cases hc'
  · rw [Function.update_of_ne hclient] at hc'
    exact h client' c' hc'

end ClientTable.Placed

end Nas
