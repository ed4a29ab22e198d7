import Nas.Ledger
import Nas.ServerRule

/-!
# Records and references

What the table of resources has references to, and how that changes with the records.
-/

namespace Nas

/-! ### Chains -/

section
variable {α : Type} {l : List (List α)} {i : Nat} {f : List α → List α}

/-- One chain is changed. -/
theorem countP_flatten_modify (P : α → Bool) (h : i < l.length ∨ f [] = []) :
    (l.modify i f).flatten.countP P + (l.getD i []).countP P = l.flatten.countP P + (f (l.getD i [])).countP P := by
  induction l generalizing i with
  | nil =>
    have hf : f [] = [] := h.resolve_left (by simp)
    simp [hf]
  | cons a l ih =>
    cases i with
    | zero =>
      simp only [List.modify_zero_cons, List.flatten_cons, List.countP_append, List.getD_cons_zero]
      omega
    | succ i =>
      have ih := ih (i := i) (h.imp_left Nat.lt_of_succ_lt_succ)
      simp only [List.modify_succ_cons, List.flatten_cons, List.countP_append, List.getD_cons_succ]
      omega

/-- A list is dealt out to the chains by a hash of its members. -/
theorem countP_dealt {n : Nat} {h : α → Nat} {xs : List α} (P : α → Bool) (hlt : ∀ a ∈ xs, h a < n) :
    ((List.range n).map fun j => xs.filter fun a => h a = j).flatten.countP P = xs.countP P := by
  induction xs with
  | nil =>
    rw [List.countP_eq_zero.2]
    · rfl
    · intro a ha
      simp at ha
  | cons a xs ih =>
    have ih := ih fun b hb => hlt b (List.mem_cons_of_mem _ hb)
    have ha : h a < n := hlt a List.mem_cons_self
    rw [List.countP_flatten, List.map_map] at ih ⊢
    rw [List.countP_cons, ← ih]
    have hj (m : Nat) : ((List.range m).map ((List.countP P) ∘ fun j => (a :: xs).filter fun a => h a = j)).sum =
        ((List.range m).map ((List.countP P) ∘ fun j => xs.filter fun a => h a = j)).sum +
          if h a < m ∧ P a then 1 else 0 := by
      induction m with
      | zero => simp
      | succ m ihm =>
        rw [List.range_succ, List.map_append, List.sum_append, ihm, List.map_append, List.sum_append]
        simp only [List.map_cons, List.map_nil, List.sum_cons, List.sum_nil, Function.comp, List.filter_cons]
        by_cases hp : P a
        · by_cases hm : h a = m
          · simp only [hm, decide_true, if_true, List.countP_cons, hp, and_true]
            rw [if_neg (Nat.lt_irrefl m), if_pos (Nat.lt_succ_self m)]
            omega
          · simp only [hm, decide_false, Bool.false_eq_true, if_false, hp, and_true]
            split <;> split <;> omega
        · simp only [hp, and_false, Bool.false_eq_true, if_false]
          split
          · simp only [List.countP_cons, hp, Bool.false_eq_true, if_false]
            omega
          · omega
    rw [hj n]
    simp [ha]

end

/-! ### Clients -/

theorem hash_lt {n : Nat} (h₁ : 6 ≤ n) (h₂ : n ≤ 11) (id : AuID) : hash n id < 2 ^ n := by
  have : n = 6 ∨ n = 7 ∨ n = 8 ∨ n = 9 ∨ n = 10 ∨ n = 11 := by omega
  rcases this with rfl | rfl | rfl | rfl | rfl | rfl
  · exact Nat.mod_lt _ (by decide)
  · exact Nat.mod_lt _ (by decide)
  · exact Nat.mod_lt _ (by decide)
  · exact Nat.mod_lt _ (by decide)
  · exact Nat.mod_lt _ (by decide)
  · exact Nat.mod_lt _ (by decide)

theorem Resource.count_reference (r : Resource) (p : ComponentPtr) :
    r.reference.count p = if r.reference = [p] then 1 else 0 := by
  unfold Resource.reference
  split
  · by_cases hp : r.value = p
    · simp [hp]
    · simp [hp]
  · simp

theorem count_references (rs : List Resource) (p : ComponentPtr) :
    (rs.flatMap Resource.reference).count p = rs.countP fun r => r.reference = [p] := by
  induction rs with
  | nil => rfl
  | cons r rs ih =>
    rw [List.flatMap_cons, List.count_append, ih, r.count_reference, List.countP_cons]
    simp only [decide_eq_true_eq]
    omega

namespace ClientResource
variable {c : ClientResource}

/-- The table has a chain for each value of the hash. -/
structure Wf (c : ClientResource) : Prop where
  le : initHashSize ≤ c.hashsize
  ge : c.hashsize ≤ maxHashSize
  length : c.resources.length = 2 ^ c.hashsize

/-- How many references to a component the records are. -/
def owners (c : ClientResource) (p : ComponentPtr) : Nat :=
  c.resources.flatten.countP fun r => r.reference = [p]

theorem Wf.init : initClientResources.Wf := ⟨by decide, by decide, by decide⟩

theorem owners_init (p : ComponentPtr) : initClientResources.owners p = 0 := by
  rw [owners, List.countP_eq_zero]
  intro r hr
  exact absurd hr (by simp [initClientResources])

theorem Wf.hash_lt (h : c.Wf) (id : AuID) : hash c.hashsize id < c.resources.length := by
  rw [h.length]
  exact Nas.hash_lt h.le h.ge id

theorem Wf.grow (h : c.Wf) (mem : Bool) : (c.grow mem).Wf := by
  unfold ClientResource.grow
  split
  · rename_i hgrow
    refine ⟨?_, hgrow.2.1, ?_⟩
    · exact Nat.le_succ_of_le h.le
    · rw [rebuildTable, List.length_map, List.length_range, h.length, Nat.pow_succ, Nat.mul_comm]
  · exact h

theorem Wf.owners_grow (h : c.Wf) (mem : Bool) (p : ComponentPtr) : (c.grow mem).owners p = c.owners p := by
  unfold ClientResource.grow
  split
  · rename_i hgrow
    refine countP_dealt _ fun r _ => ?_
    have hlt := Nas.hash_lt (n := c.hashsize + 1) (Nat.le_succ_of_le h.le) hgrow.2.1 r.id
    rw [h.length, Nat.mul_comm, ← Nat.pow_succ]
    exact hlt
  · rfl

theorem Wf.modifyChain (h : c.Wf) (id : AuID) (f : List Resource → List Resource) (elements : Nat) :
    ({ c.modifyChain id f with elements } : ClientResource).Wf :=
  ⟨h.le, h.ge, by rw [ClientResource.modifyChain]; exact (List.length_modify _ _ _).trans h.length⟩

theorem Wf.owners_add (h : c.Wf) (r : Resource) (p : ComponentPtr) :
    (c.add r).owners p = c.owners p + if r.reference = [p] then 1 else 0 := by
  have hmodify := countP_flatten_modify (f := (r :: ·)) (fun r : Resource => r.reference = [p])
    (.inl (h.hash_lt r.id))
  rw [List.countP_cons] at hmodify
  simp only [decide_eq_true_eq] at hmodify
  rw [owners, owners, add, ClientResource.modifyChain]
  dsimp only
  omega

theorem owners_remove (id : AuID) (elements : Nat) (p : ComponentPtr) :
    ({ c.modifyChain id (·.filter (·.id ≠ id)) with elements } : ClientResource).owners p +
      ((c.chain id).filter (·.id = id)).countP (fun r => r.reference = [p]) = c.owners p := by
  have hmodify := countP_flatten_modify (l := c.resources) (i := hash c.hashsize id) (f := (·.filter (·.id ≠ id)))
    (fun r : Resource => r.reference = [p]) (.inr rfl)
  have hsplit := List.countP_eq_countP_filter_add (c.chain id) (fun r : Resource => r.reference = [p])
    (fun r => r.id = id)
  have hne : (c.chain id).filter (fun r => !decide (r.id = id)) = (c.chain id).filter (·.id ≠ id) := by
    refine List.filter_congr fun r _ => ?_
    simp
  rw [hne] at hsplit
  unfold chain at hsplit ⊢
  rw [owners, owners, ClientResource.modifyChain]
  dsimp only
  omega

end ClientResource

/-! ### The table -/

namespace ClientTable
variable {t : ClientTable} {client : Nat} {c c' : ClientResource} {p : ComponentPtr}

/-- Clients have well-formed tables, and only those that are told apart in ids have records. -/
structure Wf (t : ClientTable) : Prop where
  client : ∀ client c, t client = some c → c.Wf
  stranger : ∀ client c, t client = some c → 2 ^ 7 ≤ client → ∀ p, c.owners p = 0

/-- How many references to a component the records of all clients are. -/
def owners (t : ClientTable) (p : ComponentPtr) : Nat :=
  ∑ client ∈ Finset.range (2 ^ 7), ((t client).map fun c => c.owners p).getD 0

theorem clientId_lt (id : AuID) : clientId id < 2 ^ 7 := Nat.mod_lt _ (by decide)

theorem Wf.update (h : t.Wf) (hc' : c'.Wf) (hstranger : 2 ^ 7 ≤ client → ∀ p, c'.owners p = 0) :
    Wf (Function.update t client (some c')) := by
  refine ⟨fun k d hd => ?_, fun k d hd => ?_⟩
  · by_cases hk : k = client
    · subst hk
      rw [Function.update_self] at hd
      cases hd
      exact hc'
    · rw [Function.update_of_ne hk] at hd
      exact h.client k d hd
  · by_cases hk : k = client
    · subst hk
      rw [Function.update_self] at hd
      cases hd
      exact hstranger
    · rw [Function.update_of_ne hk] at hd
      exact h.stranger k d hd

theorem Wf.remove (h : t.Wf) (client : Nat) : Wf (Function.update t client none) := by
  refine ⟨fun k d hd => ?_, fun k d hd => ?_⟩
  · by_cases hk : k = client
    · subst hk
      rw [Function.update_self] at hd
      cases hd
    · rw [Function.update_of_ne hk] at hd
      exact h.client k d hd
  · by_cases hk : k = client
    · subst hk
      rw [Function.update_self] at hd
      cases hd
    · rw [Function.update_of_ne hk] at hd
      exact h.stranger k d hd

/-- Another table of one client. -/
theorem owners_update (hclient : client < 2 ^ 7) (o : Option ClientResource) (p : ComponentPtr) :
    owners (Function.update t client o) p + ((t client).map fun c => c.owners p).getD 0 =
      owners t p + (o.map fun c => c.owners p).getD 0 := by
  have hsum := sum_modify (fun k => ((t k).map fun c => c.owners p).getD 0)
    (fun k => ((Function.update t client o k).map fun c => c.owners p).getD 0) hclient fun k hk => by
      rw [Function.update_of_ne hk]
  rw [Function.update_self] at hsum
  exact hsum

/-- What is in the table has an owner. -/
theorem owners_of_lookup {id : AuID} (h : lookupIDByType t id .auComponentType = some p) : owners t p ≠ 0 := by
  obtain ⟨r, hr, rfl⟩ := Option.map_eq_some_iff.1 h
  obtain ⟨c, hc, hr⟩ := Option.bind_eq_some_iff.1 hr
  have hmem := List.mem_of_find?_eq_some hr
  have hp := List.find?_some hr
  have hmem : r ∈ c.resources.flatten := by
    unfold ClientResource.chain at hmem
    rw [List.getD_eq_getElem?_getD] at hmem
    rcases hchain : c.resources[hash c.hashsize id]? with - | chain
    · rw [hchain] at hmem
      cases hmem
    · rw [hchain] at hmem
      exact List.mem_flatten.2 ⟨chain, List.mem_of_getElem? hchain, hmem⟩
  have hreference : r.reference = [r.value] := by
    have htype : r.type = .auComponentType := by simpa using (of_decide_eq_true hp).2
    rw [Resource.reference, htype]
  have hpos : 0 < c.owners r.value := List.countP_pos_iff.2 ⟨r, hmem, by simpa using hreference⟩
  have hle := le_sum (fun k => ((t k).map fun c => c.owners r.value).getD 0) (clientId_lt id)
  rw [hc, Option.map_some, Option.getD_some] at hle
  unfold owners
  omega

/-- A new record. -/
theorem owners_add (h : t.Wf) {r : Resource} {mem : Bool} (hc : t (clientId r.id) = some c) (p : ComponentPtr) :
    owners (Function.update t (clientId r.id) (some ((c.grow mem).add r))) p =
      owners t p + r.reference.count p := by
  have hupdate := owners_update (t := t) (clientId_lt r.id) (some ((c.grow mem).add r)) p
  have hgrown : (c.grow mem).Wf := (h.client _ c hc).grow mem
  rw [hc, Option.map_some, Option.map_some, Option.getD_some, Option.getD_some, hgrown.owners_add,
    (h.client _ c hc).owners_grow] at hupdate
  rw [r.count_reference]
  omega

/-- Records that are taken out take their references with them. -/
theorem owners_take (t : ClientTable) (id : AuID) (p : ComponentPtr) :
    owners (takeResource t id).2 p + ((takeResource t id).1.flatMap Resource.reference).count p = owners t p := by
  unfold takeResource
  split
  · rw [List.flatMap_nil, List.count_nil, Nat.add_zero]
  · rename_i c hc
    dsimp only
    have hupdate := owners_update (t := t) (clientId_lt id) (some { c.modifyChain id (·.filter (·.id ≠ id)) with
      elements := c.elements - ((c.chain id).filter (·.id = id)).length }) p
    have hremove := ClientResource.owners_remove (c := c) id
      (c.elements - ((c.chain id).filter (·.id = id)).length) p
    dsimp only at hupdate hremove
    rw [hc, Option.map_some, Option.map_some, Option.getD_some, Option.getD_some] at hupdate
    rw [count_references]
    omega

theorem Wf.take (h : t.Wf) (id : AuID) : Wf (takeResource t id).2 := by
  unfold takeResource
  split
  · exact h
  · rename_i c hc
    exact h.update ((h.client _ c hc).modifyChain _ _ _) fun hge => absurd (clientId_lt id) (Nat.not_lt.2 hge)

theorem owners_close (h : t.Wf) (client : Nat) (p : ComponentPtr) :
    owners (takeClientResources t client).2 p +
      ((takeClientResources t client).1.flatMap Resource.reference).count p = owners t p := by
  have hrecords : ((takeClientResources t client).1.flatMap Resource.reference).count p =
      ((t client).map fun c => c.owners p).getD 0 := by
    rw [count_references, takeClientResources]
    rcases hc : t client with - | c
    · rfl
    · rfl
  have htable : (takeClientResources t client).2 = Function.update t client none := rfl
  rw [hrecords, htable]
  by_cases hlt : client < 2 ^ 7
  · have hupdate := owners_update (t := t) hlt none p
    rwa [Option.map_none, Option.getD_none, Nat.add_zero] at hupdate
  · have hsame : owners (Function.update t client none) p = owners t p := by
      refine Finset.sum_congr rfl fun k hk => ?_
      have hne : k ≠ client := fun heq => hlt (heq ▸ Finset.mem_range.1 hk)
      rw [Function.update_of_ne hne]
    rw [hsame]
    rcases hc : t client with - | c
    · rw [Option.map_none, Option.getD_none, Nat.add_zero]
    · rw [Option.map_some, Option.getD_some, h.stranger client c hc (Nat.not_lt.1 hlt) p, Nat.add_zero]

/-- A client that had no table has an empty one. -/
theorem owners_connect (hnone : t client = none) (p : ComponentPtr) :
    owners (Function.update t client (some initClientResources)) p = owners t p := by
  refine Finset.sum_congr rfl fun k _ => ?_
  by_cases hk : k = client
  · subst hk
    rw [Function.update_self, hnone, Option.map_some, Option.getD_some, ClientResource.owners_init]
    rfl
  · rw [Function.update_of_ne hk]

theorem owners_grow (h : t.Wf) (hc : t client = some c) (mem : Bool) (p : ComponentPtr) :
    owners (Function.update t client (some (c.grow mem))) p = owners t p := by
  refine Finset.sum_congr rfl fun k _ => ?_
  by_cases hk : k = client
  · subst hk
    rw [Function.update_self, hc, Option.map_some, Option.map_some, (h.client _ c hc).owners_grow]
  · rw [Function.update_of_ne hk]

end ClientTable
end Nas
