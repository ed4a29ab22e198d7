import Nas.ResourceTable

/-!
# What the resource table is for

A `Multimap` has for each id and type the records that were added, the latest first, and not taken out. The events of
a history make one (`Multimap.of`), and a history is `Legal` if the events say what a multimap does: a call takes out
the latest of the records of an id that it wants, calls its delete function with what it holds, unless it skips that,
and does not return while there is another one; and a record is freed once, after it was taken out.

Of a legal history each freed record was taken out, and so deleted, once (`Legal.once`).
-/

namespace Nas.ResourceTable

/-- The records that a call frees. -/
def Call.wants : Call → ResourceItem → Bool
  | freeResource id _, r => r.id = id
  | freeResourceByType id type _, r => r.id = id ∧ r.type = type
  | freeClientResources client, r => clientId r.id = client

/-- The records whose delete function a call does not call. -/
def Call.skips : Call → ResourceItem → Bool
  | freeResource _ skipDeleteFuncType, r => r.type = skipDeleteFuncType
  | freeResourceByType _ _ skipFree, _ => skipFree
  | freeClientResources _, _ => false

structure Entry where
  record : ResourcePtr
  item : ResourceItem
deriving DecidableEq, Repr

/-- The latest entry first. -/
abbrev Multimap := List Entry

namespace Multimap

def lookup (m : Multimap) (id : AuID) (type : ResType) : Pointer :=
  ((m.find? fun e => e.item.id = id ∧ e.item.type = type).map (·.item.value)).getD 0

/-- The records of an id. -/
def recordsOf (m : Multimap) (id : AuID) : List ResourcePtr := (m.filter (·.item.id = id)).map (·.record)

/-- Another value for the latest entry of an id and type. -/
def change (id : AuID) (type : ResType) (value : Pointer) : Multimap → Multimap
  | [] => []
  | e :: m =>
    if e.item.id = id ∧ e.item.type = type then { e with item := { e.item with value } } :: m
    else e :: change id type value m

def apply (m : Multimap) : Event → Multimap
  | .added p r => ⟨p, r⟩ :: m
  | .changed id type value => change id type value m
  | .taken _ p _ => m.filter (·.record ≠ p)
  | .freed _ | .returned _ => m

/-- The events are there the latest first. -/
def of (history : List Event) : Multimap := history.foldr (fun e m => apply m e) []

theorem of_cons (e : Event) (history : List Event) : of (e :: history) = apply (of history) e := rfl

theorem map_record_change (id : AuID) (type : ResType) (value : Pointer) (m : Multimap) :
    (change id type value m).map (·.record) = m.map (·.record) := by
  induction m with
  | nil => rfl
  | cons e m ih =>
    unfold change
    split
    · rfl
    · rw [List.map_cons, List.map_cons, ih]

end Multimap

/-- The calls that have taken a record out, and what its delete function was called with. -/
def takings (history : List Event) (p : ResourcePtr) : List (Call × Option ResourceItem) :=
  history.filterMap fun
    | .taken call q deleted => if q = p then some (call, deleted) else none
    | _ => none

/-- What a call does to a record that it takes out, if it holds `r`. -/
def Call.deletes (call : Call) (r : ResourceItem) : Option ResourceItem := if call.skips r then none else some r

/-- An event that can follow a history that has made `m`. -/
def Permitted (m : Multimap) (history : List Event) : Event → Prop
  | .added p _ => ∀ r, .added p r ∉ history
  | .changed .. => True
  | .taken call p deleted => ∃ e, m.find? (fun e' => e'.item.id = e.item.id && call.wants e'.item) = some e ∧
      e.record = p ∧ deleted = call.deletes e.item
  | .freed p => takings history p ≠ [] ∧ .freed p ∉ history
  | .returned call => ∀ e ∈ m, call.wants e.item = false

def Legal : List Event → Prop
  | [] => True
  | e :: history => Legal history ∧ Permitted (Multimap.of history) history e

/-- Each freed record was taken out once, and freed once. -/
def Once (history : List Event) : Prop :=
  ∀ p, .freed p ∈ history →
    history.count (.freed p) = 1 ∧ ∃ call r, takings history p = [(call, call.deletes r)]

namespace Legal
variable {history : List Event} {p : ResourcePtr} {e : Event}

theorem takings_cons (e : Event) (he : ∀ call deleted, e ≠ .taken call p deleted) :
    takings (e :: history) p = takings history p := by
  unfold takings
  rw [List.filterMap_cons]
  rcases e with _ | _ | ⟨call, q, deleted⟩ | _ | _
  all_goals try rfl
  dsimp only
  rw [if_neg]
  rintro rfl
  exact he call deleted rfl

theorem takings_taken (call : Call) (deleted : Option ResourceItem) :
    takings (.taken call p deleted :: history) p = (call, deleted) :: takings history p := by
  unfold takings
  rw [List.filterMap_cons]
  dsimp only
  rw [if_pos rfl]

/-- What a legal history says of a record: it is in the multimap, or it was taken out once. -/
structure Life (history : List Event) (p : ResourcePtr) : Prop where
  there : p ∈ (Multimap.of history).map (·.record) → (∃ r, .added p r ∈ history) ∧ takings history p = []
  gone : takings history p ≠ [] →
    (∃ r, .added p r ∈ history) ∧ ∃ call r, takings history p = [(call, Call.deletes call r)]
  freed : .freed p ∈ history → takings history p ≠ [] ∧ history.count (.freed p) = 1

theorem mem_cons_added (h : ∃ r, Event.added p r ∈ history) : ∃ r, Event.added p r ∈ e :: history := by
  obtain ⟨r, hr⟩ := h
  exact ⟨r, List.mem_cons_of_mem _ hr⟩

/-- An event that is not about the record. -/
theorem Life.other (h : Life history p)
    (hm : p ∈ (Multimap.of (e :: history)).map (·.record) → p ∈ (Multimap.of history).map (·.record))
    (he : ∀ call deleted, e ≠ .taken call p deleted) (hf : e ≠ .freed p) : Life (e :: history) p := by
  have ht : takings (e :: history) p = takings history p := takings_cons e he
  refine ⟨fun hp => ?_, fun hp => ?_, fun hp => ?_⟩
  · rw [ht]
    exact ⟨mem_cons_added (h.there (hm hp)).1, (h.there (hm hp)).2⟩
  · rw [ht] at hp ⊢
    exact ⟨mem_cons_added (h.gone hp).1, (h.gone hp).2⟩
  · rcases List.mem_cons.1 hp with hp | hp
    · exact absurd hp.symm hf
    · rw [ht, List.count_cons_of_ne hf]
      exact h.freed hp

theorem life (h : Legal history) (p : ResourcePtr) : Life history p := by
  induction history with
  | nil => exact ⟨fun hp => (by cases hp), fun hp => absurd rfl hp, fun hp => (by cases hp)⟩
  | cons e history ih =>
    obtain ⟨hlegal, hperm⟩ := h
    have hlife := ih hlegal
    rcases e with ⟨q, r⟩ | ⟨id, type, value⟩ | ⟨call, q, deleted⟩ | q | call
    · -- it cannot have been taken out before it is added
      by_cases hq : q = p
      · subst hq
        have htak : takings (.added q r :: history) q = [] := by
          rw [takings_cons _ (by simp)]
          by_contra hne
          obtain ⟨r', hr'⟩ := (hlife.gone hne).1
          exact hperm r' hr'
        refine ⟨fun _ => ⟨⟨r, List.mem_cons_self⟩, htak⟩, fun hne => absurd htak hne, fun hf => ?_⟩
        rw [takings_cons _ (by simp)] at htak
        exact absurd htak (hlife.freed (by simpa using hf)).1
      · refine hlife.other (fun hp => ?_) (by simp) (by simp)
        rcases List.mem_cons.1 hp with hp | hp
        · exact absurd hp.symm hq
        · exact hp
    · refine hlife.other (fun hp => ?_) (by simp) (by simp)
      rwa [Multimap.of_cons, Multimap.apply, Multimap.map_record_change] at hp
    · by_cases hq : q = p
      · subst hq
        obtain ⟨e, hfind, hrec, rfl⟩ := hperm
        have hmem : q ∈ (Multimap.of history).map (·.record) :=
          List.mem_map.2 ⟨e, List.mem_of_find?_eq_some hfind, hrec⟩
        obtain ⟨hadded, htak⟩ := hlife.there hmem
        refine ⟨fun hp => ?_, fun _ => ⟨mem_cons_added hadded, call, e.item, by rw [takings_taken, htak]⟩, fun hf => ?_⟩
        · obtain ⟨e', he', hrec'⟩ := List.mem_map.1 hp
          exact absurd hrec' (by simpa using (List.mem_filter.1 he').2)
        · exact absurd htak (hlife.freed (by simpa using hf)).1
      · refine hlife.other (fun hp => ?_) (by simp [hq]) (by simp)
        obtain ⟨e', he', hrec'⟩ := List.mem_map.1 hp
        exact List.mem_map.2 ⟨e', (List.mem_filter.1 he').1, hrec'⟩
    · by_cases hq : q = p
      · subst hq
        obtain ⟨hne, hnot⟩ := hperm
        have htak : takings (.freed q :: history) q = takings history q := takings_cons _ (by simp)
        refine ⟨fun hp => absurd (hlife.there hp).2 hne, fun _ => ?_, fun _ => ?_⟩
        · rw [htak]
          exact ⟨mem_cons_added (hlife.gone hne).1, (hlife.gone hne).2⟩
        · rw [htak, List.count_cons_self, List.count_eq_zero_of_not_mem hnot]
          exact ⟨hne, rfl⟩
      · exact hlife.other (fun hp => hp) (by simp) (by simp [hq])
    · exact hlife.other (fun hp => hp) (by simp) (by simp)

theorem once (h : Legal history) : Once history := by
  intro p hp
  obtain ⟨-, gone, freed⟩ := h.life p
  obtain ⟨hne, hcount⟩ := freed hp
  exact ⟨hcount, (gone hne).2⟩

end Legal

end Nas.ResourceTable
