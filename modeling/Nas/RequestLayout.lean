import Nas.Elements

/-!
# The numbers of a request

Where `Aproto.h` has numbers of more than one byte in a request: `layout` lists them for a request in the byte
order of the server, one behind the other (`ordered_layout`), and `foreign` is the request as a client of the
other byte order sends it.
-/

namespace Nas.Requests
open Elements

def listDevices : Nat := 1
def setDeviceAttributes : Nat := 3
def createBucket : Nat := 4
def listBuckets : Nat := 6
def setElements : Nat := 19
def getElementStates : Nat := 20
def setElementStates : Nat := 21
def setElementParameters : Nat := 23
def writeElement : Nat := 24
def readElement : Nat := 25
def getCloseDownMode : Nat := 33
def setCloseDownMode : Nat := 34

/-- The requests that are an `auResourceReq` and nothing else. -/
def resourceReqs : List Nat := [2, 5, 7, 14, 15, 18, 35]

def sizeofAuReq : Nat := 4
def sizeofAuResourceReq : Nat := 8
def sizeofAuDeviceAttributes : Nat := 44
def sizeofAuBucketAttributes : Nat := 36
def sizeofAuSetElementsReq : Nat := 12
def sizeofAuElementStatesReq : Nat := 8
def sizeofAuElementState : Nat := 8
def sizeofAuSetElementParametersReq : Nat := 8
def sizeofAuElementParameters : Nat := 8
def sizeofCARD32 : Nat := 4
def sizeofAuWriteElementReq : Nat := 16
def sizeofAuReadElementReq : Nat := 12

/-- `value_mask`, `changable_mask`, `id`, `access` and `description.len`. -/
def auCommonPart : List Field := [⟨0, 4⟩, ⟨4, 4⟩, ⟨8, 4⟩, ⟨16, 4⟩, ⟨24, 4⟩]

/-- `location`, `gain`, `min_sample_rate` and `max_sample_rate` behind the common part. -/
def auDeviceAttributes : List Field := auCommonPart ++ [⟨28, 4⟩, ⟨32, 4⟩, ⟨36, 2⟩, ⟨38, 2⟩]

/-- `sample_rate` and `num_samples` behind the common part. -/
def auBucketAttributes : List Field := auCommonPart ++ [⟨28, 2⟩, ⟨32, 4⟩]

/-- The numbers in the fixed part of an element behind its type. -/
def elementNumbers (type : Nat) : List Field :=
  -- sample_rate, max_samples, low_water_mark, num_actions
  if type = importClient then [⟨2, 2⟩, ⟨8, 4⟩, ⟨12, 4⟩, ⟨16, 4⟩]
  -- sample_rate, num_samples, device, num_actions
  else if type = importDevice then [⟨2, 2⟩, ⟨4, 4⟩, ⟨8, 4⟩, ⟨12, 4⟩]
  -- sample_rate, num_samples, bucket, offset, num_actions
  else if type = importBucket then [⟨2, 2⟩, ⟨4, 4⟩, ⟨8, 4⟩, ⟨12, 4⟩, ⟨16, 4⟩]
  -- sample_rate, num_samples, frequency, num_actions
  else if type = importWaveForm then [⟨2, 2⟩, ⟨4, 4⟩, ⟨12, 4⟩, ⟨16, 4⟩]
  -- num_inputs
  else if type = bundle then [⟨2, 2⟩]
  -- input, constant
  else if type = multiplyConstant then [⟨2, 2⟩, ⟨4, 4⟩]
  else if type = addConstant then [⟨2, 2⟩, ⟨4, 4⟩]
  -- num_inputs
  else if type = sum then [⟨2, 2⟩]
  -- sample_rate, input, max_samples, high_water_mark, num_actions
  else if type = exportClient then [⟨2, 2⟩, ⟨4, 2⟩, ⟨12, 4⟩, ⟨16, 4⟩, ⟨20, 4⟩]
  -- sample_rate, input, num_samples, device, num_actions
  else if type = exportDevice then [⟨2, 2⟩, ⟨4, 2⟩, ⟨8, 4⟩, ⟨12, 4⟩, ⟨16, 4⟩]
  -- input, num_samples, bucket, offset, num_actions
  else if type = exportBucket then [⟨2, 2⟩, ⟨4, 4⟩, ⟨8, 4⟩, ⟨12, 4⟩, ⟨16, 4⟩]
  -- event_rate, input
  else if type = exportMonitor then [⟨2, 2⟩, ⟨4, 2⟩]
  else []

/-- The numbers in the variable part of an element: the flows of its actions, or its inputs. There are none in
the tracks of a bundle. -/
def itemFields (type el items : Nat) : List Field :=
  if (actionsAt type).isSome then spaced (el + sizeofAuElement) sizeofAuElementAction 4 items
  else if type = sum then spaced (el + sizeofAuElement) sizeofCARD16 2 items
  else []

def fieldsOfElement (type el items : Nat) : List Field :=
  ⟨el, 2⟩ :: (elementNumbers type).map (Field.shift el) ++ itemFields type el items

variable (o : ByteOrder) (m : List UInt8)

/-- How many actions or inputs the element at `el` has. -/
def itemsAt (el : Nat) : Nat := if typeAt o m el = sum then o.read 2 m (el + 2) else numActionsAt o m el

/-- The numbers of so many elements from `el` on. -/
def elementsFields : (count : Nat) → (el : Nat) → List Field
  | 0, _ => []
  | count + 1, el =>
    fieldsOfElement (typeAt o m el) el (itemsAt o m el) ++
      elementsFields count (el + (varBytes o m el).getD 0 + sizeofAuElement)

/-- `num_parameters` of the block at `p`. -/
def numParametersAt (p : Nat) : Nat := o.read 1 m (p + 5)

/-- Where so many blocks of parameters from `p` on end. -/
def parametersEnd : (count : Nat) → (p : Nat) → Nat
  | 0, p => p
  | count + 1, p => parametersEnd count (p + sizeofAuElementParameters + numParametersAt o m p * sizeofCARD32)

/-- Their numbers: each block has that of its flow, and its parameters. -/
def parametersFields : (count : Nat) → (p : Nat) → List Field
  | 0, _ => []
  | count + 1, p =>
    ⟨p, 4⟩ :: spaced (p + sizeofAuElementParameters) sizeofCARD32 4 (numParametersAt o m p) ++
      parametersFields count (p + sizeofAuElementParameters + numParametersAt o m p * sizeofCARD32)

/-- `reqType` -/
def reqType : Nat := (m.headD 0).toNat

/-- The number in the header of a request of elements, of states or of parameters. -/
def countAt (p : Nat) : Nat := o.read 4 m p

/-- The numbers of a request in the server's byte order. -/
def layout : List Field :=
  let type := reqType m
  if type = listDevices then ⟨2, 2⟩ :: auDeviceAttributes.map (Field.shift sizeofAuReq)
  else if type = setDeviceAttributes then
    ⟨2, 2⟩ :: ⟨4, 4⟩ :: auDeviceAttributes.map (Field.shift sizeofAuResourceReq)
  else if type = createBucket then ⟨2, 2⟩ :: ⟨4, 4⟩ :: auBucketAttributes.map (Field.shift sizeofAuResourceReq)
  else if type = listBuckets then ⟨2, 2⟩ :: auBucketAttributes.map (Field.shift sizeofAuReq)
  else if type = setElements then
    ⟨2, 2⟩ :: ⟨4, 4⟩ :: ⟨8, 4⟩ :: elementsFields o m (countAt o m 8) sizeofAuSetElementsReq
  else if type = getElementStates ∨ type = setElementStates then
    ⟨2, 2⟩ :: ⟨4, 4⟩ :: spaced sizeofAuElementStatesReq sizeofAuElementState 4 (countAt o m 4)
  else if type = setElementParameters then
    ⟨2, 2⟩ :: ⟨4, 4⟩ :: parametersFields o m (countAt o m 4) sizeofAuSetElementParametersReq
  else if type = writeElement ∨ type = readElement then [⟨2, 2⟩, ⟨4, 4⟩, ⟨8, 4⟩]
  else if type ∈ resourceReqs then [⟨2, 2⟩, ⟨4, 4⟩]
  else [⟨2, 2⟩]

/-- The fixed part of the request is there, and what its counts announce makes up the rest. -/
def Complete : Prop :=
  let type := reqType m
  if type = listDevices then sizeofAuReq + sizeofAuDeviceAttributes ≤ m.length
  else if type = setDeviceAttributes then sizeofAuResourceReq + sizeofAuDeviceAttributes ≤ m.length
  else if type = createBucket then sizeofAuResourceReq + sizeofAuBucketAttributes ≤ m.length
  else if type = listBuckets then sizeofAuReq + sizeofAuBucketAttributes ≤ m.length
  else if type = setElements then
    sizeofAuSetElementsReq ≤ m.length ∧ Tiles o (m.drop sizeofAuSetElementsReq) (countAt o m 8)
  else if type = getElementStates ∨ type = setElementStates then
    sizeofAuElementStatesReq ≤ m.length ∧
      m.length = sizeofAuElementStatesReq + countAt o m 4 * sizeofAuElementState
  else if type = setElementParameters then
    sizeofAuSetElementParametersReq ≤ m.length ∧
      parametersEnd o m (countAt o m 4) sizeofAuSetElementParametersReq = m.length
  else if type = writeElement then sizeofAuWriteElementReq ≤ m.length
  else if type = readElement then sizeofAuReadElementReq ≤ m.length
  else if type ∈ resourceReqs then sizeofAuResourceReq ≤ m.length
  else True

/-- A well-formed request: a number of words, which is less than 2¹⁶, and `Complete`. -/
structure WellFormed : Prop where
  words : m.length % 4 = 0
  header : sizeofAuReq ≤ m.length
  short : m.length < 2 ^ 18
  complete : Complete o m

/-- The request as a client of the other byte order sends it. -/
def foreign : List UInt8 := swapAll (layout o m) m

variable {o m} {type count el e p q n items : Nat} {f : Field}

/-! ### The numbers of elements -/

theorem elementNumbers_bounds (type : Nat) :
    Ordered (⟨0, 2⟩ :: elementNumbers type) ∧
      ∀ f ∈ (⟨0, 2⟩ :: elementNumbers type : List Field), f.pos + f.width ≤ sizeofAuElement := by
  have h (type : Nat) (ht : type < 14) : Ordered (⟨0, 2⟩ :: elementNumbers type) ∧
      ∀ f ∈ (⟨0, 2⟩ :: elementNumbers type : List Field), f.pos + f.width ≤ sizeofAuElement := by
    revert type
    decide
  by_cases ht : type < 14
  · exact h type ht
  · have hno : elementNumbers type = [] := by
      rw [elementNumbers, if_neg, if_neg, if_neg, if_neg, if_neg, if_neg, if_neg, if_neg, if_neg, if_neg, if_neg, if_neg]
      all_goals
        rintro rfl
        exact ht (by decide)
    rw [hno]
    decide

theorem fieldsOfElement_eq (type el items : Nat) :
    fieldsOfElement type el items = (⟨0, 2⟩ :: elementNumbers type).map (Field.shift el) ++ itemFields type el items := rfl

theorem itemFields_bounds (h : varBytes o m el = some n) :
    ∀ f ∈ itemFields (typeAt o m el) el (itemsAt o m el),
      el + sizeofAuElement ≤ f.pos ∧ f.pos + f.width ≤ el + n + sizeofAuElement := by
  intro f hf
  unfold itemFields at hf
  unfold varBytes at h
  dsimp only at h
  split at hf
  · rename_i ha
    rw [if_pos ha] at h
    cases h
    obtain ⟨i, hi, rfl⟩ := mem_spaced.1 hf
    have hs : typeAt o m el ≠ sum := by
      rintro hs
      rw [hs] at ha
      cases ha
    rw [itemsAt, if_neg hs] at hi
    unfold sizeofAuElementAction
    constructor
    · exact Nat.le_add_right ..
    · dsimp only
      omega
  · rename_i ha
    rw [if_neg ha] at h
    split at hf
    · rename_i hs
      obtain ⟨i, hi, rfl⟩ := mem_spaced.1 hf
      rw [itemsAt, if_pos hs] at hi
      rw [if_neg (by rw [hs]; decide), if_pos hs] at h
      cases h
      unfold sizeofCARD16 pad4
      constructor
      · exact Nat.le_add_right ..
      · dsimp only
        omega
    · cases hf

theorem ordered_itemFields (type el items : Nat) : Ordered (itemFields type el items) := by
  unfold itemFields
  split
  · exact ordered_spaced (by decide) _ _
  · split
    · exact ordered_spaced (by decide) _ _
    · exact .nil

theorem fieldsOfElement_bounds (h : varBytes o m el = some n) :
    Ordered (fieldsOfElement (typeAt o m el) el (itemsAt o m el)) ∧
      ∀ f ∈ fieldsOfElement (typeAt o m el) el (itemsAt o m el),
        el ≤ f.pos ∧ f.pos + f.width ≤ el + n + sizeofAuElement := by
  obtain ⟨ho, hb⟩ := elementNumbers_bounds (typeAt o m el)
  have hfix : ∀ f ∈ (⟨0, 2⟩ :: elementNumbers (typeAt o m el) : List Field).map (Field.shift el),
      el ≤ f.pos ∧ f.pos + f.width ≤ el + sizeofAuElement := by
    intro f hf
    obtain ⟨g, hg, rfl⟩ := List.mem_map.1 hf
    have := hb g hg
    simp only [Field.shift]
    omega
  have hitems := itemFields_bounds h
  rw [fieldsOfElement_eq]
  constructor
  · exact ordered_append (ordered_shift ho el) (ordered_itemFields ..) (fun f hf => (hfix f hf).2) fun f hf => (hitems f hf).1
  · intro f hf
    rcases List.mem_append.1 hf with hf | hf
    · have := hfix f hf
      omega
    · have := hitems f hf
      omega

theorem elementsFields_bounds (h : walkEnd o m count el = some e) :
    Ordered (elementsFields o m count el) ∧
      ∀ f ∈ elementsFields o m count el, el ≤ f.pos ∧ f.pos + f.width ≤ e := by
  induction count generalizing el with
  | zero => exact ⟨.nil, by simp [elementsFields]⟩
  | succ count ih =>
    rw [walkEnd] at h
    split at h
    · obtain ⟨n, hn, h⟩ := Option.bind_eq_some_iff.1 h
      obtain ⟨ho, hb⟩ := fieldsOfElement_bounds hn
      obtain ⟨ho', hb'⟩ := ih h
      have hle := walkEnd_ge h
      rw [elementsFields, hn, Option.getD_some]
      constructor
      · exact ordered_append ho ho' (fun f hf => (hb f hf).2) fun f hf => (hb' f hf).1
      · intro f hf
        rcases List.mem_append.1 hf with hf | hf
        · have := hb f hf
          omega
        · have := hb' f hf
          omega
    · cases h

/-! ### The numbers of parameters -/

theorem parametersEnd_ge (count p : Nat) : p ≤ parametersEnd o m count p := by
  induction count generalizing p with
  | zero => exact Nat.le_refl p
  | succ count ih =>
    rw [parametersEnd]
    have := ih (p + sizeofAuElementParameters + numParametersAt o m p * sizeofCARD32)
    omega

theorem parametersFields_bounds (count p : Nat) :
    Ordered (parametersFields o m count p) ∧
      ∀ f ∈ parametersFields o m count p, p ≤ f.pos ∧ f.pos + f.width ≤ parametersEnd o m count p := by
  induction count generalizing p with
  | zero => exact ⟨.nil, by simp [parametersFields]⟩
  | succ count ih =>
    obtain ⟨ho, hb⟩ := ih (p + sizeofAuElementParameters + numParametersAt o m p * sizeofCARD32)
    have hle := parametersEnd_ge (o := o) (m := m) count
      (p + sizeofAuElementParameters + numParametersAt o m p * sizeofCARD32)
    have hs : ∀ f ∈ spaced (p + sizeofAuElementParameters) sizeofCARD32 4 (numParametersAt o m p),
        p + 4 ≤ f.pos ∧ f.pos + f.width ≤ p + sizeofAuElementParameters + numParametersAt o m p * sizeofCARD32 := by
      intro f hf
      obtain ⟨i, hi, rfl⟩ := mem_spaced.1 hf
      unfold sizeofAuElementParameters sizeofCARD32
      dsimp only
      omega
    unfold sizeofAuElementParameters sizeofCARD32 at *
    rw [parametersFields, parametersEnd]
    unfold sizeofAuElementParameters sizeofCARD32
    constructor
    · rw [List.cons_append]
      refine List.pairwise_cons.2 ⟨fun f hf => ?_, ?_⟩
      · rcases List.mem_append.1 hf with hf | hf
        · exact (hs f hf).1
        · have := hb f hf
          simp only [Field.Before]
          omega
      · exact ordered_append (ordered_spaced (by decide) _ _) ho (fun f hf => (hs f hf).2) fun f hf => (hb f hf).1
    · intro f hf
      rcases List.mem_cons.1 hf with rfl | hf
      · constructor
        · exact Nat.le_refl p
        · dsimp only
          omega
      · rcases List.mem_append.1 hf with hf | hf
        · have := hs f hf
          omega
        · have := hb f hf
          omega

theorem width_parametersFields (hf : f ∈ parametersFields o m count p) : f.width = 4 := by
  induction count generalizing p with
  | zero => cases hf
  | succ count ih =>
    rw [parametersFields] at hf
    rcases List.mem_append.1 hf with hf | hf
    · rcases List.mem_cons.1 hf with rfl | hf
      · rfl
      · obtain ⟨i, -, rfl⟩ := mem_spaced.1 hf
        rfl
    · exact ih hf

/-! ### The numbers of a request -/

/-- A fixed part of so many bytes that lie inside. -/
theorem inside_of_fixed {l : List Field} (h : Ordered l ∧ ∀ f ∈ l, f.pos + f.width ≤ n) (hn : n ≤ m.length) :
    Ordered l ∧ ∀ f ∈ l, f.Inside m :=
  ⟨h.1, fun f hf => (h.2 f hf).trans hn⟩

/-- A fixed part and what is behind it. -/
theorem inside_of_parts {l k : List Field} (hl : Ordered l ∧ ∀ f ∈ l, f.pos + f.width ≤ n)
    (hk : Ordered k ∧ ∀ f ∈ k, n ≤ f.pos ∧ f.pos + f.width ≤ m.length) (hn : n ≤ m.length) :
    Ordered (l ++ k) ∧ ∀ f ∈ l ++ k, f.Inside m := by
  constructor
  · exact ordered_append hl.1 hk.1 hl.2 fun f hf => (hk.2 f hf).1
  · intro f hf
    rcases List.mem_append.1 hf with hf | hf
    · exact (hl.2 f hf).trans hn
    · exact (hk.2 f hf).2

theorem walkEnd_of_tiles (h : Tiles o (m.drop p) count) (hp : p ≤ m.length) : walkEnd o m count p = some m.length := by
  obtain ⟨records, hf, rfl, hall⟩ := h
  have hlen : (m.take p).length = p := by
    rw [List.length_take]
    omega
  have := walkEnd_flatten (m.take p) [] hall
  rw [hf, List.append_nil, List.take_append_drop, hlen, List.length_drop] at this
  rw [this]
  congr 1
  omega

/-- The numbers of a well-formed request are one behind the other, and inside of it. -/
theorem ordered_layout (h : WellFormed o m) : Ordered (layout o m) ∧ ∀ f ∈ layout o m, f.Inside m := by
  have hc := h.complete
  have hhead := h.header
  unfold Complete at hc
  unfold layout
  dsimp only at hc ⊢
  by_cases h₁ : reqType m = listDevices
  · rw [if_pos h₁] at hc ⊢
    exact inside_of_fixed (by decide) hc
  rw [if_neg h₁] at hc ⊢
  by_cases h₂ : reqType m = setDeviceAttributes
  · rw [if_pos h₂] at hc ⊢
    exact inside_of_fixed (by decide) hc
  rw [if_neg h₂] at hc ⊢
  by_cases h₃ : reqType m = createBucket
  · rw [if_pos h₃] at hc ⊢
    exact inside_of_fixed (by decide) hc
  rw [if_neg h₃] at hc ⊢
  by_cases h₄ : reqType m = listBuckets
  · rw [if_pos h₄] at hc ⊢
    exact inside_of_fixed (by decide) hc
  rw [if_neg h₄] at hc ⊢
  by_cases h₅ : reqType m = setElements
  · rw [if_pos h₅] at hc ⊢
    exact inside_of_parts (l := [⟨2, 2⟩, ⟨4, 4⟩, ⟨8, 4⟩]) (by decide)
      (elementsFields_bounds (walkEnd_of_tiles hc.2 hc.1)) hc.1
  rw [if_neg h₅] at hc ⊢
  by_cases h₆ : reqType m = getElementStates ∨ reqType m = setElementStates
  · rw [if_pos h₆] at hc ⊢
    refine inside_of_parts (l := [⟨2, 2⟩, ⟨4, 4⟩]) (n := sizeofAuElementStatesReq) (by decide)
      ⟨ordered_spaced (by decide) _ _, fun f hf => ?_⟩ hc.1
    obtain ⟨i, hi, rfl⟩ := mem_spaced.1 hf
    have := hc.2
    unfold sizeofAuElementState at *
    constructor
    · exact Nat.le_add_right ..
    · dsimp only
      omega
  rw [if_neg h₆] at hc ⊢
  by_cases h₇ : reqType m = setElementParameters
  · rw [if_pos h₇] at hc ⊢
    have hb := parametersFields_bounds (o := o) (m := m) (countAt o m 4) sizeofAuSetElementParametersReq
    rw [hc.2] at hb
    exact inside_of_parts (l := [⟨2, 2⟩, ⟨4, 4⟩]) (by decide) hb hc.1
  rw [if_neg h₇] at hc ⊢
  by_cases h₈ : reqType m = writeElement ∨ reqType m = readElement
  · rw [if_pos h₈]
    refine inside_of_fixed (n := sizeofAuReadElementReq) (by decide) ?_
    rcases h₈ with h₈ | h₈
    · rw [if_pos h₈] at hc
      exact Nat.le_trans (by decide) hc
    · rw [if_neg (by rw [h₈]; decide), if_pos h₈] at hc
      exact hc
  rw [if_neg h₈]
  rw [if_neg fun h => h₈ (.inl h), if_neg fun h => h₈ (.inr h)] at hc
  by_cases h₉ : reqType m ∈ resourceReqs
  · rw [if_pos h₉] at hc ⊢
    exact inside_of_fixed (by decide) hc
  rw [if_neg h₉]
  exact inside_of_fixed (by decide) hhead

end Nas.Requests
