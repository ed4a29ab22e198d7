import Nas.Dispatch
import Nas.Fields

/-!
# Elements as bytes

The element list of a `SetElements` request as `Aproto.h` lays it out: each element is an `auElement` of 24
bytes, of whatever type, and behind it come its actions, its tracks or its inputs. `Tiles` says that a body is
made up of such elements and of nothing else, and `walkEnd` is where the elements end when they are laid out by
their counts (`tiles_iff`).
-/

namespace Nas

namespace Elements

def importClient : Nat := 0
def importDevice : Nat := 1
def importBucket : Nat := 2
def importWaveForm : Nat := 3
def bundle : Nat := 5
def multiplyConstant : Nat := 6
def addConstant : Nat := 7
def sum : Nat := 8
def exportClient : Nat := 9
def exportDevice : Nat := 10
def exportBucket : Nat := 11
def exportMonitor : Nat := 13

def sizeofCARD16 : Nat := 2

/-- Where `actions.num_actions` is in an element of a type that has actions. -/
def actionsAt (type : Nat) : Option Nat :=
  if type = importClient then some 16
  else if type = importDevice then some 12
  else if type = importBucket then some 16
  else if type = importWaveForm then some 16
  else if type = exportClient then some 20
  else if type = exportDevice then some 16
  else if type = exportBucket then some 16
  else none

/-- How much of an element says what is behind it. -/
def headerSize (type : Nat) : Nat :=
  match actionsAt type with
  | some off => off + 4
  | none => if type = bundle ∨ type = sum then 4 else 2

variable (o : ByteOrder) (m : List UInt8)

/-- The type of the element at `el`. -/
def typeAt (el : Nat) : Nat := o.read 2 m el

/-- `num_actions` of the element at `el`. -/
def numActionsAt (el : Nat) : Nat :=
  match actionsAt (typeAt o m el) with
  | some off => o.read 4 m (el + off)
  | none => 0

/-- The size of the variable part of the element at `el`. -/
def varBytes (el : Nat) : Option Nat :=
  let type := typeAt o m el
  if (actionsAt type).isSome then some (numActionsAt o m el * sizeofAuElementAction)
  else if type = bundle then some (o.read 2 m (el + 2) * sizeofAuInputTrack)
  else if type = sum then some (pad4 (o.read 2 m (el + 2) * sizeofCARD16))
  else if type = multiplyConstant ∨ type = addConstant ∨ type = exportMonitor then some 0
  else none

/-- The bytes of one element: its fixed part and its variable part. -/
def IsElement (r : List UInt8) : Prop := ∃ n, varBytes o r 0 = some n ∧ r.length = sizeofAuElement + n

/-- `m` is made up of so many elements. -/
def Tiles (count : Nat) : Prop :=
  ∃ records : List (List UInt8), records.flatten = m ∧ records.length = count ∧ ∀ r ∈ records, IsElement o r

/-- The part of the element at `el` that says what is behind it is inside of `m`. -/
def HeaderInside (el : Nat) : Prop := el + headerSize (typeAt o m el) ≤ m.length

instance (el : Nat) : Decidable (HeaderInside o m el) := inferInstanceAs (Decidable (_ ≤ _))

/-- Where so many elements from `el` on end, as long as what says so is inside of `m`. -/
def walkEnd : (count : Nat) → (el : Nat) → Option Nat
  | 0, el => some el
  | count + 1, el =>
    if HeaderInside o m el then
      (varBytes o m el).bind fun n => walkEnd count (el + n + sizeofAuElement)
    else none

variable {o m} {el count e n type off : Nat} {r : List UInt8}

theorem headerSize_le (type : Nat) : headerSize type ≤ sizeofAuElement := by
  unfold headerSize actionsAt sizeofAuElement
  split
  · rename_i h
    repeat' split at h
    all_goals cases h; try omega
  · split <;> omega

theorem two_le_headerSize (type : Nat) : 2 ≤ headerSize type := by
  unfold headerSize
  split
  · omega
  · split <;> omega

theorem headerSize_of_actions (h : actionsAt type = some off) : headerSize type = off + 4 := by
  rw [headerSize, h]

theorem headerSize_of_inputs (h : actionsAt type = none) (ht : type = bundle ∨ type = sum) : headerSize type = 4 := by
  rw [headerSize, h]
  exact if_pos ht

/-! ### In a larger block -/

theorem typeAt_middle (pre post : List UInt8) (h : 2 ≤ r.length) : typeAt o (pre ++ r ++ post) pre.length = typeAt o r 0 := by
  have hp : 0 + 2 ≤ r.length := by omega
  exact ByteOrder.read_middle hp

theorem numActionsAt_middle (pre post : List UInt8) (h : headerSize (typeAt o r 0) ≤ r.length) :
    numActionsAt o (pre ++ r ++ post) pre.length = numActionsAt o r 0 := by
  have h2 := two_le_headerSize (typeAt o r 0)
  unfold numActionsAt
  rw [typeAt_middle pre post (by omega)]
  cases ha : actionsAt (typeAt o r 0) with
  | none => rfl
  | some off =>
    rw [headerSize_of_actions ha] at h
    dsimp only
    rw [ByteOrder.read_middle (by omega), Nat.zero_add]

theorem varBytes_middle (pre post : List UInt8) (h : headerSize (typeAt o r 0) ≤ r.length) :
    varBytes o (pre ++ r ++ post) pre.length = varBytes o r 0 := by
  have h2 := two_le_headerSize (typeAt o r 0)
  have hread : actionsAt (typeAt o r 0) = none → typeAt o r 0 = bundle ∨ typeAt o r 0 = sum →
      o.read 2 (pre ++ r ++ post) (pre.length + 2) = o.read 2 r (0 + 2) := by
    intro ha ht
    rw [headerSize_of_inputs ha ht] at h
    rw [ByteOrder.read_middle (by omega), Nat.zero_add]
  unfold varBytes
  dsimp only
  rw [typeAt_middle pre post (by omega), numActionsAt_middle pre post h]
  split
  · rfl
  · rename_i ha
    have ha : actionsAt (typeAt o r 0) = none := by simpa using ha
    split
    · rw [hread ha (.inl (by assumption))]
    · split
      · rw [hread ha (.inr (by assumption))]
      · rfl

/-! ### Tilings -/

theorem IsElement.length (h : IsElement o r) : sizeofAuElement ≤ r.length := by
  obtain ⟨n, -, hl⟩ := h
  omega

theorem IsElement.header (h : IsElement o r) : headerSize (typeAt o r 0) ≤ r.length :=
  (headerSize_le _).trans h.length

theorem walkEnd_ge (h : walkEnd o m count el = some e) : el + count * sizeofAuElement ≤ e := by
  induction count generalizing el with
  | zero =>
    cases h
    simp
  | succ count ih =>
    rw [walkEnd] at h
    split at h
    · obtain ⟨n, -, h⟩ := Option.bind_eq_some_iff.1 h
      have := ih h
      rw [Nat.succ_mul]
      omega
    · cases h

/-- Every element of a walk begins inside of the block. -/
theorem walkEnd_lt (h : walkEnd o m (count + 1) el = some e) : el + count * sizeofAuElement < m.length := by
  induction count generalizing el with
  | zero =>
    rw [walkEnd] at h
    split at h
    · rename_i hhead
      have := two_le_headerSize (typeAt o m el)
      unfold HeaderInside at hhead
      omega
    · cases h
  | succ count ih =>
    rw [walkEnd] at h
    split at h
    · obtain ⟨n, -, h⟩ := Option.bind_eq_some_iff.1 h
      have := ih h
      rw [Nat.succ_mul]
      omega
    · cases h

/-- Elements end where their bytes end. -/
theorem walkEnd_flatten (pre post : List UInt8) {records : List (List UInt8)} (h : ∀ r ∈ records, IsElement o r) :
    walkEnd o (pre ++ records.flatten ++ post) records.length pre.length = some (pre.length + records.flatten.length) := by
  induction records generalizing pre with
  | nil => simp [walkEnd]
  | cons r rs ih =>
    have hr := h r (by simp)
    have hsplit : pre ++ (r :: rs).flatten ++ post = pre ++ r ++ (rs.flatten ++ post) := by simp
    have hsplit' : pre ++ (r :: rs).flatten ++ post = (pre ++ r) ++ rs.flatten ++ post := by simp
    have hheader := hr.header
    have h24 := hr.length
    obtain ⟨n, hn, hl⟩ := hr
    have hhead : HeaderInside o (pre ++ (r :: rs).flatten ++ post) pre.length := by
      rw [HeaderInside, hsplit, typeAt_middle pre _ (by unfold sizeofAuElement at h24; omega)]
      simp only [List.length_append]
      omega
    rw [List.length_cons, walkEnd, if_pos hhead, hsplit, varBytes_middle pre _ hheader, hn, Option.bind_some]
    have hnext : pre.length + n + sizeofAuElement = (pre ++ r).length := by
      rw [List.length_append]
      omega
    have := ih (pre ++ r) fun s hs => h s (by simp [hs])
    rw [hnext, ← hsplit, hsplit', this]
    simp [Nat.add_assoc]

theorem walkEnd_tiles (h : walkEnd o m count el = some m.length) (hel : el ≤ m.length) : Tiles o (m.drop el) count := by
  induction count generalizing el with
  | zero =>
    cases h
    exact ⟨[], by simp, rfl, by simp⟩
  | succ count ih =>
    rw [walkEnd] at h
    split at h
    · rename_i hhead
      obtain ⟨n, hn, h⟩ := Option.bind_eq_some_iff.1 h
      have hle := walkEnd_ge h
      obtain ⟨records, hf, hc, hall⟩ := ih h (by omega)
      -- the first element, cut out of its place
      let r := Memory.slice m el (el + n + sizeofAuElement)
      have hsplit : m = m.take el ++ r ++ m.drop (el + n + sizeofAuElement) := by
        have hr : m.take el ++ r = m.take (el + n + sizeofAuElement) := by
          have := Memory.slice_append (m := m) (a := 0) (b := el) (c := el + n + sizeofAuElement) (by omega) (by omega)
          simpa [Memory.slice, r] using this
        rw [hr, List.take_append_drop]
      have hpre : (m.take el).length = el := by
        rw [List.length_take]
        omega
      have hlen : r.length = sizeofAuElement + n := by
        rw [Memory.length_slice (by omega)]
        omega
      have h24 : 2 ≤ r.length := by
        unfold sizeofAuElement at hlen
        omega
      have htype : typeAt o m el = typeAt o r 0 := by
        conv_lhs => rw [hsplit, ← hpre]
        rw [hpre]
        have := typeAt_middle (o := o) (m.take el) (m.drop (el + n + sizeofAuElement)) h24
        rwa [hpre] at this
      have hhr : headerSize (typeAt o r 0) ≤ r.length := by
        have := headerSize_le (typeAt o r 0)
        omega
      have hvar := varBytes_middle (o := o) (m.take el) (m.drop (el + n + sizeofAuElement)) hhr
      rw [← hsplit, hpre, hn] at hvar
      refine ⟨r :: records, ?_, by simp [hc], ?_⟩
      · rw [List.flatten_cons, hf]
        have : (m.take el ++ r ++ m.drop (el + n + sizeofAuElement)).drop el = r ++ m.drop (el + n + sizeofAuElement) := by
          rw [List.append_assoc, List.drop_append_of_le_length (by omega)]
          simp
        rw [← this, ← hsplit]
      · intro s hs
        rcases List.mem_cons.1 hs with rfl | hs
        · exact ⟨n, hvar.symm, hlen⟩
        · exact hall s hs
    · cases h

/-- The elements make up the block exactly if they end where it ends. -/
theorem tiles_iff : Tiles o m count ↔ walkEnd o m count 0 = some m.length := by
  constructor
  · rintro ⟨records, rfl, rfl, hall⟩
    have := walkEnd_flatten [] [] hall
    simpa using this
  · intro h
    simpa using walkEnd_tiles h (Nat.zero_le _)

end Elements

end Nas
