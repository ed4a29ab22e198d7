import Nas.SwapRequests

/-!
# What the swapping handlers access

The handlers of `AuSwappedProcVector` run before any check of the length but `REQUEST_AT_LEAST_SIZE`: `framed_iff`
says for which requests they keep to the bytes of the request. The conditions read the request in the byte order
of its client.
-/

namespace Nas.SwapRequests
open Elements Requests AuStatus

/-- A request as it is handed to the dispatcher: some words, at least one. -/
structure Request where
  bytes : List UInt8
  words : bytes.length % 4 = 0
  header : sizeofAuReq ≤ bytes.length

/-- The handler accesses the request and nothing else, and what it follows is there. -/
def Framed (o : ByteOrder) (dm : DataModel) (b : List UInt8) : Prop :=
  ∀ run, sproc o dm (reqType b) b = some run → ∃ x, run = .ok x

/-- The attributes are there, so many states are, and the loops over elements and over blocks of parameters come
to nothing that is not inside of the request or that has no known type. -/
structure InFrame (o : ByteOrder) (dm : DataModel) (b : List UInt8) : Prop where
  listDevices : reqType b = listDevices → 44 ≤ b.length
  setDeviceAttributes : reqType b = setDeviceAttributes → b.length < 8 ∨ 48 ≤ b.length
  createBucket : reqType b = createBucket → b.length < 8 ∨ 44 ≤ b.length
  listBuckets : reqType b = listBuckets → 40 ≤ b.length
  setElements : reqType b = setElements → 12 ≤ b.length ∧
    ItemsInside o 8 (elementSpan o.other) (2 ^ 32) 0 12 (swapAll [⟨2, 2⟩, ⟨4, 4⟩, ⟨8, 4⟩] b)
  states : reqType b = getElementStates ∨ reqType b = setElementStates → 8 ≤ b.length ∧
    (countAt o.other b 4 = 0 ∨ 8 + 8 * (countAt o.other b 4 - 1) + 4 ≤ b.length)
  setElementParameters : reqType b = setElementParameters → 8 ≤ b.length ∧
    ItemsInside o 4 (parametersSpan o dm) (2 ^ 32) 0 8 (swapAll [⟨2, 2⟩, ⟨4, 4⟩] b)
  data : reqType b = writeElement ∨ reqType b = readElement → 12 ≤ b.length

section
variable {o : ByteOrder} {dm : DataModel} {b m : List UInt8} {l : List Field} {size n i p rounds : Nat} {s : Swapping}

theorem swapFields_inside : (∃ t, swapFields l s = .ok t) ↔ ∀ f ∈ l, f.Inside s.mem := by
  constructor
  · rintro ⟨t, ht⟩ f hf
    by_contra hno
    rw [swapFields_fault hf hno] at ht
    cases ht
  · intro h
    exact ⟨_, swapFields_ok h⟩

/-- Fields that end there, the last of them. -/
theorem all_inside_iff (n : Nat) (h : (∃ f ∈ l, f.pos + f.width = n) ∧ ∀ f ∈ l, f.pos + f.width ≤ n) :
    (∀ f ∈ l, f.Inside m) ↔ n ≤ m.length := by
  obtain ⟨⟨f, hf, hn⟩, hle⟩ := h
  constructor
  · intro hin
    have := hin f hf
    rwa [Field.Inside, hn] at this
  · intro hn f hf
    exact (hle f hf).trans hn

/-- A handler that swaps some numbers, checks the length, and goes on. -/
theorem atLeast_inside (hw : b.length % 4 = 0) (hs : size % 4 = 0) (body : Swapping → Exec Swapping) :
    (∃ x, (do
      let s ← swapFields l { mem := b }
      atLeast size (b.length / 4) do
        let s ← body s
        .ok (.ok s)) = .ok x) ↔
      (∀ f ∈ l, f.Inside b) ∧ (b.length < size ∨ ∃ t, body { mem := swapAll l b, swapped := l } = .ok t) := by
  by_cases hin : ∀ f ∈ l, f.Inside b
  · rw [swapFields_ok hin, Exec.ok_bind, atLeast, and_iff_right hin, List.nil_append]
    by_cases hlen : b.length < size
    · rw [if_pos (by omega)]
      exact ⟨fun _ => .inl hlen, fun _ => ⟨_, rfl⟩⟩
    · rw [if_neg (by omega)]
      constructor
      · rintro ⟨x, hx⟩
        obtain ⟨t, ht, -⟩ := Exec.bind_eq_ok.1 hx
        exact .inr ⟨t, ht⟩
      · rintro (hno | ⟨t, ht⟩)
        · exact absurd hno hlen
        · exact ⟨.ok t, by rw [ht]; rfl⟩
  · have hout := hin
    push Not at hout
    obtain ⟨f, hf, hno⟩ := hout
    rw [swapFields_fault hf hno]
    constructor
    · rintro ⟨x, hx⟩
      cases hx
    · rintro ⟨h, -⟩
      exact absurd h hin

/-- So many states from `p` on are inside. -/
theorem states_inside (hp : 8 ≤ p) (hn : o.read 4 m 4 = n) (hr : n ≤ i + rounds) :
    ItemsInside o 4 (fun _ => stateSpan) rounds i p m ↔ n ≤ i ∨ p + 8 * (n - 1 - i) + 4 ≤ m.length := by
  induction rounds generalizing i p m with
  | zero => exact ⟨fun _ => .inl hr, fun _ => trivial⟩
  | succ rounds ih =>
    rw [ItemsInside, hn]
    by_cases hi : i < n
    · have hspan : stateSpan (p : Int) = some ([⟨p, 4⟩], ((p + 8 : Nat) : Int)) := by
        rw [stateSpan, if_neg (by omega), Int.toNat_natCast]
        rfl
      have hrest : Field.Inside m ⟨p, 4⟩ → (ItemsInside o 4 (fun _ => stateSpan) rounds (i + 1) (p + 8 : Nat)
          (swapAll [⟨p, 4⟩] m) ↔ n ≤ i + 1 ∨ p + 8 + 8 * (n - 1 - (i + 1)) + 4 ≤ m.length) := by
        intro hin
        have hread : o.read 4 (swapAll [⟨p, 4⟩] m) 4 = n := by
          rw [read_swapAll_of_disjoint (by simpa using hin) (by simp; omega), hn]
        rw [ih (by omega) hread (by omega), length_swapAll]
      constructor
      · intro h
        obtain ⟨l, next, hl, hin, h⟩ := h hi
        rw [hspan] at hl
        cases hl
        have hin : Field.Inside m ⟨p, 4⟩ := hin _ List.mem_cons_self
        have := (hrest hin).1 h
        unfold Field.Inside at hin
        dsimp only at hin
        omega
      · intro h _
        have hin : Field.Inside m ⟨p, 4⟩ := by
          unfold Field.Inside
          dsimp only
          omega
        exact ⟨_, _, hspan, by simpa using hin, (hrest hin).2 (by omega)⟩
    · exact ⟨fun _ => .inl (by omega), fun _ hlt => absurd hlt hi⟩

/-! ### Handler by handler -/

/-- The handler of the type, once it is known. -/
theorem framed_of_type {type : Nat} {run : Exec (Except AuStatus Swapping)} (ht : reqType b = type)
    (h : sproc o dm type b = some run) : Framed o dm b ↔ ∃ x, run = .ok x := by
  unfold Framed
  rw [ht, h]
  constructor
  · intro hf
    exact hf run rfl
  · rintro hx _ ⟨⟩
    exact hx

/-- A handler that swaps what it swaps in front of the check and behind it, and no more. -/
theorem framed_fixed (k size n : Nat) {type : Nat} {l l' : List Field} (hw : b.length % 4 = 0) (hs : size % 4 = 0)
    (hl : (∃ f ∈ l, f.pos + f.width = k) ∧ ∀ f ∈ l, f.pos + f.width ≤ k)
    (hl' : (∃ f ∈ l', f.pos + f.width = n) ∧ ∀ f ∈ l', f.pos + f.width ≤ n) (ht : reqType b = type)
    (h : sproc o dm type b = some do
      let s ← swapFields l { mem := b }
      atLeast size (b.length / 4) do
        let s ← swapFields l' s
        .ok (.ok s)) :
    Framed o dm b ↔ k ≤ b.length ∧ (b.length < size ∨ n ≤ b.length) := by
  rw [framed_of_type ht h, atLeast_inside hw hs, all_inside_iff _ hl, swapFields_inside, all_inside_iff _ hl', length_swapAll]

/-- A handler whose loop goes over items behind the fixed part. -/
theorem framed_items (num size : Nat) {type : Nat} {body : Int → Swapping → Exec (Int × Swapping)}
    {span : List UInt8 → Int → Option (List Field × Int)} (hw : b.length % 4 = 0) (hs : size % 4 = 0)
    (hn : num + 4 ≤ size) (hl : (∃ f ∈ l, f.pos + f.width = size) ∧ ∀ f ∈ l, f.pos + f.width ≤ size)
    (hb : Spans body span) (ht : reqType b = type)
    (h : sproc o dm type b = some do
      let s ← swapFields l { mem := b }
      atLeast size (b.length / 4) do
        let s ← forItems o num body (2 ^ 32) 0 size s
        .ok (.ok s)) :
    Framed o dm b ↔ size ≤ b.length ∧ ItemsInside o num span (2 ^ 32) 0 size (swapAll l b) := by
  rw [framed_of_type ht h, atLeast_inside hw hs, all_inside_iff _ hl]
  refine and_congr_right fun hlen => ?_
  rw [or_iff_right (Nat.not_lt.2 hlen), forItems_inside hb (by rw [length_swapAll]; exact hn.trans hlen)]

/-- The number in the header, when it is swapped. -/
theorem countAt_swapped (h : 8 ≤ b.length) : o.read 4 (swapAll [⟨2, 2⟩, ⟨4, 4⟩] b) 4 = countAt o.other b 4 := by
  have hin : ∀ f ∈ ([⟨2, 2⟩, ⟨4, 4⟩] : List Field), f.Inside b := by
    intro f hf
    have hf : f = ⟨2, 2⟩ ∨ f = ⟨4, 4⟩ := by simpa using hf
    rcases hf with rfl | rfl <;> unfold Field.Inside <;> dsimp only <;> omega
  have := read_swapAll (o := o.other) (l := [⟨2, 2⟩, ⟨4, 4⟩]) (f := ⟨4, 4⟩) (by decide) hin (by decide)
  rwa [ByteOrder.other_other] at this

end

/-- A `CreateBucket` request that ends behind the bucket's id. -/
def shortBucket : List UInt8 := [4, 0, 0, 2, 0, 0, 0, 7]

/-- A `SetElements` request with an element of the type 4, which there is not. -/
def unknownElement : List UInt8 := [19, 1, 0, 9, 0, 0, 0, 7, 0, 0, 0, 1, 0, 4] ++ List.replicate 22 0

/-- A `SetElementStates` request that announces 2³² - 1 states and has none. -/
def manyStates : List UInt8 := [21, 0, 0, 2, 255, 255, 255, 255]

end Nas.SwapRequests
