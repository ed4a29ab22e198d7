import Nas.PortRead

/-!
# The ring of a port over a whole run

The run of a port is any sequence of `WriteElement` and `ReadElement` requests, ticks of `readClient`
and `writeClient`, and resets. `RingOk` is the bookkeeping of its four fields, `Keeps` what a step may
do to the bytes that wait in it.

`writeClient` breaks both. The room left bounds its first pass only, so a minibuffer that does not fit
goes on over the bytes that wait; and the counters of `rc_x` step over zero when the room is not a
whole number of frames. `Fits` excludes this, and the counts that `rcNull` takes for negative.
`portRun_ring` is the invariant over the runs whose steps all satisfy `Fits`.
-/

namespace Nas
variable {K : Type}

/-! ### What a converter does -/

/-- `o` is what a converter makes of `avail` source bytes when asked for `want`. -/
structure Converts (rc : RateConvert) (bps want avail : Nat) (o : Converted) : Prop where
  used_le : o.used ≤ avail
  done : want ≤ o.bytes.length ∨ o.used = avail
  bytes_le : rc = .null ∨ bps ∣ want → o.bytes.length ≤ want
  bytes_nil : avail = 0 → o.bytes = []

@[simp] theorem length_frameAt (src : List UInt8) (s bps : Nat) : (frameAt src s bps).length = bps := by
  simp [frameAt]

/-- Moving on never passes the end of the source. -/
theorem rcNext_sum (bps c s avail : Nat) :
    (rcNext bps c s avail).2.1 + (rcNext bps c s avail).2.2 = s + avail := by
  unfold rcNext
  dsimp only
  split_ifs
  · rfl
  · rfl
  · dsimp only; omega

theorem sub32_le_add {a b : Nat} (ha : a < 2 ^ 32) : a ≤ b + sub32 a b := by
  unfold sub32; omega

theorem sub32_of_dvd {a b : Nat} (ha : a < 2 ^ 32) (h0 : a ≠ 0) (h : b ∣ a) :
    b + sub32 a b = a ∧ b ∣ sub32 a b := by
  have hb : b ≤ a := Nat.le_of_dvd (by omega) h
  rw [sub32_eq ha hb]
  exact ⟨by omega, Nat.dvd_sub h dvd_rfl⟩

theorem sub32_lt (a b : Nat) : sub32 a b < 2 ^ 32 := Nat.mod_lt _ (by omega)

theorem rcLoop_spec {bps n fuel want avail c s : Nat} {src out : List UInt8} {o : Converted}
    (hw : want < 2 ^ 32) (h : rcLoop bps n src fuel want avail c s out = .ok o) :
    o.used ≤ s + avail ∧ (out.length + want ≤ o.bytes.length ∨ o.used = s + avail) ∧
      (bps ∣ want → o.bytes.length ≤ out.length + want) ∧ (avail = 0 → o.bytes = out) := by
  induction fuel generalizing want avail c s out with
  | zero =>
    unfold rcLoop at h
    split at h
    · cases h
      exact ⟨by dsimp only; omega, by dsimp only; omega, fun _ => by dsimp only; omega, fun _ => rfl⟩
    · cases h
  | succ fuel ih =>
    unfold rcLoop at h
    split at h
    · cases h
      exact ⟨by dsimp only; omega, by dsimp only; omega, fun _ => by dsimp only; omega, fun _ => rfl⟩
    · rename_i hne
      obtain ⟨h1, h2, h3, -⟩ := ih (sub32_lt want bps) h
      rw [rcNext_sum] at h1 h2
      rw [List.length_append, length_frameAt] at h2 h3
      have hle := sub32_le_add (b := bps) hw
      refine ⟨h1, by omega, fun hd => ?_, fun h0 => absurd (.inr h0) hne⟩
      obtain ⟨hs, hd'⟩ := sub32_of_dvd hw (by omega) hd
      have := h3 hd'
      omega

theorem rcX_spec {fuel bps c n want avail : Nat} {src : List UInt8} {o : Converted} (hw : want < 2 ^ 32)
    (h : rcX fuel bps c n src want avail = .ok o) : Converts .frames bps want avail o := by
  unfold rcX at h
  have hsum : ∀ first : Nat × Nat × Nat,
      first = (if c / 2 ^ 16 ≠ 0 then rcNext bps c 0 avail else (c, 0, avail)) →
      first.2.1 + first.2.2 = avail := by
    rintro first rfl
    split
    · rw [rcNext_sum]; omega
    · simp
  have hs := hsum _ rfl
  obtain ⟨h1, h2, h3, h4⟩ := rcLoop_spec hw h
  refine ⟨by omega, ?_, fun hd => ?_, fun h0 => h4 (by omega)⟩
  · rw [List.length_nil] at h2; omega
  · have := h3 (by simpa using hd)
    simpa using this

theorem rcNull_eq {c want avail : Nat} {src : List UInt8} (hw : want < 2 ^ 31) (ha : avail < 2 ^ 31) :
    rcNull c src want avail =
      .ok ⟨(List.range (min want avail)).map fun k => src.getD k 0, min want avail, c⟩ := by
  unfold rcNull
  rw [asInt32_nonneg hw, asInt32_nonneg ha]
  have hmin : (min (want : Int) (avail : Int)).toNat = min want avail := by omega
  dsimp only
  rw [if_neg (by omega), hmin]

variable {rc : RateConvert} {fuel bps want avail : Nat} {el : FlowElement K} {src : List UInt8}

/-- What `rcNull` does not run away with. -/
theorem rcNull_ok {c : Nat} {o : Converted} (hw : want < 2 ^ 32) (ha : avail < 2 ^ 32)
    (h : rcNull c src want avail = .ok o) : want < 2 ^ 31 ∧ avail < 2 ^ 31 := by
  unfold rcNull at h
  dsimp only at h
  split at h
  · cases h
  · unfold asInt32 at *
    omega

theorem rateConvert_spec {o : Converted} (hw : want < 2 ^ 32) (ha : avail < 2 ^ 32)
    (h : rateConvert rc fuel bps el src want avail = .ok o) : Converts rc bps want avail o := by
  cases rc with
  | null =>
    obtain ⟨hw, ha⟩ := rcNull_ok hw ha h
    rw [rateConvert, rcNull_eq hw ha] at h
    cases h
    refine ⟨by simp, ?_, fun _ => by simp, fun h0 => by simp [h0]⟩
    simp only [List.length_map, List.length_range]
    omega
  | frames => exact rcX_spec hw h

theorem rcLoop_no_fault {bps n fuel want avail c s : Nat} {src out : List UInt8} :
    rcLoop bps n src fuel want avail c s out ≠ .error .fault := by
  induction fuel generalizing want avail c s out with
  | zero => unfold rcLoop; split <;> simp
  | succ fuel ih =>
    unfold rcLoop
    split
    · simp
    · exact ih

theorem rateConvert_no_fault (hn : rc = .null → want < 2 ^ 31 ∧ avail < 2 ^ 31) :
    rateConvert rc fuel bps el src want avail ≠ .error .fault := by
  cases rc with
  | null =>
    obtain ⟨hw, ha⟩ := hn rfl
    rw [rateConvert, rcNull_eq hw ha]
    simp
  | frames => exact rcLoop_no_fault

/-! ### The invariant -/

/-- The fields of a port that make it a circular buffer. -/
structure PortInv (c : Component) : Prop where
  ring : Ring.WF c.dataSize c.read c.write c.currentSize
  data_length : c.data.length = c.dataSize
  dataSize_lt : c.dataSize + 3 < 2 ^ 32
  zero : c.dataSize = 0 → c.read = 0 ∧ c.write = 0

/-- The bytes that wait in the port, oldest first. -/
def unread (c : Component) : List UInt8 := Ring.window c.data c.read c.currentSize

/-- The bookkeeping of a port: the fill is not above the size, both positions are inside, and their
distance is the fill. -/
structure RingOk (c : Component) : Prop where
  currentSize_le : c.currentSize ≤ c.dataSize
  read_lt : 0 < c.dataSize → c.read < c.dataSize
  write_lt : 0 < c.dataSize → c.write < c.dataSize
  distance : 0 < c.dataSize → (c.write : ℤ) - c.read ≡ c.currentSize [ZMOD c.dataSize]

namespace PortInv
variable {c c' : Component}

theorem ringOk (h : PortInv c) : RingOk c :=
  ⟨h.ring.fill_le, h.ring.read_lt, h.ring.write_lt, h.ring.distance⟩

theorem read_le (h : PortInv c) : c.read ≤ c.dataSize := by
  have := h.ring.read_lt
  have := h.zero
  omega

theorem write_le (h : PortInv c) : c.write ≤ c.dataSize := by
  have := h.ring.write_lt
  have := h.zero
  omega

theorem length_unread (h : PortInv c) : (unread c).length = c.currentSize := by
  have := h.ring.fill_le
  simp [unread, h.data_length]; omega

/-- The port of C's `ReadElement` has this shape. -/
def exportPort (h : PortInv c) : ExportPort where
  c := c
  data_length := h.data_length
  dataSize_lt := h.dataSize_lt
  read_lt := by
    have := h.ring.read_lt
    have := h.zero
    omega
  currentSize_lt := by
    have := h.ring.fill_le
    have := h.dataSize_lt
    omega

/-- A step that takes `k` bytes from the front. -/
theorem get (h : PortInv c) (c' : Component) {k : Nat} (hk : k ≤ c.currentSize) (hd : c'.data = c.data)
    (hs : c'.dataSize = c.dataSize) (hw : c'.write = c.write) (hc : c'.currentSize = c.currentSize - k)
    (hr : c'.read = (c.read + k) % c.dataSize) (hz : c.dataSize = 0 → c'.read = 0) :
    PortInv c' ∧ unread c' = (unread c).drop k := by
  have hle := h.ring.fill_le
  constructor
  · refine ⟨?_, by rw [hd, hs, h.data_length], by rw [hs]; exact h.dataSize_lt, fun h0 => ?_⟩
    · rw [hs, hw, hc, hr]; exact h.ring.get hk
    · rw [hs] at h0
      exact ⟨hz h0, by rw [hw]; exact (h.zero h0).2⟩
  · rw [unread, unread, hd, hc, hr, ← h.data_length, Ring.window_drop hk (by rw [h.data_length]; exact hle)]

/-- A step that puts `xs` behind what waits. -/
theorem put (h : PortInv c) (c' : Component) {xs : List UInt8} (hfit : c.currentSize + xs.length ≤ c.dataSize)
    (hp : Ring.Put c.data c'.data c.write xs) (hs : c'.dataSize = c.dataSize)
    (hr : c'.read = c.read) (hc : c'.currentSize = c.currentSize + xs.length)
    (hw : 0 < c.dataSize → c'.write = (c.write + xs.length) % c.dataSize)
    (hz : c.dataSize = 0 → c'.write = 0) :
    PortInv c' ∧ unread c' = unread c ++ xs := by
  constructor
  · refine ⟨?_, by rw [hp.length, hs, h.data_length], by rw [hs]; exact h.dataSize_lt, fun h0 => ?_⟩
    · rw [hs, hr, hc]
      refine ⟨hfit, h.ring.read_lt, fun h0 => ?_⟩
      rw [hw h0]
      exact (h.ring.put hfit).write_eq h0
    · rw [hs] at h0
      exact ⟨by rw [hr]; exact (h.zero h0).1, hz h0⟩
  · rcases Nat.eq_zero_or_pos c.dataSize with h0 | h0
    · have hx : xs = [] := List.length_eq_zero_iff.1 (by omega)
      have hl : c'.data = [] := List.length_eq_zero_iff.1 (by rw [hp.length, h.data_length, h0])
      have hl' : c.data = [] := List.length_eq_zero_iff.1 (by rw [h.data_length, h0])
      simp [unread, hx, hl, hl', Ring.window]
    · rw [h.ring.write_eq h0, ← h.data_length] at hp
      rw [unread, unread, hr, hc]
      exact Ring.window_put (by rw [h.data_length]; exact h.ring.read_lt h0)
        (by rw [h.data_length]; exact hfit) hp

/-- A reset that empties the port. -/
theorem clear (h : PortInv c) (hd : c'.data = c.data) (hs : c'.dataSize = c.dataSize)
    (hr : c'.read = 0) (hw : c'.write = 0) (hc : c'.currentSize = 0) :
    PortInv c' ∧ unread c' = [] := by
  refine ⟨⟨?_, by rw [hd, hs, h.data_length], by rw [hs]; exact h.dataSize_lt, fun _ => ⟨hr, hw⟩⟩, ?_⟩
  · rw [hs, hr, hw, hc]; exact .empty _
  · simp [unread, hc]

/-- A step that leaves the ring alone. -/
theorem same (h : PortInv c) (hd : c'.data = c.data) (hs : c'.dataSize = c.dataSize)
    (hr : c'.read = c.read) (hw : c'.write = c.write) (hc : c'.currentSize = c.currentSize) :
    PortInv c' ∧ unread c' = unread c := by
  refine ⟨⟨?_, by rw [hd, hs, h.data_length], by rw [hs]; exact h.dataSize_lt, fun h0 => ?_⟩, ?_⟩
  · rw [hs, hr, hw, hc]; exact h.ring
  · rw [hr, hw]; exact h.zero (hs ▸ h0)
  · simp [unread, hd, hr, hc]

end PortInv

/-! ### The steps -/

/-- What can happen to a port: the two requests, a tick of either direction with the element and the
converter it finds, and the two resets. `last` marks the end of the data. -/
inductive PortOp (K : Type) where
  | writeElement (bytes : List UInt8) (last : Bool)
  | readElement (num_bytes : Nat)
  | readClient (fuel : Nat) (rc : RateConvert) (el : FlowElement K)
  | writeClient (fuel : Nat) (rc : RateConvert) (el : FlowElement K)
  | startImport
  | startExport

def portStep (c : Component) : PortOp K → Exec Component
  | .writeElement bytes last => do
    match ← writeElementPort c bytes with
    | none => .ok c
    | some c => .ok (if last then { c with eof := true, incoming := 0 } else c)
  | .readElement num_bytes => (·.1) <$> readElementPort c num_bytes
  | .readClient fuel rc el => (·.1) <$> readClient fuel rc c el
  | .writeClient fuel rc el => (·.1) <$> writeClient fuel rc c el
  | .startImport => .ok (startImportPort c)
  | .startExport => .ok (startExportPort c)

/-- A tick that stays inside the port. The minibuffer of an export fits into the room left; that room,
up to the end of the port and in all, is made of whole frames when the rates differ; and no count is
so large that `rcNull` takes it for negative. -/
def Fits (c : Component) : PortOp K → Prop
  | .readClient _ rc el => el.minibufChunk < 2 ^ 32 ∧
      (rc = .null → el.minibufChunk < 2 ^ 31 ∧ c.dataSize < 2 ^ 31)
  | .writeClient _ rc el => el.minibufBytes ≤ c.dataSize - c.currentSize ∧
      match rc with
      | .null => c.dataSize < 2 ^ 31
      | .frames => c.bytesPerSample ∣ min (c.dataSize - c.write) (c.dataSize - c.currentSize) ∧
          c.bytesPerSample ∣ el.minibufBytes - min (c.dataSize - c.write) (c.dataSize - c.currentSize)
  | _ => True

instance (c : Component) : (op : PortOp K) → Decidable (Fits c op)
  | .readClient _ rc el => inferInstanceAs (Decidable (el.minibufChunk < 2 ^ 32 ∧
      (rc = .null → el.minibufChunk < 2 ^ 31 ∧ c.dataSize < 2 ^ 31)))
  | .writeClient _ .null _ => inferInstanceAs (Decidable (_ ≤ _ ∧ _ < _))
  | .writeClient _ .frames _ => inferInstanceAs (Decidable (_ ≤ _ ∧ _ ∣ _ ∧ _ ∣ _))
  | .writeElement .. | .readElement _ | .startImport | .startExport => inferInstanceAs (Decidable True)

/-- What a step may do to the bytes that wait: a write or a tick of an export appends, a read or a tick
of an import takes from the front, a reset empties the port or leaves it. -/
def Keeps (c : Component) : PortOp K → Component → Prop
  | .writeElement bytes _, c' => unread c' =
      if bytes.length ≤ c.dataSize - c.currentSize then unread c ++ bytes else unread c
  | .readElement num_bytes, c' => unread c' = (unread c).drop (bytesSent c num_bytes)
  | .readClient .., c' => unread c' <:+ unread c
  | .writeClient .., c' => unread c <+: unread c'
  | .startImport, c' | .startExport, c' => unread c' = if c.discard then [] else unread c

theorem store_put {data data' bytes : List UInt8} {d : Nat} (h : store data d bytes = .ok data') :
    Ring.Put data data' d bytes := by
  unfold store at h
  split at h
  · cases h; exact .splice ‹_›
  · cases h

theorem store_ok {data : List UInt8} (d : Nat) (bytes : List UInt8) (h : d + bytes.length ≤ data.length) :
    ∃ data', store data d bytes = .ok data' := by
  unfold store; exact ⟨_, if_pos h⟩

theorem mod_wrap {cap d : Nat} (h : d ≤ cap) :
    d % cap = if d = cap then 0 else d := by
  split
  · rw [‹d = cap›, Nat.mod_self]
  · exact Nat.mod_eq_of_lt (by omega)

namespace PortInv
variable {c c' : Component}

/-- Two copies, the second from where the first ended or from the start of the port. -/
theorem stores (h : PortInv c) {data₁ data₂ xs ys : List UInt8} {d : Nat}
    (hl : xs.length + ys.length ≤ c.dataSize) (hw : c.write + xs.length ≤ c.dataSize)
    (hd : d = if c.write + xs.length = c.dataSize then 0 else c.write + xs.length)
    (h₁ : store c.data c.write xs = .ok data₁) (h₂ : store data₁ d ys = .ok data₂) :
    Ring.Put c.data data₂ c.write (xs ++ ys) := by
  rcases Nat.eq_zero_or_pos c.dataSize with h0 | h0
  · have hx : xs = [] := List.length_eq_zero_iff.1 (by omega)
    have hy : ys = [] := List.length_eq_zero_iff.1 (by omega)
    subst hx hy
    have := store_put h₁
    have h2 := store_put h₂
    exact ⟨h2.length.trans this.length, fun i hi => by rw [h.data_length] at hi; omega⟩
  · refine (store_put h₁).append (by rw [h.data_length]; exact h.ring.write_lt h0) ?_
      (by rw [h.data_length]; exact hl)
    rw [h.data_length, mod_wrap hw, ← hd]
    exact store_put h₂

theorem writeElementPort_refused (h : PortInv c) {bytes : List UInt8}
    (hb : c.dataSize - c.currentSize < bytes.length) : writeElementPort c bytes = .ok none := by
  have hlt := h.dataSize_lt
  unfold writeElementPort
  rw [sub32_eq (by omega) h.ring.fill_le]
  simp only [gt_iff_lt, hb, ↓reduceIte]

theorem writeElementPort_ok (h : PortInv c) {bytes : List UInt8}
    (hb : bytes.length ≤ c.dataSize - c.currentSize) : ∃ c', writeElementPort c bytes = .ok (some c') ∧
      PortInv c' ∧ unread c' = unread c ++ bytes := by
  have hlt := h.dataSize_lt
  have hle := h.ring.fill_le
  have hwl := h.write_le
  unfold writeElementPort
  rw [sub32_eq (by omega) hle]
  simp only [gt_iff_lt, show ¬ c.dataSize - c.currentSize < bytes.length by omega, ↓reduceIte]
  by_cases h0 : bytes.length = 0
  · have : bytes = [] := List.length_eq_zero_iff.1 h0
    exact ⟨c, by simp [h0], h, by simp [this]⟩
  have hpos : 0 < c.dataSize := by omega
  have hwlt := h.ring.write_lt hpos
  set n := min bytes.length (c.dataSize - c.write) with hn
  have hlen₁ : (bytes.take n).length = n := by simp; omega
  obtain ⟨data₁, h₁⟩ := store_ok c.write (bytes.take n)
    (show _ ≤ c.data.length by rw [hlen₁, h.data_length]; omega)
  have hl₁ : data₁.length = c.dataSize := by rw [(store_put h₁).length, h.data_length]
  -- without a wrap nothing is left, which can as well be stored behind the first part
  have hsecond : ∃ data₂, (if n ≠ bytes.length then store data₁ 0 (bytes.drop n) else .ok data₁ :
      Exec (List UInt8)) = .ok data₂ ∧ Ring.Put c.data data₂ c.write bytes := by
    by_cases hne : n = bytes.length
    · refine ⟨data₁, by simp [hne], ?_⟩
      have := store_put h₁
      rwa [List.take_of_length_le (by omega)] at this
    · obtain ⟨data₂, h₂⟩ := store_ok 0 (bytes.drop n)
        (show _ ≤ data₁.length by rw [hl₁, List.length_drop]; omega)
      refine ⟨data₂, by rw [if_pos hne, h₂], ?_⟩
      have := h.stores (by rw [hlen₁, List.length_drop]; omega) (by rw [hlen₁]; omega)
        (by rw [hlen₁, if_pos (by omega)]) h₁ h₂
      rwa [List.take_append_drop] at this
  obtain ⟨data₂, h₂, hput⟩ := hsecond
  rw [if_neg h0, h₁, Exec.ok_bind, h₂, Exec.ok_bind]
  refine ⟨_, rfl, h.put _ (by omega) hput rfl rfl ?_ (fun _ => ?_) (fun h0 => absurd h0 hpos.ne')⟩
  · exact Nat.mod_eq_of_lt (by omega)
  · dsimp only
    split
    · rw [Nat.mod_eq_sub_mod (by omega), Nat.mod_eq_of_lt (by omega)]
    · rw [Nat.mod_eq_of_lt (by omega)]

theorem readElementPort_frame {num_bytes : Nat} {rep : AuReadElementReply} {sent : Sent}
    (h : readElementPort c num_bytes = .ok (c', rep, sent)) :
    c'.data = c.data ∧ c'.dataSize = c.dataSize ∧ c'.write = c.write := by
  obtain ⟨w, -, h⟩ := Exec.bind_eq_ok.1 h
  obtain ⟨s, -, h⟩ := Exec.bind_eq_ok.1 h
  cases h
  exact ⟨rfl, rfl, rfl⟩

theorem readElementPort_ok (h : PortInv c) {num_bytes : Nat} {rep : AuReadElementReply} {sent : Sent}
    (he : readElementPort c num_bytes = .ok (c', rep, sent)) :
    PortInv c' ∧ unread c' = (unread c).drop (bytesSent c num_bytes) := by
  have hle := h.ring.fill_le
  have hn : bytesSent c num_bytes ≤ c.currentSize := Nat.min_le_right _ _
  have hfit : PiecesFit c.dataSize c.read (bytesSent c num_bytes) := by
    by_contra hfit
    exact h.exportPort.readElementPort_fault (hn.trans hle) hfit he
  have hd : Delivers c num_bytes := h.exportPort.delivers (hn.trans hle) hfit
  obtain ⟨c₁, rep₁, sent₁, he₁, -, -, -, -, hc, hr⟩ := hd
  have : c₁ = c' := by
    have := he.symm.trans he₁
    simp only [Except.ok.injEq, Prod.mk.injEq] at this
    exact this.1.symm
  subst this
  obtain ⟨hd, hs, hw⟩ := readElementPort_frame he
  refine h.get _ hn hd hs hw hc hr fun h0 => ?_
  have hr0 := (h.zero h0).1
  have : bytesSent c num_bytes = 0 := by omega
  change c₁.read = (c.read + bytesSent c num_bytes) % c.dataSize at hr
  rw [hr, hr0, this, h0]

theorem alignDown_le (x bytesPerSample : Nat) : alignDown x bytesPerSample ≤ x := Nat.and_le_left

/-- What a tick of an import does to the port: nothing, or two conversions, the second only when the
first has not filled the chunk and stopped at the end of the port. -/
theorem readClient_cases {fuel : Nat} {rc : RateConvert} {el el' : FlowElement K} {ev : PortEvent}
    (h : readClient fuel rc c el = .ok (c', el', ev)) :
    c' = c ∨ ∃ o₁ o₂ curSize pass1 s, curSize = alignDown c.currentSize c.bytesPerSample ∧
      pass1 = min (c.dataSize - c.read) curSize ∧
      rateConvert rc fuel c.bytesPerSample el (c.data.drop c.read) el.minibufChunk pass1 = .ok o₁ ∧
      s = (if c.read + o₁.used = c.dataSize then 0 else c.read + o₁.used) ∧
      (o₂.used = 0 ∨ (o₁.bytes.length < min curSize el.minibufChunk ∧ pass1 < curSize ∧
        ∃ el₁ : FlowElement K, rateConvert rc fuel c.bytesPerSample el₁ (c.data.drop s)
          (sub32 el.minibufChunk o₁.bytes.length) (min (c.dataSize - s) (sub32 curSize o₁.used)) = .ok o₂)) ∧
      c' = { c with read := s + o₂.used, currentSize := sub32 c.currentSize (o₁.used + o₂.used) } := by
  unfold readClient at h
  dsimp only at h
  split at h
  · cases h; exact .inl rfl
  · obtain ⟨o₁, h₁, h⟩ := Exec.bind_eq_ok.1 h
    obtain ⟨o₂, h₂, h⟩ := Exec.bind_eq_ok.1 h
    refine .inr ⟨o₁, o₂, _, _, _, rfl, rfl, h₁, rfl, ?_, ?_⟩
    · split at h₂
      · rename_i hc
        exact .inr ⟨hc.1, hc.2, _, h₂⟩
      · cases h₂; exact .inl rfl
    · cases h; rfl

theorem readClient_ok (h : PortInv c) {fuel : Nat} {rc : RateConvert} {el el' : FlowElement K}
    {ev : PortEvent} (hf : el.minibufChunk < 2 ^ 32)
    (he : readClient fuel rc c el = .ok (c', el', ev)) : PortInv c' ∧ unread c' <:+ unread c := by
  have hle := h.ring.fill_le
  have hlt := h.dataSize_lt
  have hrl := h.read_le
  rcases readClient_cases he with rfl | ⟨o₁, o₂, curSize, pass1, s, hcur, hp, h₁, hs, h₂, rfl⟩
  · exact ⟨h, List.suffix_rfl⟩
  have hcl : curSize ≤ c.currentSize := hcur ▸ alignDown_le ..
  have hc₁ := rateConvert_spec hf (by omega) h₁
  have hu₁ := hc₁.used_le
  -- a second conversion starts at the beginning of the port
  have hu₂ : o₂.used = 0 ∨ o₁.used = c.dataSize - c.read ∧ o₁.used < curSize ∧
      o₂.used ≤ curSize - o₁.used := by
    rcases h₂ with h₂ | ⟨hlen, hpass, el₁, h₂⟩
    · exact .inl h₂
    have hused : o₁.used = pass1 := by
      rcases hc₁.done with hd | hd
      · omega
      · exact hd
    have hsub := sub32_eq (a := curSize) (b := o₁.used) (by omega) (by omega)
    have hc₂ := rateConvert_spec (sub32_lt _ _) (by omega) h₂
    have := hc₂.used_le
    exact .inr ⟨by omega, by omega, by omega⟩
  have htot : o₁.used + o₂.used ≤ c.currentSize := by omega
  have hread : s + o₂.used = (c.read + (o₁.used + o₂.used)) % c.dataSize := by
    rcases Nat.eq_zero_or_pos c.dataSize with h0 | h0
    · have := h.zero h0
      rw [h0, Nat.mod_zero]
      split at hs <;> omega
    · have := h.ring.read_lt h0
      split at hs
      · rw [Nat.mod_eq_sub_mod (by omega), Nat.mod_eq_of_lt (by omega)]; omega
      · rw [Nat.mod_eq_of_lt (by omega)]; omega
  have hzero : c.dataSize = 0 → s + o₂.used = 0 := fun h0 => by
    have := h.zero h0
    split at hs <;> omega
  obtain ⟨hi, hu⟩ := h.get { c with
      read := s + o₂.used, currentSize := sub32 c.currentSize (o₁.used + o₂.used) } htot
    rfl rfl rfl (sub32_eq (by omega) htot) hread hzero
  exact ⟨hi, hu ▸ List.drop_suffix _ _⟩

theorem writeClient_cases {fuel : Nat} {rc : RateConvert} {el el' : FlowElement K} {ev : PortEvent}
    (h : writeClient fuel rc c el = .ok (c', el', ev)) :
    ∃ o₁ o₂ data₁ data₂ pass1 d,
      pass1 = min (c.dataSize - c.write) (sub32 c.dataSize c.currentSize) ∧
      rateConvert rc fuel c.bytesPerSample el el.minibuf pass1 el.minibufBytes = .ok o₁ ∧
      store c.data c.write o₁.bytes = .ok data₁ ∧
      d = (if c.write + o₁.bytes.length = c.dataSize then 0 else c.write + o₁.bytes.length) ∧
      (o₂.bytes = [] ∨ (pass1 < el.minibufBytes ∧ ∃ el₁ : FlowElement K,
        rateConvert rc fuel c.bytesPerSample el₁ (el.minibuf.drop o₁.used)
          (min (el.minibufBytes - pass1) (c.dataSize - d)) (sub32 el.minibufBytes o₁.used) = .ok o₂)) ∧
      store data₁ d o₂.bytes = .ok data₂ ∧
      c' = { c with
        data := data₂, write := d + o₂.bytes.length
        currentSize := (c.currentSize + (o₁.bytes.length + o₂.bytes.length)) % 2 ^ 32 } := by
  unfold writeClient at h
  obtain ⟨o₁, h₁, h⟩ := Exec.bind_eq_ok.1 h
  obtain ⟨data₁, hs₁, h⟩ := Exec.bind_eq_ok.1 h
  obtain ⟨o₂, h₂, h⟩ := Exec.bind_eq_ok.1 h
  obtain ⟨data₂, hs₂, h⟩ := Exec.bind_eq_ok.1 h
  refine ⟨o₁, o₂, data₁, data₂, _, _, rfl, h₁, hs₁, rfl, ?_, hs₂, ?_⟩
  · split at h₂
    · rename_i hc
      exact .inr ⟨hc, _, h₂⟩
    · cases h₂; exact .inl rfl
  · cases h; rfl

/-- The two conversions of a tick of an export that fits, and where they end. -/
theorem writeClient_fits (h : PortInv c) {fuel : Nat} {rc : RateConvert} {el el₁ : FlowElement K}
    {o₁ o₂ : Converted} {pass1 d : Nat} {src₂ : List UInt8}
    (hf : Fits c (.writeClient fuel rc el))
    (hp : pass1 = min (c.dataSize - c.write) (c.dataSize - c.currentSize))
    (h₁ : rateConvert rc fuel c.bytesPerSample el el.minibuf pass1 el.minibufBytes = .ok o₁)
    (hd : d = if c.write + o₁.bytes.length = c.dataSize then 0 else c.write + o₁.bytes.length)
    (h₂ : o₂.bytes = [] ∨ (pass1 < el.minibufBytes ∧ rateConvert rc fuel c.bytesPerSample el₁ src₂
      (min (el.minibufBytes - pass1) (c.dataSize - d)) (sub32 el.minibufBytes o₁.used) = .ok o₂)) :
    c.write + o₁.bytes.length ≤ c.dataSize ∧ d + o₂.bytes.length ≤ c.dataSize ∧
      o₁.bytes.length + o₂.bytes.length ≤ c.dataSize - c.currentSize ∧
      (0 < c.dataSize → d + o₂.bytes.length =
        (c.write + (o₁.bytes.length + o₂.bytes.length)) % c.dataSize) := by
  have hlt := h.dataSize_lt
  have hwl := h.write_le
  obtain ⟨hfit, hrc⟩ := hf
  have hdvd : rc = .null ∨ c.bytesPerSample ∣ pass1 ∧ c.bytesPerSample ∣ el.minibufBytes - pass1 := by
    cases rc with
    | null => exact .inl rfl
    | frames => exact .inr (hp ▸ hrc)
  have hnull : rc = .null → c.dataSize < 2 ^ 31 := by rintro rfl; exact hrc
  have hc₁ := rateConvert_spec (by omega) (by omega) h₁
  have hb₁ := hc₁.bytes_le (hdvd.imp_right And.left)
  have hwr := h.ring.write_lt
  have hz := h.zero
  have hu₁ := hc₁.used_le
  have hsub := sub32_eq (a := el.minibufBytes) (by omega) hu₁
  have hdl : d ≤ c.dataSize := by split at hd <;> omega
  -- either nothing more is stored, or the first part went up to the end of the port
  have hb₂ : o₂.bytes.length = 0 ∨ c.write + o₁.bytes.length = c.dataSize ∧
      o₁.bytes.length + o₂.bytes.length ≤ el.minibufBytes := by
    rcases h₂ with h₂ | ⟨hpass, h₂⟩
    · exact .inl (by rw [h₂]; rfl)
    have hc₂ := rateConvert_spec (by omega) (sub32_lt _ _) h₂
    rcases hc₁.done with hdone | hdone
    · refine .inr ⟨by omega, ?_⟩
      have hd0 : d = 0 := by rw [hd, if_pos (by omega)]
      have hmin : min (el.minibufBytes - pass1) (c.dataSize - d) = el.minibufBytes - pass1 := by omega
      have := hc₂.bytes_le (hdvd.imp_right fun hd => by rw [hmin]; exact hd.2)
      omega
    · exact .inl (by rw [hc₂.bytes_nil (by omega)]; rfl)
  refine ⟨by omega, ?_, by omega, fun h0 => ?_⟩
  · split at hd <;> omega
  · have := hwr h0
    split at hd
    · rw [Nat.mod_eq_sub_mod (by omega), Nat.mod_eq_of_lt (by omega)]; omega
    · rw [Nat.mod_eq_of_lt (by omega)]; omega

theorem writeClient_ok (h : PortInv c) {fuel : Nat} {rc : RateConvert} {el el' : FlowElement K}
    {ev : PortEvent} (hf : Fits c (.writeClient fuel rc el))
    (he : writeClient fuel rc c el = .ok (c', el', ev)) : PortInv c' ∧ unread c <+: unread c' := by
  have hle := h.ring.fill_le
  have hlt := h.dataSize_lt
  obtain ⟨o₁, o₂, data₁, data₂, pass1, d, hp, h₁, hs₁, hd, h₂, hs₂, rfl⟩ := writeClient_cases he
  rw [sub32_eq (by omega) hle] at hp
  obtain ⟨el₁, h₂⟩ : ∃ el₁ : FlowElement K, o₂.bytes = [] ∨ (pass1 < el.minibufBytes ∧
      rateConvert rc fuel c.bytesPerSample el₁ (el.minibuf.drop o₁.used)
        (min (el.minibufBytes - pass1) (c.dataSize - d)) (sub32 el.minibufBytes o₁.used) = .ok o₂) := by
    rcases h₂ with h₂ | ⟨hpass, el₁, h₂⟩
    · exact ⟨el, .inl h₂⟩
    · exact ⟨el₁, .inr ⟨hpass, h₂⟩⟩
  obtain ⟨hw₁, hw₂, hroom, hmod⟩ := h.writeClient_fits hf hp h₁ hd h₂
  have hput := h.stores (by omega) hw₁ hd hs₁ hs₂
  obtain ⟨hi, hu⟩ := h.put { c with
      data := data₂, write := d + o₂.bytes.length
      currentSize := (c.currentSize + (o₁.bytes.length + o₂.bytes.length)) % 2 ^ 32 }
    (show _ + (o₁.bytes ++ o₂.bytes).length ≤ _ by rw [List.length_append]; omega) hput rfl rfl
    (by rw [List.length_append]; exact Nat.mod_eq_of_lt (by omega))
    (fun h0 => by rw [List.length_append]; exact hmod h0) (fun h0 => by dsimp only; omega)
  exact ⟨hi, hu ▸ List.prefix_append _ _⟩

theorem writeClient_no_fault (h : PortInv c) {fuel : Nat} {rc : RateConvert} {el : FlowElement K}
    (hf : Fits c (.writeClient fuel rc el)) : writeClient fuel rc c el ≠ .error .fault := by
  have hle := h.ring.fill_le
  have hlt := h.dataSize_lt
  have hnull : rc = .null → c.dataSize < 2 ^ 31 := by rintro rfl; exact hf.2
  have hfit := hf.1
  intro he
  unfold writeClient at he
  dsimp only at he
  rw [sub32_eq (by omega) hle] at he
  set pass1 := min (c.dataSize - c.write) (c.dataSize - c.currentSize) with hp
  cases h₁ : rateConvert rc fuel c.bytesPerSample el el.minibuf pass1 el.minibufBytes with
  | error e =>
    rw [h₁, Exec.error_bind] at he
    cases he
    exact rateConvert_no_fault (fun hn => by have := hnull hn; omega) h₁
  | ok o₁ =>
  have hf₁ := h.writeClient_fits hf hp h₁ rfl (.inl rfl : (Converted.mk [] 0 0).bytes = [] ∨
    (pass1 < el.minibufBytes ∧ rateConvert rc fuel c.bytesPerSample el [] _ _ = .ok ⟨[], 0, 0⟩))
  obtain ⟨data₁, hs₁⟩ := store_ok c.write o₁.bytes
    (show _ ≤ c.data.length by rw [h.data_length]; exact hf₁.1)
  rw [h₁, Exec.ok_bind, hs₁, Exec.ok_bind] at he
  have hl₁ : data₁.length = c.dataSize := by rw [(store_put hs₁).length, h.data_length]
  by_cases hpass : pass1 < el.minibufBytes
  · rw [if_pos hpass] at he
    have hu₁ := (rateConvert_spec (by omega) (by omega) h₁).used_le
    cases h₂ : rateConvert rc fuel c.bytesPerSample { el with currentSample := o₁.currentSample }
      (el.minibuf.drop o₁.used) (min (el.minibufBytes - pass1) (c.dataSize -
        (if c.write + o₁.bytes.length = c.dataSize then 0 else c.write + o₁.bytes.length)))
      (sub32 el.minibufBytes o₁.used) with
    | error e =>
      rw [h₂, Exec.error_bind] at he
      cases he
      have hsub := sub32_eq (a := el.minibufBytes) (by omega) hu₁
      exact rateConvert_no_fault (fun hn => by have := hnull hn; omega) h₂
    | ok o₂ =>
      have hf₂ := h.writeClient_fits hf hp h₁ rfl (.inr ⟨hpass, h₂⟩)
      obtain ⟨data₂, hs₂⟩ := store_ok _ o₂.bytes (show _ ≤ data₁.length by rw [hl₁]; exact hf₂.2.1)
      rw [h₂, Exec.ok_bind, hs₂, Exec.ok_bind] at he
      cases he
  · rw [if_neg hpass, Exec.ok_bind] at he
    obtain ⟨data₂, hs₂⟩ := store_ok _ [] (show _ ≤ data₁.length by rw [hl₁]; exact hf₁.2.1)
    rw [hs₂, Exec.ok_bind] at he
    cases he

theorem readClient_no_fault (h : PortInv c) {fuel : Nat} {rc : RateConvert} {el : FlowElement K}
    (hf : Fits c (.readClient fuel rc el)) : readClient fuel rc c el ≠ .error .fault := by
  have hcl : alignDown c.currentSize c.bytesPerSample ≤ c.currentSize := alignDown_le ..
  have hle := h.ring.fill_le
  have hlt := h.dataSize_lt
  intro he
  unfold readClient at he
  dsimp only at he
  split at he
  · cases he
  cases h₁ : rateConvert rc fuel c.bytesPerSample el (c.data.drop c.read) el.minibufChunk
    (min (c.dataSize - c.read) (alignDown c.currentSize c.bytesPerSample)) with
  | error e =>
    rw [h₁, Exec.error_bind] at he
    cases he
    exact rateConvert_no_fault (fun hn => ⟨(hf.2 hn).1, by have := (hf.2 hn).2; omega⟩) h₁
  | ok o₁ =>
  rw [h₁, Exec.ok_bind] at he
  have hu₁ := (rateConvert_spec hf.1 (by omega) h₁).used_le
  split at he
  · rename_i hc
    cases h₂ : rateConvert rc fuel c.bytesPerSample { el with currentSample := o₁.currentSample }
      (c.data.drop (if c.read + o₁.used = c.dataSize then 0 else c.read + o₁.used))
      (sub32 el.minibufChunk o₁.bytes.length)
      (min (c.dataSize - if c.read + o₁.used = c.dataSize then 0 else c.read + o₁.used)
        (sub32 (alignDown c.currentSize c.bytesPerSample) o₁.used)) with
    | error e =>
      rw [h₂, Exec.error_bind] at he
      cases he
      have hsub := sub32_eq (a := el.minibufChunk) (b := o₁.bytes.length) (by have := hf.1; omega) (by omega)
      exact rateConvert_no_fault (fun hn => by have := hf.2 hn; omega) h₂
    | ok o₂ =>
      rw [h₂, Exec.ok_bind] at he
      cases he
  · cases he

/-- What one step does. -/
theorem step (h : PortInv c) (op : PortOp K) (hf : Fits c op) (he : portStep c op = .ok c') :
    PortInv c' ∧ Keeps c op c' := by
  cases op with
  | writeElement bytes last =>
    by_cases hb : bytes.length ≤ c.dataSize - c.currentSize
    · obtain ⟨c₁, h₁, hi, hu⟩ := h.writeElementPort_ok hb
      rw [portStep, h₁, Exec.ok_bind] at he
      simp only [Keeps, if_pos hb, ← hu]
      cases he
      cases last
      · exact ⟨hi, rfl⟩
      · exact hi.same rfl rfl rfl rfl rfl
    · rw [portStep, h.writeElementPort_refused (by omega), Exec.ok_bind] at he
      cases he
      simp only [Keeps, if_neg hb]
      exact ⟨h, trivial⟩
  | readElement num_bytes =>
    obtain ⟨⟨c₁, rep, sent⟩, h₁, rfl⟩ := Exec.map_eq_ok.1 he
    exact h.readElementPort_ok h₁
  | readClient fuel rc el =>
    obtain ⟨⟨c₁, el₁, ev⟩, h₁, rfl⟩ := Exec.map_eq_ok.1 he
    exact h.readClient_ok hf.1 h₁
  | writeClient fuel rc el =>
    obtain ⟨⟨c₁, el₁, ev⟩, h₁, rfl⟩ := Exec.map_eq_ok.1 he
    exact h.writeClient_ok hf h₁
  | startImport =>
    cases he
    unfold startImportPort Keeps
    split
    · exact h.clear rfl rfl rfl rfl rfl
    · exact h.same rfl rfl rfl rfl rfl
  | startExport =>
    cases he
    unfold startExportPort Keeps
    split
    · exact h.clear rfl rfl rfl rfl rfl
    · exact ⟨h, rfl⟩

/-- A step that fits stores inside the port; a read cannot store outside it anyway. -/
theorem step_no_fault (h : PortInv c) (op : PortOp K) (hf : Fits c op)
    (hr : ∀ num_bytes, op ≠ .readElement num_bytes) : portStep c op ≠ .error .fault := by
  cases op with
  | writeElement bytes last =>
    by_cases hb : bytes.length ≤ c.dataSize - c.currentSize
    · obtain ⟨c₁, h₁, -⟩ := h.writeElementPort_ok hb
      rw [portStep, h₁, Exec.ok_bind]
      simp
    · rw [portStep, h.writeElementPort_refused (by omega), Exec.ok_bind]
      simp
  | readElement num_bytes => exact absurd rfl (hr num_bytes)
  | readClient fuel rc el =>
    intro he
    exact h.readClient_no_fault hf (Exec.map_eq_error.1 he)
  | writeClient fuel rc el =>
    intro he
    exact h.writeClient_no_fault hf (Exec.map_eq_error.1 he)
  | startImport => simp [portStep]
  | startExport => simp [portStep]

end PortInv

/-! ### Runs -/

variable {auMinibufSamples format numTracks numSamples lowWater highWater : Nat} {discard : Bool}
  {c₀ c : Component}

/-- A new port is empty, and its size is not so near to 2^32 that padding it overflows. -/
theorem createPort_inv (hm : auMinibufSamples < 2 ^ 21) (ht : numTracks < 2 ^ 8)
    (h : createPort auMinibufSamples format numTracks numSamples lowWater highWater discard = some c) :
    PortInv c := by
  have hmul : auMinibufSamples * numTracks < 2 ^ 29 :=
    calc auMinibufSamples * numTracks < 2 ^ 21 * 2 ^ 8 := Nat.mul_lt_mul'' hm ht
      _ = 2 ^ 29 := (Nat.pow_add 2 21 8).symm
  unfold createPort at h
  dsimp only at h
  split at h
  · cases h
  · rename_i hsize
    have hmini : auNativeBytesPerSample * auMinibufSamples * numTracks < 2 ^ 30 := by
      rw [Nat.mul_assoc, auNativeBytesPerSample]; omega
    rw [Nat.mod_eq_of_lt (by omega : auNativeBytesPerSample * auMinibufSamples * numTracks < 2 ^ 32)] at hsize
    cases h
    refine ⟨.empty _, by simp, ?_, fun _ => ⟨rfl, rfl⟩⟩
    have hlt : numSamples * sizeofFormat format * numTracks % 2 ^ 32 < 2 ^ 32 := Nat.mod_lt _ (by omega)
    generalize numSamples * sizeofFormat format * numTracks % 2 ^ 32 = dataSize at hsize hlt ⊢
    generalize auNativeBytesPerSample * auMinibufSamples * numTracks = minibufSize at hsize hmini
    dsimp only
    unfold pad4u sizeofComponentRec at hsize
    omega

/-- In a run of steps that fit, the ring is in order in every state, and every step that fits keeps
the bytes that wait and stores inside the port. -/
theorem portRun_ring (hm : auMinibufSamples < 2 ^ 21) (ht : numTracks < 2 ^ 8)
    (hc : createPort auMinibufSamples format numTracks numSamples lowWater highWater discard = some c₀)
    (h : Reach (portStep (K := K)) Fits c₀ c) :
    RingOk c ∧ ∀ op : PortOp K, Fits c op → (∀ c', portStep c op = .ok c' → Keeps c op c') ∧
      ((∀ num_bytes, op ≠ .readElement num_bytes) → portStep c op ≠ .error .fault) := by
  have hi : PortInv c := h.inv (createPort_inv hm ht hc) fun s r s' hs hf he => (hs.step r hf he).1
  exact ⟨hi.ringOk, fun op hf => ⟨fun c' he => (hi.step op hf he).2, hi.step_no_fault op hf⟩⟩

/-- The minibuffer of an export with six bytes in it. -/
def sixBytes : FlowElement AuFixedPoint where
  client := 0
  raw := .exportClient
    { sampleRate := 8000, input := 0, format := 2, numTracks := 1, discard := false, maxSamples := 8
      highWaterMark := 0, actions := [] }
  elementNum := 1
  isComponent := true
  minibuf := [1, 2, 3, 4, 5, 6]
  minibufBytes := 6

/-- A port of eight bytes that has been written six. -/
theorem portRun_ring_sixBytes : ∃ c₀ c, createPort 6 2 1 8 0 0 false = some c₀ ∧
    portStep c₀ (.writeClient 0 .null sixBytes) = .ok c ∧ RingOk c := by
  refine ⟨_, _, rfl, rfl, ?_⟩
  have hm : (6 : Nat) < 2 ^ 21 := by decide
  have ht : (1 : Nat) < 2 ^ 8 := by decide
  have hc : createPort 6 2 1 8 0 0 false = some _ := rfl
  exact (portRun_ring (K := AuFixedPoint) hm ht hc
    (.step (.writeClient 0 .null sixBytes) .init (by decide) rfl)).1

/-- A second tick of six bytes does not fit into the two left, and is stored all the same. -/
theorem sixBytes_overrun : ¬ ∀ c₀ c, createPort 6 2 1 8 0 0 false = some c₀ →
    Reach (portStep (K := AuFixedPoint)) (fun _ _ => True) c₀ c → RingOk c := by
  intro h
  have hr := (h _ _ rfl (.step (.writeClient 0 .null sixBytes)
    (.step (.writeClient 0 .null sixBytes) .init trivial rfl) trivial rfl)).currentSize_le
  revert hr
  decide

end Nas
