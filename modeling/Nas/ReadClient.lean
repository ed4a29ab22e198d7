import Nas.RateConvert

/-!
# A tick of an import as one conversion

`readClient` converts the bytes up to the end of the port, and with those at its beginning it goes on in a second
call. The second is made when the first has stored less than there is to read, a number of bytes of the source that
is compared with one of the result; and how much there is to read is rounded down with a mask.

`asOne_iff` says for which ports the two calls are one over the whole frames that wait.
-/

namespace Nas
variable {K : Type}

/-- The port of an import and its element, as a tick finds them. A chunk is a whole number of frames. -/
structure ImportPort (K : Type) where
  c : Component
  el : FlowElement K
  rc : RateConvert
  inv : PortInv c
  chunk : c.bytesPerSample ∣ el.minibufChunk
  chunk_pos : 0 < el.minibufChunk
  chunk_lt : el.minibufChunk < 2 ^ 32

namespace ImportPort
variable (p : ImportPort K)

/-- `c->bytesPerSample` -/
def bps : Nat := p.c.bytesPerSample

/-- The frames of a chunk. -/
def chunkFrames : Nat := p.el.minibufChunk / p.bps

/-- `curSize` -/
def curSize : Nat := alignDown p.c.currentSize p.bps

/-- `c->dataEnd - s` -/
def toEnd : Nat := p.c.dataSize - p.c.read

/-- `pass1` -/
def pass1 : Nat := min p.toEnd p.curSize

/-- The bytes of the whole frames that wait. -/
def wholeFrames : Nat := p.c.currentSize / p.bps * p.bps

/-- Where the element is in front of the frame of a conversion. -/
def position (k : Nat) : Nat := Nas.position p.el.currentSample p.el.nextSample k

/-- The conversion of the bytes that wait, had it `avail` of them and stopped with the `k`-th frame. -/
def conversion (k avail : Nat) : Converted :=
  converted (unread p.c) p.bps p.el.currentSample p.el.nextSample k avail

/-- The conversion that has `avail` bytes stops with the `k`-th frame. -/
def Stops (avail k : Nat) : Prop := StopsAt p.bps p.el.currentSample p.el.nextSample p.el.minibufChunk avail k

/-- The port with other bytes in it. -/
def holding (data : List UInt8) (h : data.length = p.c.dataSize) : ImportPort K :=
  { p with c := { p.c with data }, inv := ⟨p.inv.ring, h, p.inv.dataSize_lt, p.inv.zero⟩ }

/-- The tick as it is with another minibuffer. -/
def readClient (fuel : Nat) (minibuf : List UInt8) : Exec (Component × FlowElement K × PortEvent) :=
  Nas.readClient fuel p.rc p.c { p.el with minibuf }

/-- The tick puts these bytes in the minibuffer, whatever that holds, takes from the port what they use up, and keeps
this phase. -/
def Ticks (o : Converted) : Prop :=
  ∃ fuel, ∀ minibuf, ∃ c el event, p.readClient fuel minibuf = .ok (c, el, event) ∧
    el.minibuf = o.bytes ++ minibuf.drop o.bytes.length ∧ el.currentSample = o.currentSample ∧
    c.currentSize = p.c.currentSize - o.used ∧ unread c = (unread p.c).drop o.used

/-- The tick is one conversion of the whole frames that wait, and uses up whole frames. -/
def AsOne : Prop :=
  ∃ fuel o, rateConvert p.rc fuel p.bps p.el (unread p.c) p.el.minibufChunk p.wholeFrames = .ok o ∧ p.bps ∣ o.used ∧
    p.Ticks o

/-- The frames the first call would have to make for the second to be left out. -/
def enough : Nat := (min p.curSize p.el.minibufChunk + p.bps - 1) / p.bps

/-- How far the calls get: to the end of the port only, when there are bytes behind it but a frame lies across, or the
first call makes enough of those in front. -/
def reach : Nat :=
  if p.pass1 < p.curSize ∧ (¬ p.bps ∣ p.toEnd ∨ p.position (p.enough - 1) * p.bps < p.pass1) then p.pass1 else p.curSize

/-- The calls get to the end of the whole frames and no further; or a chunk is filled before that matters, and with no
frame that lies across the end of the port. -/
def Whole : Prop :=
  match p.rc with
  | .null => p.el.minibufChunk < 2 ^ 31 ∧ p.wholeFrames < 2 ^ 31 ∧ p.pass1 < 2 ^ 31 ∧
      (p.pass1 < p.curSize ∧ p.pass1 < p.el.minibufChunk → p.curSize - p.pass1 < 2 ^ 31) ∧
      min p.el.minibufChunk p.curSize = min p.el.minibufChunk p.wholeFrames
  | .frames => p.reach = p.wholeFrames ∨
      (p.position p.chunkFrames * p.bps ≤ min p.reach p.wholeFrames ∧
        p.position (p.chunkFrames - 1) * p.bps < min p.reach p.wholeFrames ∧
        (p.bps ∣ p.toEnd ∨ (p.position (p.chunkFrames - 1) + 1) * p.bps ≤ p.toEnd))

instance : Decidable p.Whole := by
  unfold Whole
  split <;> infer_instance

/-! ### Sizes -/

theorem bps_pos : 0 < p.bps := Nat.pos_of_dvd_of_pos p.chunk p.chunk_pos

theorem curSize_le : p.curSize ≤ p.c.currentSize := PortInv.alignDown_le ..

theorem pass1_le : p.pass1 ≤ p.curSize := Nat.min_le_right ..

theorem wholeFrames_le : p.wholeFrames ≤ p.c.currentSize := Nat.div_mul_le_self ..

theorem bps_dvd_wholeFrames : p.bps ∣ p.wholeFrames := Nat.dvd_mul_left ..

theorem chunkFrames_mul : p.chunkFrames * p.bps = p.el.minibufChunk := Nat.div_mul_cancel p.chunk

theorem chunkFrames_pos : 0 < p.chunkFrames := Nat.div_pos (Nat.le_of_dvd p.chunk_pos p.chunk) p.bps_pos

theorem currentSize_le : p.c.currentSize ≤ p.c.dataSize := p.inv.ring.fill_le

theorem length_unread : (unread p.c).length = p.c.currentSize := p.inv.length_unread

theorem bps_lt : p.bps < 2 ^ 32 := (Nat.le_of_dvd p.chunk_pos p.chunk).trans_lt p.chunk_lt

/-- A fill that the mask clears is less than a frame. -/
theorem wholeFrames_eq_zero (h : p.curSize = 0) : p.wholeFrames = 0 := by
  have hpos := p.bps_pos
  have hlt := p.bps_lt
  have hsize : p.c.currentSize < 2 ^ 32 := by
    have := p.inv.dataSize_lt
    have := p.currentSize_le
    omega
  -- the mask has the bits that `bps - 1` has not
  have hmask : p.c.currentSize &&& (p.bps - 1) = p.c.currentSize := by
    refine Nat.eq_of_testBit_eq fun i => ?_
    have hbit := congrArg (Nat.testBit · i) h
    have hsub : 2 ^ 32 - 1 - sub32 p.bps 1 = 2 ^ 32 - (p.bps - 1 + 1) := by
      rw [sub32_eq hlt hpos]
      omega
    simp only [curSize, alignDown, hsub, Nat.testBit_and, Nat.zero_testBit,
      Nat.testBit_two_pow_sub_succ (by omega : p.bps - 1 < 2 ^ 32)] at hbit
    by_cases hi : i < 32
    · simp only [hi, decide_true, Bool.true_and] at hbit
      rw [Nat.testBit_and]
      revert hbit
      cases p.c.currentSize.testBit i <;> simp
    · rw [Nat.testBit_and, Nat.testBit_lt_two_pow (hsize.trans_le (Nat.pow_le_pow_right (by omega) (by omega))),
        Bool.false_and]
  have hle : p.c.currentSize ≤ p.bps - 1 := hmask ▸ Nat.and_le_right
  rw [wholeFrames, Nat.div_eq_of_lt (by omega), Nat.zero_mul]

/-! ### The calls -/

section
variable {p} {o o' o₁ o₂ : Converted} {k k₁ k₂ : Nat}

theorem readClient_fuel {fuel fuel' : Nat} {minibuf : List UInt8} {r : Component × FlowElement K × PortEvent}
    (hle : fuel ≤ fuel') (h : p.readClient fuel minibuf = .ok r) : p.readClient fuel' minibuf = .ok r := by
  unfold readClient Nas.readClient at h ⊢
  dsimp only at h ⊢
  split at h
  · rename_i hcur
    rw [if_pos hcur]
    exact h
  · rename_i hcur
    obtain ⟨o₁, h₁, h⟩ := Exec.bind_eq_ok.1 h
    obtain ⟨o₂, h₂, h⟩ := Exec.bind_eq_ok.1 h
    rw [if_neg hcur, rateConvert_fuel hle h₁, Exec.ok_bind]
    refine Exec.bind_eq_ok.2 ⟨o₂, ?_, h⟩
    split at h₂
    · rename_i hmore
      rw [if_pos hmore]
      exact rateConvert_fuel hle h₂
    · rename_i hmore
      rw [if_neg hmore]
      exact h₂

/-- A tick does one thing. -/
theorem Ticks.unique (h : p.Ticks o) (h' : p.Ticks o') (hle : o.used ≤ p.c.currentSize)
    (hle' : o'.used ≤ p.c.currentSize) : o = o' := by
  obtain ⟨fuel, h⟩ := h
  obtain ⟨fuel', h'⟩ := h'
  obtain ⟨c, el, event, hread, hbytes, hphase, hsize, -⟩ := h []
  obtain ⟨c', el', event', hread', hbytes', hphase', hsize', -⟩ := h' []
  have hsame := (readClient_fuel (Nat.le_max_left fuel fuel') hread).symm.trans
    (readClient_fuel (Nat.le_max_right fuel fuel') hread')
  cases hsame
  rw [List.drop_nil, List.append_nil] at hbytes hbytes'
  rcases o with ⟨bytes, used, currentSample⟩
  rcases o' with ⟨bytes', used', currentSample'⟩
  dsimp only at *
  have hused : used = used' := by omega
  rw [← hbytes, ← hbytes', ← hphase, ← hphase', hused]

/-- What the tick does is to be what the one conversion does. -/
theorem asOne_iff_eq {fuel : Nat}
    (hone : rateConvert p.rc fuel p.bps p.el (unread p.c) p.el.minibufChunk p.wholeFrames = .ok o')
    (h : p.Ticks o) (hle : o.used ≤ p.c.currentSize) (hle' : o'.used ≤ p.c.currentSize) (hdvd : p.bps ∣ o'.used) :
    p.AsOne ↔ o = o' := by
  constructor
  · rintro ⟨fuel', one, hone', -, hticks⟩
    have hsame := (rateConvert_fuel (Nat.le_max_left fuel fuel') hone).symm.trans
      (rateConvert_fuel (Nat.le_max_right fuel fuel') hone')
    cases hsame
    exact h.unique hticks hle hle'
  · rintro rfl
    exact ⟨fuel, o, hone, hdvd, h⟩

/-- With less than a frame the tick does nothing. -/
theorem ticks_zero (h : p.curSize = 0) : p.Ticks ⟨[], 0, p.el.currentSample⟩ := by
  refine ⟨0, fun minibuf => ⟨p.c, { p.el with minibuf }, .none, ?_, rfl, rfl, rfl, rfl⟩⟩
  unfold readClient Nas.readClient
  exact if_pos h

/-- The results of the calls of a tick. The second goes on at the beginning of the port. -/
structure Calls (p : ImportPort K) (o₁ o₂ : Converted) : Prop where
  curSize : p.curSize ≠ 0
  first : ∃ fuel, rateConvert p.rc fuel p.bps p.el (p.c.data.drop p.c.read) p.el.minibufChunk p.pass1 = .ok o₁
  second : if o₁.bytes.length < min p.curSize p.el.minibufChunk ∧ p.pass1 < p.curSize
    then ∃ fuel, rateConvert p.rc fuel p.bps { p.el with currentSample := o₁.currentSample } p.c.data
      (p.el.minibufChunk - o₁.bytes.length) (p.curSize - p.pass1) = .ok o₂
    else o₂ = ⟨[], 0, o₁.currentSample⟩

theorem Calls.used (h : Calls p o₁ o₂) : o₁.used + o₂.used ≤ p.curSize := by
  have hcur := p.curSize_le
  have hle := p.currentSize_le
  have hlt := p.inv.dataSize_lt
  have hpass := p.pass1_le
  obtain ⟨fuel, h₁⟩ := h.first
  have hu₁ := (rateConvert_spec p.chunk_lt (by omega) h₁).used_le
  have h₂ := h.second
  split at h₂
  · obtain ⟨fuel', h₂⟩ := h₂
    have hchunk := p.chunk_lt
    have hu₂ := (rateConvert_spec (by omega) (by omega) h₂).used_le
    omega
  · subst h₂
    dsimp only
    omega

/-- The second call is made at the end of the port. -/
theorem wraps {fuel : Nat}
    (h : rateConvert p.rc fuel p.bps p.el (p.c.data.drop p.c.read) p.el.minibufChunk p.pass1 = .ok o₁)
    (hmore : o₁.bytes.length < min p.curSize p.el.minibufChunk ∧ p.pass1 < p.curSize) :
    o₁.used = p.pass1 ∧ p.c.read + o₁.used = p.c.dataSize := by
  have hread := p.inv.read_le
  have hlt := p.inv.dataSize_lt
  have hle := p.currentSize_le
  have hcur := p.curSize_le
  have hend : o₁.used = p.pass1 := by
    rcases (rateConvert_spec p.chunk_lt (by omega) h).done with hdone | hdone
    · omega
    · exact hdone
  refine ⟨hend, ?_⟩
  have hrest := hmore.2
  unfold pass1 toEnd at hrest hend
  omega

/-- What the tick asks for with so much left. -/
def event (p : ImportPort K) (left : Nat) : PortEvent :=
  if left = 0 then if p.c.eof then .change auStateStop auReasonEOF else .change auStatePause auReasonUnderrun
  else if (p.curSize > p.c.lowWaterMark ∨ p.c.incoming = 0) ∧ left ≤ p.c.lowWaterMark ∧ ¬p.c.eof then .watermark
  else .none

/-- The element after a tick that has stored `out`. -/
def after (p : ImportPort K) (out : List UInt8) (currentSample left : Nat) (minibuf : List UInt8) : FlowElement K :=
  { p.el with
    currentSample
    minibuf := out ++ minibuf.drop out.length
    minibufSamples := if left = 0 then out.length / p.bps else p.el.minibufSamples }

/-- What the tick makes of the calls. -/
theorem Calls.readClient (h : Calls p o₁ o₂) : ∃ fuel c, c.currentSize = p.c.currentSize - (o₁.used + o₂.used) ∧
    ∀ minibuf, p.readClient fuel minibuf =
      .ok (c, p.after (o₁.bytes ++ o₂.bytes) o₂.currentSample (p.curSize - (o₁.used + o₂.used)) minibuf,
        p.event (p.curSize - (o₁.used + o₂.used))) := by
  have hcur := p.curSize_le
  have hle := p.currentSize_le
  have hlt := p.inv.dataSize_lt
  have hchunk := p.chunk_lt
  have hused := h.used
  obtain ⟨fuel, h₁⟩ := h.first
  obtain ⟨fuel', hfuel, h₂⟩ : ∃ fuel', fuel ≤ fuel' ∧
      (if o₁.bytes.length < min p.curSize p.el.minibufChunk ∧ p.pass1 < p.curSize then
        rateConvert p.rc fuel' p.bps { p.el with currentSample := o₁.currentSample } p.c.data
          (p.el.minibufChunk - o₁.bytes.length) (p.curSize - p.pass1)
      else .ok ⟨[], 0, o₁.currentSample⟩) = .ok o₂ := by
    have h₂ := h.second
    split at h₂
    · rename_i hmore
      obtain ⟨fuel', h₂⟩ := h₂
      refine ⟨max fuel fuel', Nat.le_max_left .., ?_⟩
      rw [if_pos hmore]
      exact rateConvert_fuel (Nat.le_max_right ..) h₂
    · rename_i hmore
      refine ⟨fuel, Nat.le_refl _, ?_⟩
      rw [if_neg hmore, h₂]
  refine ⟨fuel', { p.c with
    read := (if p.c.read + o₁.used = p.c.dataSize then 0 else p.c.read + o₁.used) + o₂.used
    currentSize := sub32 p.c.currentSize (o₁.used + o₂.used) }, sub32_eq (by omega) (by omega), fun minibuf => ?_⟩
  rw [← sub32_eq (by omega : p.curSize < 2 ^ 32) hused]
  unfold ImportPort.readClient Nas.readClient
  refine (if_neg h.curSize).trans ?_
  have hfirst : rateConvert p.rc fuel' p.c.bytesPerSample { p.el with minibuf } (p.c.data.drop p.c.read) p.el.minibufChunk
      (min (p.c.dataSize - p.c.read) (alignDown p.c.currentSize p.c.bytesPerSample)) = .ok o₁ := rateConvert_fuel hfuel h₁
  dsimp only
  rw [hfirst, Exec.ok_bind]
  refine Exec.bind_eq_ok.2 ⟨o₂, ?_, rfl⟩
  split at h₂
  · rename_i hmore
    obtain ⟨hend, hwrap⟩ := wraps h₁ hmore
    refine (if_pos hmore).trans ?_
    rw [if_pos hwrap, List.drop_zero, Nat.sub_zero, sub32_eq hchunk (by omega)]
    change rateConvert _ _ _ _ _ _ (min p.c.dataSize (sub32 p.curSize o₁.used)) = _
    rw [sub32_eq (by omega) (by omega), hend, Nat.min_eq_right (by omega)]
    exact h₂
  · rename_i hmore
    exact (if_neg hmore).trans h₂

theorem Calls.ticks (h : Calls p o₁ o₂) :
    p.Ticks ⟨o₁.bytes ++ o₂.bytes, o₁.used + o₂.used, o₂.currentSample⟩ := by
  have hused := h.used
  have hcur := p.curSize_le
  obtain ⟨fuel, c, hsize, hresult⟩ := h.readClient
  refine ⟨fuel, fun minibuf => ⟨c, _, _, hresult minibuf, rfl, rfl, hsize, ?_⟩⟩
  obtain ⟨hinv, hsuffix⟩ := PortInv.readClient_ok p.inv (by exact p.chunk_lt) (hresult minibuf)
  rw [List.suffix_iff_eq_drop.1 hsuffix, hinv.length_unread, p.length_unread, hsize]
  congr 1
  dsimp only
  omega

/-- A tick that comes to an end has made its calls. -/
theorem exists_calls {fuel : Nat} {minibuf : List UInt8} {r : Component × FlowElement K × PortEvent}
    (hcur : p.curSize ≠ 0) (h : p.readClient fuel minibuf = .ok r) : ∃ o₁ o₂, Calls p o₁ o₂ := by
  have hle := p.currentSize_le
  have hlt := p.inv.dataSize_lt
  have hsize := p.curSize_le
  have hchunk := p.chunk_lt
  unfold readClient Nas.readClient at h
  replace h := (if_neg hcur).symm.trans h
  obtain ⟨o₁, h₁, h⟩ := Exec.bind_eq_ok.1 h
  obtain ⟨o₂, h₂, -⟩ := Exec.bind_eq_ok.1 h
  refine ⟨o₁, o₂, hcur, ⟨fuel, h₁⟩, ?_⟩
  split
  · rename_i hmore
    obtain ⟨hend, hwrap⟩ := wraps h₁ hmore
    replace h₂ := (if_pos hmore).symm.trans h₂
    dsimp only at h₂
    rw [if_pos hwrap, List.drop_zero, Nat.sub_zero, sub32_eq hchunk (by omega)] at h₂
    change rateConvert _ _ _ _ _ _ (min p.c.dataSize (sub32 p.curSize o₁.used)) = _ at h₂
    rw [sub32_eq (by omega) (by omega), hend, Nat.min_eq_right (by omega)] at h₂
    exact ⟨fuel, h₂⟩
  · rename_i hmore
    replace h₂ := (if_neg hmore).symm.trans h₂
    cases h₂
    rfl

/-! ### The bytes in order -/

theorem getD_unread {i : Nat} (hi : i < p.c.currentSize) :
    (unread p.c).getD i 0 = p.c.data.getD ((i + p.c.read) % p.c.dataSize) 0 := by
  have hle := p.currentSize_le
  have hlen := p.inv.data_length
  rw [List.getD_eq_getElem?_getD, List.getD_eq_getElem?_getD, unread, Ring.getElem?_window hi (by omega), hlen]

/-- What lies in front of the end of the port. -/
theorem frameAt_front {x width : Nat} (hend : x + width ≤ p.toEnd) (hsize : x + width ≤ p.c.currentSize) :
    frameAt (p.c.data.drop p.c.read) x width = frameAt (unread p.c) x width := by
  refine List.map_congr_left fun i hi => ?_
  rw [List.mem_range] at hi
  unfold toEnd at hend
  rw [getD_unread (by omega), List.getD_eq_getElem?_getD, List.getElem?_drop, ← List.getD_eq_getElem?_getD,
    Nat.mod_eq_of_lt (by omega), Nat.add_comm p.c.read]

/-- What lies behind it. -/
theorem frameAt_back {x width : Nat} (hsize : p.toEnd + x + width ≤ p.c.currentSize) :
    frameAt p.c.data x width = frameAt (unread p.c) (p.toEnd + x) width := by
  have hle := p.currentSize_le
  have hread := p.inv.read_le
  refine List.map_congr_left fun i hi => ?_
  rw [List.mem_range] at hi
  have hwrap : p.toEnd + x + i + p.c.read = p.c.dataSize + (x + i) := by
    unfold toEnd
    omega
  unfold toEnd at hsize
  rw [getD_unread (by unfold toEnd; omega), hwrap, Nat.add_mod_left, Nat.mod_eq_of_lt (by omega)]

theorem frameAt_add (src : List UInt8) (x i j : Nat) : frameAt src x (i + j) = frameAt src x i ++ frameAt src (x + i) j := by
  unfold frameAt
  rw [List.range_add, List.map_append, List.map_map]
  congr 1
  refine List.map_congr_left fun k _ => ?_
  rw [Function.comp_apply, Nat.add_assoc]

/-! ### Without rate conversion -/

theorem rateConvert_null {fuel want avail : Nat} {el : FlowElement K} {src : List UInt8} (hw : want < 2 ^ 31)
    (ha : avail < 2 ^ 31) : rateConvert .null fuel p.bps el src want avail =
      .ok ⟨frameAt src 0 (min want avail), min want avail, el.currentSample⟩ := by
  rw [rateConvert, rcNull_eq hw ha]
  unfold frameAt
  simp only [Nat.zero_add]

theorem calls_null (hrc : p.rc = .null) (hcur : p.curSize ≠ 0) (hchunk : p.el.minibufChunk < 2 ^ 31)
    (hpass : p.pass1 < 2 ^ 31)
    (hrest : p.pass1 < p.curSize ∧ p.pass1 < p.el.minibufChunk → p.curSize - p.pass1 < 2 ^ 31) :
    p.Ticks ⟨frameAt (unread p.c) 0 (min p.el.minibufChunk p.curSize), min p.el.minibufChunk p.curSize,
      p.el.currentSample⟩ := by
  have hle := p.curSize_le
  have hpass_le := p.pass1_le
  have hend : p.pass1 ≤ p.toEnd := Nat.min_le_left ..
  set o₁ : Converted :=
    ⟨frameAt (p.c.data.drop p.c.read) 0 (min p.el.minibufChunk p.pass1), min p.el.minibufChunk p.pass1,
      p.el.currentSample⟩ with ho₁
  have hlen : o₁.bytes.length = min p.el.minibufChunk p.pass1 := length_frameAt ..
  have hfirst : o₁.bytes = frameAt (unread p.c) 0 (min p.el.minibufChunk p.pass1) :=
    frameAt_front (by omega) (by omega)
  by_cases hmore : p.pass1 < p.curSize ∧ p.pass1 < p.el.minibufChunk
  · have hpass_eq : p.pass1 = p.toEnd := by
      have := hmore.1
      unfold pass1 at this ⊢
      omega
    have hcalls : Calls p o₁ ⟨frameAt p.c.data 0 (min (p.el.minibufChunk - p.pass1) (p.curSize - p.pass1)),
        min (p.el.minibufChunk - p.pass1) (p.curSize - p.pass1), p.el.currentSample⟩ := by
      refine ⟨hcur, ⟨0, ?_⟩, ?_⟩
      · rw [hrc]
        exact rateConvert_null hchunk hpass
      · rw [if_pos (by omega), hlen, Nat.min_eq_right (by omega : p.pass1 ≤ p.el.minibufChunk), hrc]
        exact ⟨0, rateConvert_null (by omega) (hrest hmore)⟩
    have hsum : min p.el.minibufChunk p.curSize =
        p.pass1 + min (p.el.minibufChunk - p.pass1) (p.curSize - p.pass1) := by omega
    have hticks := hcalls.ticks
    rw [hfirst, Nat.min_eq_right (by omega : p.pass1 ≤ p.el.minibufChunk), frameAt_back (by omega), Nat.add_zero,
      ← hpass_eq] at hticks
    rw [hsum, frameAt_add, Nat.zero_add]
    rw [ho₁, Nat.min_eq_right (by omega : p.pass1 ≤ p.el.minibufChunk)] at hticks
    exact hticks
  · have hcalls : Calls p o₁ ⟨[], 0, p.el.currentSample⟩ := by
      refine ⟨hcur, ⟨0, ?_⟩, ?_⟩
      · rw [hrc]
        exact rateConvert_null hchunk hpass
      · rw [if_neg (by omega)]
    have hsame : min p.el.minibufChunk p.curSize = min p.el.minibufChunk p.pass1 := by omega
    have hticks := hcalls.ticks
    rw [hfirst, List.append_nil, Nat.add_zero] at hticks
    rw [hsame]
    exact hticks

theorem asOne_null (hrc : p.rc = .null) : p.AsOne ↔ p.Whole := by
  have hle := p.curSize_le
  have hwhole := p.wholeFrames_le
  have hsize := p.currentSize_le
  have hlt := p.inv.dataSize_lt
  have hpass_le := p.pass1_le
  -- once the counts are no negative numbers, the two ends are compared
  have hiff (hchunk : p.el.minibufChunk < 2 ^ 31) (hframes : p.wholeFrames < 2 ^ 31) (hpass : p.pass1 < 2 ^ 31)
      (hrest : p.pass1 < p.curSize ∧ p.pass1 < p.el.minibufChunk → p.curSize - p.pass1 < 2 ^ 31) :
      p.AsOne ↔ min p.el.minibufChunk p.curSize = min p.el.minibufChunk p.wholeFrames := by
    have hone : rateConvert p.rc 0 p.bps p.el (unread p.c) p.el.minibufChunk p.wholeFrames =
        .ok ⟨frameAt (unread p.c) 0 (min p.el.minibufChunk p.wholeFrames), min p.el.minibufChunk p.wholeFrames,
          p.el.currentSample⟩ := by
      rw [hrc]
      exact rateConvert_null hchunk hframes
    have hdvd : p.bps ∣ min p.el.minibufChunk p.wholeFrames := by
      rcases Nat.le_total p.el.minibufChunk p.wholeFrames with h | h
      · rw [Nat.min_eq_left h]
        exact p.chunk
      · rw [Nat.min_eq_right h]
        exact p.bps_dvd_wholeFrames
    have hticks : p.Ticks ⟨frameAt (unread p.c) 0 (min p.el.minibufChunk p.curSize), min p.el.minibufChunk p.curSize,
        p.el.currentSample⟩ := by
      by_cases hcur : p.curSize = 0
      · rw [hcur, Nat.min_zero]
        exact ticks_zero hcur
      · exact calls_null hrc hcur hchunk hpass hrest
    rw [asOne_iff_eq hone hticks (by dsimp only; omega) (by dsimp only; omega) hdvd]
    constructor
    · intro h
      exact congrArg Converted.used h
    · intro h
      rw [h]
  unfold Whole
  rw [hrc]
  dsimp only
  constructor
  · intro h
    obtain ⟨fuel, o, hone, -, fuel', hticks⟩ := id h
    rw [hrc] at hone
    obtain ⟨hchunk, hframes⟩ := rcNull_ok p.chunk_lt (by omega) hone
    by_cases hcur : p.curSize = 0
    · exact ⟨hchunk, hframes, by omega, fun _ => by omega, (hiff hchunk hframes (by omega) fun _ => by omega).1 h⟩
    · obtain ⟨c, el, event, hread, -⟩ := hticks []
      obtain ⟨o₁, o₂, hcalls⟩ := exists_calls hcur hread
      obtain ⟨fuel₁, h₁⟩ := hcalls.first
      have h₂ := hcalls.second
      rw [hrc] at h₁ h₂
      obtain ⟨-, hpass⟩ := rcNull_ok p.chunk_lt (by omega) h₁
      rw [rateConvert_null hchunk hpass] at h₁
      cases h₁
      dsimp only at h₂
      rw [length_frameAt] at h₂
      have hrest : p.pass1 < p.curSize ∧ p.pass1 < p.el.minibufChunk → p.curSize - p.pass1 < 2 ^ 31 := by
        intro hmore
        rw [if_pos (by omega)] at h₂
        obtain ⟨fuel₂, h₂⟩ := h₂
        exact (rcNull_ok (by omega) (by omega) h₂).2
      exact ⟨hchunk, hframes, hpass, hrest, (hiff hchunk hframes hpass hrest).1 h⟩
  · rintro ⟨hchunk, hframes, hpass, hrest, hsame⟩
    exact (hiff hchunk hframes hpass hrest).2 hsame

/-! ### With rate conversion -/

/-- The tick is a conversion that goes as far as `avail` and makes `k` frames, but for those that lie across the end
of the port. -/
structure Goes (p : ImportPort K) (o : Converted) (avail k : Nat) : Prop where
  ticks : p.Ticks o
  stops : p.Stops avail k
  used : o.used = (p.conversion k avail).used
  currentSample : o.currentSample = (p.conversion k avail).currentSample
  bytes_length : o.bytes.length = k * p.bps
  bytes : (∀ i < k, (p.position i + 1) * p.bps ≤ p.c.currentSize ∧
    (p.bps ∣ p.toEnd ∨ (p.position i + 1) * p.bps ≤ p.toEnd)) → o.bytes = (p.conversion k avail).bytes

theorem exists_stops (p : ImportPort K) (avail : Nat) : ∃ k, p.Stops avail k := by
  obtain ⟨k, -, h⟩ := @exists_stopsAt p.el.currentSample p.el.nextSample p.bps p.el.minibufChunk avail (.inl p.chunk)
  exact ⟨k, h⟩

theorem rateConvert_frames {src : List UInt8} {avail : Nat} (hrc : p.rc = .frames) (h : p.Stops avail k) :
    rateConvert p.rc k p.bps p.el src p.el.minibufChunk avail =
      .ok (converted src p.bps p.el.currentSample p.el.nextSample k avail) := by
  rw [hrc]
  exact rcX_eq p.chunk_lt h (Nat.le_refl k)

/-- A frame in front of a whole number of them is in front of it whole. -/
theorem succ_mul_le {i n : Nat} (hd : p.bps ∣ n) (h : i * p.bps < n) : (i + 1) * p.bps ≤ n := by
  obtain ⟨m, rfl⟩ := hd
  rw [Nat.mul_comm p.bps m] at h ⊢
  exact Nat.mul_le_mul_right _ (Nat.lt_of_mul_lt_mul_right h)

/-- The first call, where it is the only one. -/
theorem calls_once (hrc : p.rc = .frames) (hcur : p.curSize ≠ 0) (hk : p.Stops p.pass1 k)
    (honce : ¬ (k * p.bps < min p.curSize p.el.minibufChunk ∧ p.pass1 < p.curSize)) :
    Calls p (converted (p.c.data.drop p.c.read) p.bps p.el.currentSample p.el.nextSample k p.pass1)
      ⟨[], 0, (p.conversion k p.pass1).currentSample⟩ := by
  refine ⟨hcur, ⟨k, rateConvert_frames hrc hk⟩, ?_⟩
  rw [if_neg]
  · rfl
  · rwa [converted, length_frames]

theorem goes_once (hrc : p.rc = .frames) (hcur : p.curSize ≠ 0) (hk : p.Stops p.pass1 k)
    (honce : ¬ (k * p.bps < min p.curSize p.el.minibufChunk ∧ p.pass1 < p.curSize)) :
    p.Goes (converted (p.c.data.drop p.c.read) p.bps p.el.currentSample p.el.nextSample k p.pass1) p.pass1 k where
  ticks := by
    have hticks := (calls_once hrc hcur hk honce).ticks
    rw [List.append_nil, Nat.add_zero] at hticks
    exact hticks
  stops := hk
  used := rfl
  currentSample := rfl
  bytes_length := length_frames ..
  bytes h := frames_congr fun i hi => by
    obtain ⟨hsize, hend⟩ := h i hi
    have hfront : (p.position i + 1) * p.bps ≤ p.toEnd := by
      rcases hend with hd | hend
      · exact succ_mul_le hd ((hk.before i hi).2.trans_le (Nat.min_le_left ..))
      · exact hend
    rw [Nat.succ_mul] at hsize hfront
    exact frameAt_front hfront hsize

/-- The first call of two. -/
structure First (p : ImportPort K) (k : Nat) : Prop where
  rc : p.rc = .frames
  curSize : p.curSize ≠ 0
  stops : p.Stops p.pass1 k
  room : k * p.bps < min p.curSize p.el.minibufChunk
  rest : p.pass1 < p.curSize

theorem First.pass1 (h : First p k) : p.pass1 = p.toEnd := by
  have hrest := h.rest
  unfold ImportPort.pass1 at hrest ⊢
  omega

theorem First.toEnd_le (h : First p k) : p.toEnd ≤ p.position k * p.bps := by
  have hroom := h.room
  have hstop := h.stops.stop
  rw [h.pass1] at hstop
  unfold position
  omega

/-- The phase after it. -/
def phase (p : ImportPort K) (k : Nat) : Nat := (p.conversion k p.toEnd).currentSample

/-- What is left is a whole number of frames too, so the second call comes to an end. -/
theorem exists_stopsAt_rest (p : ImportPort K) (k : Nat) :
    ∃ j, StopsAt p.bps (p.phase k) p.el.nextSample (p.el.minibufChunk - k * p.bps) (p.curSize - p.toEnd) j := by
  obtain ⟨j, -, hj⟩ := @Nas.exists_stopsAt (p.phase k) p.el.nextSample p.bps (p.el.minibufChunk - k * p.bps)
    (p.curSize - p.toEnd) (.inl (Nat.dvd_sub p.chunk (Nat.dvd_mul_left ..)))
  exact ⟨j, hj⟩

theorem First.calls {j : Nat} (h : First p k)
    (hj : StopsAt p.bps (p.phase k) p.el.nextSample (p.el.minibufChunk - k * p.bps) (p.curSize - p.toEnd) j) :
    Calls p (converted (p.c.data.drop p.c.read) p.bps p.el.currentSample p.el.nextSample k p.pass1)
      (converted p.c.data p.bps (p.phase k) p.el.nextSample j (p.curSize - p.toEnd)) := by
  have hchunk := p.chunk_lt
  refine ⟨h.curSize, ⟨k, rateConvert_frames h.rc h.stops⟩, ?_⟩
  have hlen : (converted (p.c.data.drop p.c.read) p.bps p.el.currentSample p.el.nextSample k p.pass1).bytes.length =
      k * p.bps := length_frames ..
  have hphase : (converted (p.c.data.drop p.c.read) p.bps p.el.currentSample p.el.nextSample k p.pass1).currentSample =
      p.phase k := by
    rw [h.pass1]
    rfl
  rw [hlen, hphase, if_pos ⟨h.room, h.rest⟩, h.pass1, h.rc]
  exact ⟨j, rcX_eq (by omega) hj (Nat.le_refl j)⟩

/-- The first call uses up what there is to the end of the port. -/
theorem First.used (h : First p k) (src : List UInt8) :
    (converted src p.bps p.el.currentSample p.el.nextSample k p.pass1).used = p.toEnd := by
  have hend := h.toEnd_le
  rw [h.pass1]
  exact Nat.min_eq_right hend

theorem First.ticks {j : Nat} (h : First p k)
    (hj : StopsAt p.bps (p.phase k) p.el.nextSample (p.el.minibufChunk - k * p.bps) (p.curSize - p.toEnd) j) :
    p.Ticks ⟨frames (p.c.data.drop p.c.read) p.bps p.el.currentSample p.el.nextSample k ++
        frames p.c.data p.bps (p.phase k) p.el.nextSample j,
      p.toEnd + (converted p.c.data p.bps (p.phase k) p.el.nextSample j (p.curSize - p.toEnd)).used,
      (converted p.c.data p.bps (p.phase k) p.el.nextSample j (p.curSize - p.toEnd)).currentSample⟩ := by
  have hticks := (h.calls hj).ticks
  rw [h.used] at hticks
  exact hticks

/-- Where no frame lies across the end of the port, the second call goes on where the first was. -/
theorem First.goes (h : First p k) (hd : p.bps ∣ p.toEnd) : ∃ o k', p.Goes o p.curSize k' := by
  obtain ⟨j, hj⟩ := p.exists_stopsAt_rest k
  obtain ⟨d, hd'⟩ := id hd
  rw [Nat.mul_comm] at hd'
  have hroom := h.room
  have hrest := h.rest
  have hstop := h.stops
  have hsum : d * p.bps + (p.curSize - p.toEnd) = p.curSize := by
    rw [h.pass1] at hrest
    omega
  have hint : Interrupted p.bps p.el.currentSample p.el.nextSample p.el.minibufChunk d k := by
    refine ⟨?_, by omega, p.bps_pos⟩
    rw [← hd', ← h.pass1]
    exact hstop
  have hphase : p.phase k = (converted (unread p.c) p.bps p.el.currentSample p.el.nextSample k (d * p.bps)).currentSample := by
    rw [← hd']
    rfl
  have hkept := @Interrupted.converted p.el.currentSample p.el.nextSample j k p.bps p.el.minibufChunk (unread p.c) d
    (p.curSize - p.toEnd) p.c.data hint
  rw [hsum, ← hphase] at hkept
  refine ⟨_, k + j, h.ticks hj, ?_, ?_, hkept.2.symm, ?_, fun hin => ?_⟩
  · have hboth := hint.stopsAt (unread p.c) (hphase ▸ hj)
    rw [hsum] at hboth
    exact hboth
  · rw [conversion, hkept.1, hd']
  · rw [List.length_append, length_frames, length_frames, Nat.add_mul]
  · have hfirst : frames (p.c.data.drop p.c.read) p.bps p.el.currentSample p.el.nextSample k =
        frames (unread p.c) p.bps p.el.currentSample p.el.nextSample k := by
      refine frames_congr fun i hi => ?_
      have hsize := (hin i (by omega)).1
      have hend : (p.position i + 1) * p.bps ≤ p.toEnd :=
        succ_mul_le hd ((hstop.before i hi).2.trans_le (Nat.min_le_left ..))
      rw [Nat.succ_mul] at hsize hend
      exact frameAt_front hend hsize
    have hboth := @Interrupted.frames p.el.currentSample p.el.nextSample j k p.bps p.el.minibufChunk (unread p.c) d
        p.c.data hint (fun i hi => by
      rw [← hphase, Nat.add_mul, ← hd']
      have hsize := (hin (k + i) (by omega)).1
      rw [position, (hint.phaseAt (unread p.c) i).1, ← hphase, Nat.succ_mul, Nat.add_mul, ← hd'] at hsize
      exact (frameAt_back hsize).symm)
    rw [← hphase] at hboth
    dsimp only [conversion, converted]
    rw [hfirst, hboth]

theorem Stops.unique {avail : Nat} (h : p.Stops avail k₁) (h' : p.Stops avail k₂) : k₁ = k₂ := StopsAt.unique h h'

theorem asOne_iff_conversion (hrc : p.rc = .frames) (h : p.Ticks o) (hle : o.used ≤ p.c.currentSize)
    (hk : p.Stops p.wholeFrames k) : p.AsOne ↔ o = p.conversion k p.wholeFrames := by
  refine asOne_iff_eq (rateConvert_frames hrc hk) h hle ?_ ?_
  · exact (Nat.min_le_right ..).trans p.wholeFrames_le
  · change p.bps ∣ min (p.position k * p.bps) p.wholeFrames
    rcases Nat.le_total (p.position k * p.bps) p.wholeFrames with h | h
    · rw [Nat.min_eq_left h]
      exact Nat.dvd_mul_left ..
    · rw [Nat.min_eq_right h]
      exact p.bps_dvd_wholeFrames

/-- A frame across the end of the port puts the second call out of step. -/
theorem First.not_asOne (h : First p k) (hd : ¬ p.bps ∣ p.toEnd) : ¬ p.AsOne := by
  have hpos := p.bps_pos
  have hcur := p.curSize_le
  have hrest := h.rest
  have hpass := h.pass1
  have hend := h.toEnd_le
  obtain ⟨j, hj⟩ := p.exists_stopsAt_rest k
  obtain ⟨k', hk'⟩ := p.exists_stops p.wholeFrames
  have hused : (converted p.c.data p.bps (p.phase k) p.el.nextSample j (p.curSize - p.toEnd)).used ≤ p.curSize - p.toEnd :=
    Nat.min_le_right ..
  rw [asOne_iff_conversion h.rc (h.ticks hj) (by dsimp only; omega) hk']
  intro heq
  -- the frames are as many
  have hlen := congrArg (List.length ∘ Converted.bytes) heq
  dsimp only [Function.comp_apply, conversion, converted] at hlen
  rw [List.length_append, length_frames, length_frames, length_frames, ← Nat.add_mul] at hlen
  obtain rfl : k + j = k' := Nat.eq_of_mul_eq_mul_right hpos hlen
  -- the skip is `skip` frames and a part of one, which is lost
  obtain ⟨skip, hskip⟩ : ∃ skip, skip = (p.position k * p.bps - p.toEnd) / p.bps := ⟨_, rfl⟩
  obtain ⟨part, hpart⟩ : ∃ part, part = (p.position k * p.bps - p.toEnd) % p.bps := ⟨_, rfl⟩
  have hdiv : skip * p.bps + part = p.position k * p.bps - p.toEnd := by
    rw [hskip, hpart]
    exact Nat.div_add_mod' ..
  have hne : part ≠ 0 := by
    rintro rfl
    refine hd ⟨p.position k - skip, ?_⟩
    rw [Nat.mul_comm, Nat.sub_mul]
    omega
  have hlt : part < p.bps := hpart ▸ Nat.mod_lt _ hpos
  have hle : skip ≤ p.position k := Nat.le_of_mul_le_mul_right (by omega) hpos
  have hphase : p.phase k = fraction p.el.currentSample p.el.nextSample k + skip * 2 ^ 16 := by
    rw [hskip]
    rfl
  have hstep := @phaseAt_add p.el.currentSample p.el.nextSample k (p.phase k) (p.position k - skip)
    (by have := fraction_lt p.el.currentSample p.el.nextSample k; change p.position k = _; omega)
    (by have := fraction_lt p.el.currentSample p.el.nextSample k; omega) j
  have hu := congrArg Converted.used heq
  have hc := congrArg Converted.currentSample heq
  dsimp only [conversion, converted] at hu hc
  rw [hstep.1] at hu hc
  rw [hstep.2] at hc
  -- in front of the last frame the second call is behind by what was lost
  set after := Nas.position (p.phase k) p.el.nextSample j with hafter
  have hmul : (p.position k - skip + after) * p.bps = p.toEnd + part + after * p.bps := by
    rw [Nat.add_mul, Nat.sub_mul]
    omega
  have hone : p.bps ∣ min ((p.position k - skip + after) * p.bps) p.wholeFrames := by
    rcases Nat.le_total ((p.position k - skip + after) * p.bps) p.wholeFrames with h | h
    · rw [Nat.min_eq_left h]
      exact Nat.dvd_mul_left ..
    · rw [Nat.min_eq_right h]
      exact p.bps_dvd_wholeFrames
  by_cases hclip : after * p.bps ≤ p.curSize - p.toEnd
  · rw [Nat.min_eq_left hclip] at hu
    rw [← hu] at hone
    have hpart_dvd : p.bps ∣ part := by
      have hsum : p.toEnd + after * p.bps + part = (p.position k - skip + after) * p.bps := by omega
      exact (Nat.dvd_add_right hone).1 (hsum ▸ Nat.dvd_mul_left ..)
    exact absurd (Nat.le_of_dvd (by omega) hpart_dvd) (by omega)
  · rw [Nat.min_eq_right (by omega)] at hu
    have hwhole : p.wholeFrames = p.curSize := by omega
    have hquot : (after * p.bps - (p.curSize - p.toEnd)) / p.bps < ((p.position k - skip + after) * p.bps - p.wholeFrames) / p.bps := by
      obtain ⟨m, hm⟩ : p.bps ∣ (p.position k - skip + after) * p.bps - p.wholeFrames :=
        Nat.dvd_sub (Nat.dvd_mul_left ..) p.bps_dvd_wholeFrames
      rw [hm, Nat.mul_div_cancel_left m hpos, Nat.div_lt_iff_lt_mul hpos, Nat.mul_comm m, ← hm]
      omega
    omega

/-- A tick that is one conversion gets to the end of the whole frames, or fills the chunk. -/
theorem Goes.reaches {avail : Nat} (h : p.Goes o avail k) (hrc : p.rc = .frames) (hle : avail ≤ p.c.currentSize)
    (hone : p.AsOne) : avail = p.wholeFrames ∨ (p.position p.chunkFrames * p.bps ≤ min avail p.wholeFrames ∧
      p.position (p.chunkFrames - 1) * p.bps < min avail p.wholeFrames) := by
  have hpos := p.bps_pos
  have hfull := p.chunkFrames_mul
  have hpos' := p.chunkFrames_pos
  have hused_le : o.used ≤ avail := h.used ▸ Nat.min_le_right ..
  obtain ⟨k', hk'⟩ := p.exists_stops p.wholeFrames
  rw [asOne_iff_conversion hrc h.ticks (hused_le.trans hle) hk'] at hone
  have hlen := h.bytes_length
  rw [hone, conversion, converted, length_frames] at hlen
  obtain rfl : k' = k := Nat.eq_of_mul_eq_mul_right hpos hlen
  have hused := h.used
  rw [hone] at hused
  change min (p.position k' * p.bps) p.wholeFrames = min (p.position k' * p.bps) avail at hused
  by_cases heq : avail = p.wholeFrames
  · exact .inl heq
  · right
    have hstop := h.stops.stop
    have hstop' := hk'.stop
    change k' * p.bps = _ ∨ _ ≤ p.position k' * p.bps at hstop hstop'
    have hroom : k' * p.bps = p.el.minibufChunk := by omega
    obtain rfl : k' = p.chunkFrames := Nat.eq_of_mul_eq_mul_right hpos (hroom.trans hfull.symm)
    have hbefore := (h.stops.before (p.chunkFrames - 1) (by omega)).2
    have hbefore' := (hk'.before (p.chunkFrames - 1) (by omega)).2
    change p.position _ * p.bps < _ at hbefore hbefore'
    omega

/-- It stops with the last frame of a chunk where that is in front of the end. -/
theorem stops_chunk {avail : Nat} (h : p.position (p.chunkFrames - 1) * p.bps < avail) : p.Stops avail p.chunkFrames where
  before i hi := by
    have hmono : p.position i * p.bps ≤ p.position (p.chunkFrames - 1) * p.bps :=
      Nat.mul_le_mul_right _ (position_mono (by omega))
    have hroom : (i + 1) * p.bps ≤ p.chunkFrames * p.bps := Nat.mul_le_mul_right _ hi
    have hpos := p.bps_pos
    rw [Nat.succ_mul, chunkFrames_mul] at hroom
    exact ⟨by omega, by change p.position i * p.bps < avail; omega⟩
  room := p.chunkFrames_mul.le
  stop := .inl p.chunkFrames_mul

theorem Goes.asOne {avail : Nat} (h : p.Goes o avail k) (hrc : p.rc = .frames) (hle : avail ≤ p.c.currentSize)
    (hend : avail = p.wholeFrames ∧ avail ≤ p.toEnd ∨ avail = p.wholeFrames ∧ p.bps ∣ p.toEnd ∨
      (p.position p.chunkFrames * p.bps ≤ min avail p.wholeFrames ∧
        p.position (p.chunkFrames - 1) * p.bps < min avail p.wholeFrames ∧
        (p.bps ∣ p.toEnd ∨ (p.position (p.chunkFrames - 1) + 1) * p.bps ≤ p.toEnd))) : p.AsOne := by
  have hwhole := p.wholeFrames_le
  have hused_le : o.used ≤ avail := h.used ▸ Nat.min_le_right ..
  obtain ⟨k', hk'⟩ := p.exists_stops p.wholeFrames
  rw [asOne_iff_conversion hrc h.ticks (hused_le.trans hle) hk']
  obtain ⟨hsame, hin⟩ : k' = k ∧ (min (p.position k * p.bps) avail = min (p.position k * p.bps) p.wholeFrames ∧
      p.position k * p.bps - avail = p.position k * p.bps - p.wholeFrames) ∧
      ∀ i < k, p.bps ∣ p.toEnd ∨ (p.position i + 1) * p.bps ≤ p.toEnd := by
    rcases hend with ⟨rfl, hend⟩ | ⟨rfl, hd⟩ | ⟨hfull, hlast, hacross⟩
    · exact ⟨hk'.unique h.stops, ⟨rfl, rfl⟩, fun i hi =>
        .inr ((succ_mul_le p.bps_dvd_wholeFrames (h.stops.before i hi).2).trans hend)⟩
    · exact ⟨hk'.unique h.stops, ⟨rfl, rfl⟩, fun _ _ => .inl hd⟩
    · obtain rfl := h.stops.unique (stops_chunk (by omega))
      refine ⟨hk'.unique (stops_chunk (by omega)), ⟨by omega, by omega⟩, fun i hi => ?_⟩
      rcases hacross with hd | hacross
      · exact .inl hd
      · have hmono : p.position i ≤ p.position (p.chunkFrames - 1) := position_mono (by omega)
        exact .inr ((Nat.mul_le_mul_right _ (by omega)).trans hacross)
  subst hsame
  obtain ⟨⟨hused, hleft⟩, hin⟩ := hin
  have hbytes := h.bytes fun i hi =>
    ⟨(succ_mul_le p.bps_dvd_wholeFrames (hk'.before i hi).2).trans hwhole, hin i hi⟩
  have hu := h.used
  have hc := h.currentSample
  rcases o with ⟨bytes, used, currentSample⟩
  change bytes = (p.conversion k' p.wholeFrames).bytes at hbytes
  change used = min (p.position k' * p.bps) avail at hu
  change currentSample = fraction p.el.currentSample p.el.nextSample k' + (p.position k' * p.bps - avail) / p.bps * 2 ^ 16 at hc
  rw [hbytes, hu, hc, hused, hleft]
  rfl

/-! ### How far the calls get -/

theorem room_iff (hk : p.Stops p.pass1 k) (hrest : p.pass1 < p.curSize) :
    k * p.bps < min p.curSize p.el.minibufChunk ↔ ¬ p.position (p.enough - 1) * p.bps < p.pass1 := by
  have hpos := p.bps_pos
  have hchunk := p.chunk_pos
  have hdiv : p.enough * p.bps + (min p.curSize p.el.minibufChunk + p.bps - 1) % p.bps =
      min p.curSize p.el.minibufChunk + p.bps - 1 := Nat.div_add_mod' ..
  have hmod := Nat.mod_lt (min p.curSize p.el.minibufChunk + p.bps - 1) hpos
  have henough : 0 < p.enough := by
    by_contra hzero
    rw [Nat.eq_zero_of_not_pos hzero, Nat.zero_mul] at hdiv
    omega
  have hpred : (p.enough - 1) * p.bps + p.bps = p.enough * p.bps := by
    rw [← Nat.succ_mul]
    congr 1
    omega
  constructor
  · intro hroom hlast
    have hlt : k < p.enough := Nat.lt_of_mul_lt_mul_right (by omega : k * p.bps < p.enough * p.bps)
    have hmono : p.position k * p.bps ≤ p.position (p.enough - 1) * p.bps :=
      Nat.mul_le_mul_right _ (position_mono (by omega))
    have hstop := hk.stop
    change _ ∨ _ ≤ p.position k * p.bps at hstop
    omega
  · intro hlast
    by_contra hroom
    have hle : p.enough ≤ k := by
      by_contra hlt
      have : k * p.bps ≤ (p.enough - 1) * p.bps := Nat.mul_le_mul_right _ (by omega)
      omega
    exact hlast (hk.before (p.enough - 1) (by omega)).2

theorem reach_once (hk : p.Stops p.pass1 k)
    (honce : ¬ (k * p.bps < min p.curSize p.el.minibufChunk ∧ p.pass1 < p.curSize)) : p.reach = p.pass1 := by
  have hle := p.pass1_le
  unfold reach
  split
  · rfl
  · rename_i hreach
    by_cases hrest : p.pass1 < p.curSize
    · refine absurd ⟨(room_iff hk hrest).2 fun hlast => ?_, hrest⟩ honce
      exact hreach ⟨hrest, .inr hlast⟩
    · omega

theorem First.reach (h : First p k) : p.reach = if p.bps ∣ p.toEnd then p.curSize else p.toEnd := by
  have hlast := (room_iff h.stops h.rest).1 h.room
  have hrest := h.rest
  unfold ImportPort.reach
  by_cases hd : p.bps ∣ p.toEnd
  · rw [if_pos hd, if_neg]
    rintro ⟨-, hnot | hlt⟩
    · exact hnot hd
    · exact hlast hlt
  · rw [if_neg hd, if_pos ⟨hrest, .inl hd⟩, h.pass1]

/-- With a frame across the end of the port, the second call is not for a port that is `Whole`. -/
theorem First.not_whole (h : First p k) (hd : ¬ p.bps ∣ p.toEnd) : ¬ p.Whole := by
  have hreach := h.reach
  have hend := h.toEnd_le
  have hroom := h.room
  have hfull := p.chunkFrames_mul
  rw [if_neg hd] at hreach
  unfold Whole
  rw [h.rc, hreach]
  rintro (heq | ⟨hle, -⟩)
  · exact hd (heq ▸ p.bps_dvd_wholeFrames)
  · have hlt : k < p.chunkFrames := Nat.lt_of_mul_lt_mul_right (by omega : k * p.bps < p.chunkFrames * p.bps)
    have hmono : p.position k * p.bps ≤ p.position p.chunkFrames * p.bps :=
      Nat.mul_le_mul_right _ (position_mono (Nat.le_of_lt hlt))
    have heq : p.position p.chunkFrames * p.bps = p.toEnd := by omega
    exact hd (heq ▸ Nat.dvd_mul_left ..)

theorem asOne_of_curSize_eq_zero (hrc : p.rc = .frames) (hcur : p.curSize = 0) : p.AsOne := by
  have hzero : p.Stops p.wholeFrames 0 := by
    rw [p.wholeFrames_eq_zero hcur]
    exact ⟨fun i hi => absurd hi (Nat.not_lt_zero i), by omega, .inr (Nat.zero_le _)⟩
  rw [asOne_iff_conversion hrc (ticks_zero hcur) (Nat.zero_le _) hzero, p.wholeFrames_eq_zero hcur]
  have hphase : p.el.currentSample % 2 ^ 16 + (p.el.currentSample / 2 ^ 16 * p.bps - 0) / p.bps * 2 ^ 16 =
      p.el.currentSample := by
    rw [Nat.sub_zero, Nat.mul_div_cancel _ p.bps_pos]
    omega
  have hused : min (p.position 0 * p.bps) 0 = 0 := Nat.min_zero _
  unfold conversion converted
  rw [fraction_zero, position_zero, hphase]
  congr 1
  exact hused.symm

theorem asOne_of_whole (hrc : p.rc = .frames) (h : p.Whole) : p.AsOne := by
  have hle := p.curSize_le
  have hpass_le := p.pass1_le
  by_cases hcur : p.curSize = 0
  · exact asOne_of_curSize_eq_zero hrc hcur
  obtain ⟨k, hk⟩ := p.exists_stops p.pass1
  by_cases hmore : k * p.bps < min p.curSize p.el.minibufChunk ∧ p.pass1 < p.curSize
  · have hfirst : First p k := ⟨hrc, hcur, hk, hmore.1, hmore.2⟩
    by_cases hd : p.bps ∣ p.toEnd
    · obtain ⟨o, k', hgoes⟩ := hfirst.goes hd
      unfold Whole at h
      rw [hrc, hfirst.reach, if_pos hd] at h
      refine hgoes.asOne hrc hle (.inr ?_)
      rcases h with heq | hfull
      · exact .inl ⟨heq, hd⟩
      · exact .inr hfull
    · exact absurd h (hfirst.not_whole hd)
  · unfold Whole at h
    rw [hrc, reach_once hk hmore] at h
    refine (goes_once hrc hcur hk hmore).asOne hrc (hpass_le.trans hle) ?_
    rcases h with heq | hfull
    · exact .inl ⟨heq, Nat.min_le_left ..⟩
    · exact .inr (.inr hfull)

theorem frames_inj {src src' : List UInt8} {bps c n : Nat} (h : frames src bps c n k = frames src' bps c n k) {i : Nat}
    (hi : i < k) : frameAt src (Nas.position c n i * bps) bps = frameAt src' (Nas.position c n i * bps) bps := by
  induction k with
  | zero => omega
  | succ k ih =>
    rw [frames_succ, frames_succ] at h
    obtain ⟨hfront, hlast⟩ := List.append_inj h (by rw [length_frames, length_frames])
    rcases Nat.lt_succ_iff_lt_or_eq.1 hi with hi | rfl
    · exact ih hfront hi
    · exact hlast

theorem getD_frameAt {src : List UInt8} {x bps i : Nat} (hi : i < bps) : (frameAt src x bps).getD i 0 = src.getD (x + i) 0 := by
  rw [List.getD_eq_getElem?_getD, frameAt, List.getElem?_map, List.getElem?_range hi]
  rfl

/-- Behind the end of the port there are other bytes than those that come next. -/
theorem not_across (hrc : p.rc = .frames) (hcur : p.curSize ≠ 0) (hdata : p.c.data = List.replicate p.c.dataSize 1)
    (hk : p.Stops p.pass1 p.chunkFrames) (hwhole : p.Stops p.wholeFrames p.chunkFrames)
    (honce : ¬ (p.chunkFrames * p.bps < min p.curSize p.el.minibufChunk ∧ p.pass1 < p.curSize)) (hone : p.AsOne) :
    (p.position (p.chunkFrames - 1) + 1) * p.bps ≤ p.toEnd := by
  have hpos := p.bps_pos
  have hpos' := p.chunkFrames_pos
  have hle := p.wholeFrames_le
  have hsize := p.currentSize_le
  have hlast := hwhole.before (p.chunkFrames - 1) (by omega)
  have hin : (p.position (p.chunkFrames - 1) + 1) * p.bps ≤ p.wholeFrames := succ_mul_le p.bps_dvd_wholeFrames hlast.2
  have hgoes := goes_once hrc hcur hk honce
  have hused : min (p.position p.chunkFrames * p.bps) p.pass1 ≤ p.c.currentSize :=
    (Nat.min_le_right ..).trans (p.pass1_le.trans p.curSize_le)
  rw [asOne_iff_conversion hrc hgoes.ticks hused hwhole] at hone
  have hbytes : frames (p.c.data.drop p.c.read) p.bps p.el.currentSample p.el.nextSample p.chunkFrames =
      frames (unread p.c) p.bps p.el.currentSample p.el.nextSample p.chunkFrames := congrArg Converted.bytes hone
  have hframe := congrArg (List.getD · (p.bps - 1) 0) (frames_inj hbytes (by omega : p.chunkFrames - 1 < p.chunkFrames))
  rw [getD_frameAt (by omega), getD_frameAt (by omega)] at hframe
  change (p.c.data.drop p.c.read).getD (p.position (p.chunkFrames - 1) * p.bps + (p.bps - 1)) 0 =
    (unread p.c).getD (p.position (p.chunkFrames - 1) * p.bps + (p.bps - 1)) 0 at hframe
  rw [Nat.succ_mul] at hin ⊢
  by_contra hacross
  have hfront : (p.c.data.drop p.c.read).getD (p.position (p.chunkFrames - 1) * p.bps + (p.bps - 1)) 0 = 0 := by
    have hlen := p.inv.data_length
    unfold toEnd at hacross
    rw [List.getD_eq_getElem?_getD, List.getElem?_eq_none (by rw [List.length_drop]; omega)]
    rfl
  have hback : (unread p.c).getD (p.position (p.chunkFrames - 1) * p.bps + (p.bps - 1)) 0 = 1 := by
    rw [getD_unread (by omega), hdata, List.getD_eq_getElem?_getD,
      List.getElem?_replicate_of_lt (Nat.mod_lt _ (by omega))]
    rfl
  rw [hfront, hback] at hframe
  exact absurd hframe (by decide)

theorem whole_of_asOne (hrc : p.rc = .frames) (hdata : p.c.data = List.replicate p.c.dataSize 1) (hone : p.AsOne) :
    p.Whole := by
  have hle := p.curSize_le
  have hpass_le := p.pass1_le
  by_cases hcur : p.curSize = 0
  · unfold Whole
    rw [hrc, p.wholeFrames_eq_zero hcur]
    left
    unfold reach
    rw [if_neg (by omega), hcur]
  obtain ⟨k, hk⟩ := p.exists_stops p.pass1
  by_cases hmore : k * p.bps < min p.curSize p.el.minibufChunk ∧ p.pass1 < p.curSize
  · have hfirst : First p k := ⟨hrc, hcur, hk, hmore.1, hmore.2⟩
    by_cases hd : p.bps ∣ p.toEnd
    · obtain ⟨o, k', hgoes⟩ := hfirst.goes hd
      unfold Whole
      rw [hrc, hfirst.reach, if_pos hd]
      rcases hgoes.reaches hrc hle hone with heq | ⟨hfull, hlast⟩
      · exact .inl heq
      · exact .inr ⟨hfull, hlast, .inl hd⟩
    · exact absurd hone (hfirst.not_asOne hd)
  · unfold Whole
    rw [hrc, reach_once hk hmore]
    rcases (goes_once hrc hcur hk hmore).reaches hrc (hpass_le.trans hle) hone with heq | ⟨hfull, hlast⟩
    · exact .inl heq
    · obtain rfl := hk.unique (stops_chunk (by omega))
      exact .inr ⟨hfull, hlast, .inr (not_across hrc hcur hdata hk (stops_chunk (by omega)) hmore hone)⟩

end

/-- A tick is one conversion of the whole frames that wait, whatever the port holds, for the ports that are `Whole`
and no others. -/
theorem asOne_iff (p : ImportPort K) :
    (∀ data (h : data.length = p.c.dataSize), (p.holding data h).AsOne) ↔ p.Whole := by
  rcases hrc : p.rc with - | -
  · constructor
    · intro h
      exact (@asOne_null K p hrc).1 (h p.c.data p.inv.data_length)
    · intro h data hdata
      exact (@asOne_null K (p.holding data hdata) hrc).2 h
  · constructor
    · intro h
      exact @whole_of_asOne K (p.holding (List.replicate p.c.dataSize 1) (List.length_replicate ..)) hrc rfl (h _ _)
    · intro h data hdata
      exact @asOne_of_whole K (p.holding data hdata) hrc h

/-- A port of four bytes with three that wait, the last of them at its beginning. Two frames are made of each. -/
def threeWaiting : ImportPort AuFixedPoint where
  c :=
    { numSamples := 4, format := 1, numTracks := 1, discard := false, dataSize := 4, minibufSize := 16
      lowWaterMark := 0, highWaterMark := 0, data := List.replicate 4 1, bytesPerSample := 1
      read := 2, write := 1, currentSize := 3 }
  el :=
    { client := 0
      raw := .importClient
        { sampleRate := 4000, format := 1, numTracks := 1, discard := false, maxSamples := 4, lowWaterMark := 0,
          actions := [] }
      elementNum := 0, isComponent := true, nextSample := 2 ^ 15, minibufChunk := 8 }
  rc := .frames
  inv := ⟨⟨by decide, fun _ => by decide, fun _ => by decide⟩, rfl, by decide, by decide⟩
  chunk := by decide
  chunk_pos := by decide
  chunk_lt := by decide

/-- The four frames made of the two bytes in front are taken for more than the three bytes there are. -/
theorem threeWaiting_not_asOne : ¬ ∀ p : ImportPort AuFixedPoint, p.AsOne := by
  intro h
  have hwhole : threeWaiting.Whole := whole_of_asOne rfl rfl (h threeWaiting)
  revert hwhole
  decide

end ImportPort

end Nas
