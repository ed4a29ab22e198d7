import Nas.ReadClient
import Nas.Credit

/-!
# What an import plays

`readInput` sets the samples of an import to a full chunk in front of the tick, and `readClient` corrects them when it
has used up what waits. It leaves them as they are when the mask clears what waits, and when it takes the frames made of
the bytes in front of the end of the port for enough.

`readInput_fresh_iff` says for which states of a run a tick has no more samples than it has made, and none when less
than a frame waits.
-/

namespace Nas
variable {K : Type}

namespace Importing

/-- What is done about the event of a tick. -/
def settle (mem : Bool) (s : Importing K) : PortEvent → Importing K
  | .none => s
  | .change newState _ => s.changeElementState newState
  | .watermark => if mem then s.fillInEvent else s

/-- `readInput` for an import, less the conversion to the native format, and what is done about its event, which is
returned too. -/
def readInput (auMinibufSamples fuel : Nat) (rc : RateConvert) (mem : Bool) (s : Importing K) :
    Exec (Importing K × PortEvent) := do
  let (c, el, event) ← readClient fuel rc s.c { s.el with minibufSamples := auMinibufSamples }
  .ok ({ s with c, el }.settle mem event, event)

/-- With an empty minibuffer: what is in it afterwards was made in the tick. -/
def emptied (s : Importing K) : Importing K := { s with el := { s.el with minibuf := [] } }

/-- The tick comes to an end. With less than a frame in the port the element leaves the started state and has no
samples; and it never has more samples than the tick has made. -/
def Fresh (auMinibufSamples : Nat) (rc : RateConvert) (s : Importing K) : Prop :=
  ∃ fuel, ∀ mem, ∃ s' event, s.emptied.readInput auMinibufSamples fuel rc mem = .ok (s', event) ∧
    (s.c.currentSize < s.c.bytesPerSample → s'.el.minibufSamples = 0 ∧
      if s.c.eof then event = .change auStateStop auReasonEOF ∧ s'.el.state = auStateStop
      else event = .change auStatePause auReasonUnderrun ∧ s'.el.state = auStatePause) ∧
    s'.el.minibufSamples * s.c.bytesPerSample ≤ s'.el.minibuf.length

end Importing

namespace ImportPort

/-- The mask leaves something of what waits. The second call is not left out for frames made of the bytes in front of
the end of the port while the chunk is not full; and when less than a frame waits, a skip of as many frames as there
are calls is pending. Without rate conversion the counts are no negative numbers. -/
def Live (p : ImportPort K) : Prop :=
  p.curSize ≠ 0 ∧
    match p.rc with
    | .null => p.el.minibufChunk < 2 ^ 31 ∧ p.pass1 < 2 ^ 31 ∧
        (p.pass1 < p.curSize ∧ p.pass1 < p.el.minibufChunk → p.curSize - p.pass1 < 2 ^ 31)
    | .frames =>
        ¬ (p.pass1 < p.curSize ∧ p.position (p.enough - 1) * p.bps < p.pass1 ∧
          p.pass1 ≤ p.position (p.chunkFrames - 1) * p.bps) ∧
        (p.c.currentSize < p.bps → (if p.pass1 < p.curSize then 2 else 1) ≤ p.position 0)

instance (p : ImportPort K) : Decidable p.Live :=
  @instDecidableAnd _ _ _ (match p.rc with
    | .null => inferInstance
    | .frames => inferInstance)

/-- `Fresh`, of the port alone. -/
def Plays (p : ImportPort K) : Prop :=
  ∃ fuel c el event, p.readClient fuel [] = .ok (c, el, event) ∧
    (p.c.currentSize < p.bps → el.minibufSamples = 0 ∧ event = p.event 0) ∧
    el.minibufSamples * p.bps ≤ el.minibuf.length

section
variable {p : ImportPort K} {o₁ o₂ : Converted} {k : Nat}

/-! ### What the calls make of the samples -/

theorem event_eq_zero (left : Nat) : p.event left = p.event 0 ↔ left = 0 := by
  constructor
  · intro h
    by_contra hleft
    unfold event at h
    rw [if_neg hleft, if_pos rfl] at h
    split at h <;> split at h <;> cases h
  · rintro rfl
    rfl

/-- Either everything is used up, or the chunk is full; and less than a frame is used up without a frame made. -/
theorem Calls.plays_iff (h : Calls p o₁ o₂) (hpreset : p.el.minibufSamples = p.chunkFrames) : p.Plays ↔
    (o₁.used + o₂.used = p.curSize ∨ p.el.minibufChunk ≤ o₁.bytes.length + o₂.bytes.length) ∧
      (p.c.currentSize < p.bps → o₁.used + o₂.used = p.curSize ∧ o₁.bytes.length + o₂.bytes.length < p.bps) := by
  have hpos := p.bps_pos
  have hused := h.used
  have hfull := p.chunkFrames_mul
  obtain ⟨fuel, c, -, hresult⟩ := h.readClient
  have hplays : p.Plays ↔ (p.c.currentSize < p.bps →
      (p.after (o₁.bytes ++ o₂.bytes) o₂.currentSample (p.curSize - (o₁.used + o₂.used)) []).minibufSamples = 0 ∧
        p.event (p.curSize - (o₁.used + o₂.used)) = p.event 0) ∧
      (p.after (o₁.bytes ++ o₂.bytes) o₂.currentSample (p.curSize - (o₁.used + o₂.used)) []).minibufSamples * p.bps ≤
        o₁.bytes.length + o₂.bytes.length := by
    have hlen : (p.after (o₁.bytes ++ o₂.bytes) o₂.currentSample (p.curSize - (o₁.used + o₂.used)) []).minibuf.length =
        o₁.bytes.length + o₂.bytes.length := by
      unfold after
      rw [List.drop_nil, List.append_nil, List.length_append]
    constructor
    · rintro ⟨fuel', c', el, event, hread, hsmall, hle⟩
      have hsame := (readClient_fuel (Nat.le_max_left fuel fuel') (hresult [])).symm.trans
        (readClient_fuel (Nat.le_max_right fuel fuel') hread)
      cases hsame
      exact ⟨hsmall, hlen ▸ hle⟩
    · rintro ⟨hsmall, hle⟩
      exact ⟨fuel, c, _, _, hresult [], hsmall, hlen ▸ hle⟩
  rw [hplays, event_eq_zero]
  unfold after
  dsimp only
  rw [hpreset, List.length_append]
  by_cases hleft : p.curSize - (o₁.used + o₂.used) = 0
  · rw [if_pos hleft, Nat.div_eq_zero_iff]
    have hdiv := Nat.div_mul_le_self (o₁.bytes.length + o₂.bytes.length) p.bps
    omega
  · rw [if_neg hleft, hfull]
    omega

theorem not_plays_of_curSize (hcur : p.curSize = 0) (hpreset : p.el.minibufSamples = p.chunkFrames) : ¬ p.Plays := by
  rintro ⟨fuel, c, el, event, hread, -, hle⟩
  unfold readClient Nas.readClient at hread
  replace hread := (if_pos hcur).symm.trans hread
  cases hread
  dsimp only at hle
  rw [hpreset, chunkFrames_mul] at hle
  have := p.chunk_pos
  rw [List.length_nil] at hle
  omega

theorem exists_calls_of_plays (hcur : p.curSize ≠ 0) (h : p.Plays) : ∃ o₁ o₂, Calls p o₁ o₂ := by
  obtain ⟨fuel, c, el, event, hread, -⟩ := h
  exact exists_calls hcur hread

/-! ### The condition -/

theorem pass1_pos (hcur : p.curSize ≠ 0) : 0 < p.pass1 := by
  have hle := p.curSize_le
  have hsize := p.currentSize_le
  have hread := p.inv.ring.read_lt
  unfold pass1 toEnd
  omega

theorem plays_null (hrc : p.rc = .null) (hpreset : p.el.minibufSamples = p.chunkFrames) : p.Plays ↔ p.Live := by
  by_cases hcur : p.curSize = 0
  · exact iff_of_false (not_plays_of_curSize hcur hpreset) fun h => h.1 hcur
  have hle := p.curSize_le
  have hsize := p.currentSize_le
  have hlt := p.inv.dataSize_lt
  have hpass := p.pass1_le
  have hchunk := p.chunk_lt
  have hframe : p.bps ≤ p.el.minibufChunk := Nat.le_of_dvd p.chunk_pos p.chunk
  unfold Live
  rw [hrc]
  dsimp only
  -- a call stores as many bytes as it uses up
  have hcount {fuel want avail : Nat} {el : FlowElement K} {src : List UInt8} {o : Converted} (hw : want < 2 ^ 32)
      (ha : avail < 2 ^ 32) (h : rateConvert .null fuel p.bps el src want avail = .ok o) :
      want < 2 ^ 31 ∧ avail < 2 ^ 31 ∧ o.bytes.length = min want avail ∧ o.used = min want avail := by
    obtain ⟨hw, ha⟩ := rcNull_ok hw ha h
    rw [rateConvert_null hw ha] at h
    cases h
    exact ⟨hw, ha, length_frameAt .., rfl⟩
  constructor
  · intro h
    obtain ⟨o₁, o₂, hcalls⟩ := exists_calls_of_plays hcur h
    obtain ⟨fuel, h₁⟩ := hcalls.first
    have h₂ := hcalls.second
    rw [hrc] at h₁ h₂
    obtain ⟨hw, ha, hbytes, -⟩ := hcount hchunk (by omega) h₁
    refine ⟨hcur, hw, ha, fun hmore => ?_⟩
    rw [if_pos (by omega)] at h₂
    obtain ⟨fuel', h₂⟩ := h₂
    exact (hcount (by omega) (by omega) h₂).2.1
  · rintro ⟨-, hw, ha, hrest⟩
    obtain ⟨fuel, hticks⟩ := calls_null hrc hcur hw ha hrest
    obtain ⟨c, el, event, hread, -⟩ := hticks []
    obtain ⟨o₁, o₂, hcalls⟩ := exists_calls hcur hread
    rw [hcalls.plays_iff hpreset]
    obtain ⟨fuel₁, h₁⟩ := hcalls.first
    have h₂ := hcalls.second
    rw [hrc] at h₁ h₂
    obtain ⟨-, -, hbytes₁, hused₁⟩ := hcount hchunk (by omega) h₁
    split at h₂
    · obtain ⟨fuel₂, h₂⟩ := h₂
      obtain ⟨-, -, hbytes₂, hused₂⟩ := hcount (by omega) (by omega) h₂
      omega
    · subst h₂
      dsimp only
      rw [List.length_nil]
      omega

theorem plays_once (hrc : p.rc = .frames) (hcur : p.curSize ≠ 0) (hk : p.Stops p.pass1 k)
    (honce : ¬ (k * p.bps < min p.curSize p.el.minibufChunk ∧ p.pass1 < p.curSize))
    (hpreset : p.el.minibufSamples = p.chunkFrames) : p.Plays ↔ p.Live := by
  have hpos := p.bps_pos
  have hpass := p.pass1_le
  have hpass_pos := pass1_pos hcur
  have hle := p.curSize_le
  have hfull := p.chunkFrames_mul
  have hframes := p.chunkFrames_pos
  have hframe : p.bps ≤ p.el.minibufChunk := Nat.le_of_dvd p.chunk_pos p.chunk
  have hstop := hk.stop
  have hroom := hk.room
  change _ ∨ _ ≤ p.position k * p.bps at hstop
  have hused : (converted (p.c.data.drop p.c.read) p.bps p.el.currentSample p.el.nextSample k p.pass1).used =
      min (p.position k * p.bps) p.pass1 := rfl
  have hlen : (converted (p.c.data.drop p.c.read) p.bps p.el.currentSample p.el.nextSample k p.pass1).bytes.length =
      k * p.bps := length_frames ..
  rw [(calls_once hrc hcur hk honce).plays_iff hpreset, hused, hlen, List.length_nil]
  unfold Live
  rw [hrc]
  dsimp only
  -- the chunk is full when its last frame is made
  have hlast : k * p.bps = p.el.minibufChunk ↔ p.position (p.chunkFrames - 1) * p.bps < p.pass1 := by
    constructor
    · intro h
      obtain rfl : k = p.chunkFrames := Nat.eq_of_mul_eq_mul_right hpos (h.trans hfull.symm)
      exact (hk.before (p.chunkFrames - 1) (by omega)).2
    · intro h
      rw [hk.unique (stops_chunk h), hfull]
  -- nothing is made when a skip is pending
  have hnone : k * p.bps < p.bps ↔ p.pass1 ≤ p.position 0 * p.bps := by
    constructor
    · intro h
      obtain rfl : k = 0 := by
        by_contra hk0
        have := Nat.mul_le_mul_right p.bps (Nat.one_le_iff_ne_zero.2 hk0)
        omega
      omega
    · intro h
      obtain rfl : k = 0 := by
        by_contra hk0
        have hbefore := (hk.before 0 (Nat.pos_of_ne_zero hk0)).2
        exact absurd hbefore (Nat.not_lt.2 h)
      omega
  by_cases hrest : p.pass1 < p.curSize
  · have henough := not_imp_comm.1 (room_iff hk hrest).2 fun h => honce ⟨h, hrest⟩
    by_cases hsmall : p.c.currentSize < p.bps
    · have hone : p.enough = 1 := by
        unfold enough
        rw [Nat.min_eq_left (by omega)]
        exact Nat.div_eq_of_lt_le (by omega) (by rw [Nat.succ_mul]; omega)
      rw [hone] at henough
      change p.position 0 * p.bps < p.pass1 at henough
      have hnot : ¬ 2 ≤ p.position 0 := by
        intro htwo
        have := Nat.mul_le_mul_right p.bps htwo
        omega
      refine iff_of_false (fun h => ?_) fun h => hnot (by simpa only [if_pos hrest] using h.2.2 hsmall)
      have := hnone.1 (h.2 hsmall).2
      omega
    · rw [if_pos hrest]
      omega
  · have hskip : p.c.currentSize < p.bps → (p.pass1 ≤ p.position 0 * p.bps ↔ 1 ≤ p.position 0) := by
      intro hsmall
      constructor
      · intro h
        by_contra hzero
        rw [Nat.eq_zero_of_not_pos hzero] at h
        omega
      · intro h
        have := Nat.mul_le_mul_right p.bps h
        omega
    rw [if_neg hrest]
    omega

theorem First.plays_iff (h : First p k) (hpreset : p.el.minibufSamples = p.chunkFrames) : p.Plays ↔ p.Live := by
  have hpos := p.bps_pos
  have hpass := h.pass1
  have hpass_pos := pass1_pos h.curSize
  have hrest := h.rest
  have hroom := h.room
  have hle := p.curSize_le
  have hend := h.toEnd_le
  obtain ⟨j, hj⟩ := p.exists_stopsAt_rest k
  have hstop := hj.stop
  have hlen : (converted (p.c.data.drop p.c.read) p.bps p.el.currentSample p.el.nextSample k p.pass1).bytes.length =
      k * p.bps := length_frames ..
  have hlen' : (converted p.c.data p.bps (p.phase k) p.el.nextSample j (p.curSize - p.toEnd)).bytes.length = j * p.bps :=
    length_frames ..
  have hused : (converted p.c.data p.bps (p.phase k) p.el.nextSample j (p.curSize - p.toEnd)).used =
      min (Nas.position (p.phase k) p.el.nextSample j * p.bps) (p.curSize - p.toEnd) := rfl
  rw [(h.calls hj).plays_iff hpreset, h.used, hused, hlen, hlen']
  unfold Live
  rw [h.rc]
  dsimp only
  rw [if_pos hrest]
  have hlast := (room_iff h.stops hrest).1 hroom
  -- with less than a frame nothing is made in front of the end of the port
  have hskip : p.c.currentSize < p.bps →
      (p.toEnd + min (Nas.position (p.phase k) p.el.nextSample j * p.bps) (p.curSize - p.toEnd) = p.curSize ∧
        k * p.bps + j * p.bps < p.bps ↔ 2 ≤ p.position 0) := by
    intro hsmall
    obtain rfl : k = 0 := by
      by_contra hk0
      have := Nat.mul_le_mul_right p.bps (Nat.one_le_iff_ne_zero.2 hk0)
      omega
    obtain ⟨skip, hskip⟩ : ∃ skip, p.position 0 = skip + 1 := by
      refine ⟨p.position 0 - 1, ?_⟩
      have hne : p.position 0 ≠ 0 := by
        intro hzero
        rw [hzero] at hend
        omega
      omega
    have hphase : Nas.position (p.phase 0) p.el.nextSample 0 = skip := by
      have hlt := fraction_lt p.el.currentSample p.el.nextSample 0
      have hdiv : (p.position 0 * p.bps - p.toEnd) / p.bps = skip := by
        rw [hskip, Nat.succ_mul]
        exact Nat.div_eq_of_lt_le (by omega) (by rw [Nat.succ_mul]; omega)
      have hphase : p.phase 0 = fraction p.el.currentSample p.el.nextSample 0 + skip * 2 ^ 16 := by
        rw [← hdiv]
        rfl
      rw [position_zero, hphase]
      omega
    rw [hskip]
    constructor
    · rintro ⟨-, hnone⟩
      obtain rfl : j = 0 := by
        by_contra hj0
        have := Nat.mul_le_mul_right p.bps (Nat.one_le_iff_ne_zero.2 hj0)
        omega
      by_contra hzero
      obtain rfl : skip = 0 := by omega
      rw [hphase] at hstop
      omega
    · intro htwo
      have hwide : p.curSize - p.toEnd ≤ skip * p.bps := by
        have := Nat.mul_le_mul_right p.bps (show 1 ≤ skip by omega)
        omega
      obtain rfl : j = 0 := by
        by_contra hj0
        have hbefore := (hj.before 0 (Nat.pos_of_ne_zero hj0)).2
        rw [hphase] at hbefore
        omega
      rw [hphase]
      omega
  by_cases hsmall : p.c.currentSize < p.bps
  · have := hskip hsmall
    have := h.curSize
    omega
  · have := h.curSize
    omega

/-- A tick of a preset element plays what is there just when its port is `Live`. -/
theorem plays_iff (hpreset : p.el.minibufSamples = p.chunkFrames) : p.Plays ↔ p.Live := by
  rcases hrc : p.rc with - | -
  · exact plays_null hrc hpreset
  · by_cases hcur : p.curSize = 0
    · exact iff_of_false (not_plays_of_curSize hcur hpreset) fun h => h.1 hcur
    obtain ⟨k, hk⟩ := p.exists_stops p.pass1
    by_cases hmore : k * p.bps < min p.curSize p.el.minibufChunk ∧ p.pass1 < p.curSize
    · exact First.plays_iff ⟨hrc, hcur, hk, hmore.1, hmore.2⟩ hpreset
    · exact plays_once hrc hcur hk hmore hpreset

end

end ImportPort

/-! ### Runs -/

/-- The port of an import is in order, and a chunk has as many frames as a tick presets. -/
structure PlayInv (auMinibufSamples bps : Nat) (s : Importing K) : Prop where
  port : PortInv s.c
  frame : s.c.bytesPerSample = bps
  chunk : bps = 0 ∨ s.el.minibufChunk = auMinibufSamples * bps
  chunk_lt : s.el.minibufChunk < 2 ^ 32

namespace PlayInv
variable {auMinibufSamples bps : Nat} {s s' : Importing K}

theorem fillInEvent (h : PlayInv auMinibufSamples bps s) : PlayInv auMinibufSamples bps s.fillInEvent := by
  obtain ⟨incoming, hc⟩ : ∃ incoming, s.fillInEvent.c = { s.c with incoming } := by
    unfold Importing.fillInEvent
    dsimp only
    split
    · exact ⟨_, rfl⟩
    · exact ⟨s.c.incoming, rfl⟩
  have hport := h.port.counters incoming s.c.eof
  refine ⟨?_, ?_, h.chunk, h.chunk_lt⟩
  · rw [hc]
    exact hport
  · rw [hc]
    exact h.frame

theorem changeElementState (h : PlayInv auMinibufSamples bps s) (newState : Nat) :
    PlayInv auMinibufSamples bps (s.changeElementState newState) := by
  have hport : PortInv (startImportPort s.c) := (h.port.step (K := K) .startImport trivial rfl).1
  have hbps : (startImportPort s.c).bytesPerSample = bps := by
    rw [← h.frame, startImportPort]
    split <;> rfl
  unfold Importing.changeElementState
  split
  · exact h
  · split
    · dsimp only
      split
      · exact ⟨hport, hbps, h.chunk, h.chunk_lt⟩
      · exact ⟨hport, hbps, h.chunk, h.chunk_lt⟩
    · exact ⟨h.port, h.frame, h.chunk, h.chunk_lt⟩

theorem writeElementPort_bps {c c' : Component} {bytes : List UInt8} (he : writeElementPort c bytes = .ok (some c')) :
    c'.bytesPerSample = c.bytesPerSample := by
  unfold writeElementPort at he
  dsimp only at he
  split at he
  · cases he
  · split at he
    · cases he
      rfl
    · obtain ⟨data, -, he⟩ := Exec.bind_eq_ok.1 he
      obtain ⟨data', -, he⟩ := Exec.bind_eq_ok.1 he
      cases he
      rfl

theorem writeElement (h : PlayInv auMinibufSamples bps s) {state : TransferState} {bytes : List UInt8}
    (he : s.writeElement state bytes = .ok s') : PlayInv auMinibufSamples bps s' := by
  rcases CreditInv.writeElement_cases he with ⟨-, rfl⟩ | ⟨c, t, hc, ht, hs'⟩
  · exact ⟨h.port, h.frame, h.chunk, h.chunk_lt⟩
  · have hport : PortInv c := by
      by_cases hroom : bytes.length ≤ s.c.dataSize - s.c.currentSize
      · obtain ⟨c', hc', hport, -⟩ := h.port.writeElementPort_ok hroom
        rw [hc] at hc'
        cases hc'
        exact hport
      · rw [h.port.writeElementPort_refused (by omega)] at hc
        cases hc
    have hbps : c.bytesPerSample = bps := (writeElementPort_bps hc).trans h.frame
    have hinv : PlayInv auMinibufSamples bps t := by
      rcases ht with ⟨-, rfl⟩ | ⟨-, rfl⟩
      · exact ⟨hport, hbps, h.chunk, h.chunk_lt⟩
      · exact ⟨hport.counters 0 true, hbps, h.chunk, h.chunk_lt⟩
    rcases hs' with rfl | ⟨-, rfl⟩
    · exact hinv
    · exact hinv.changeElementState _

theorem readClient_bps {c c' : Component} {el el' : FlowElement K} {fuel : Nat} {rc : RateConvert} {event : PortEvent}
    (he : readClient fuel rc c el = .ok (c', el', event)) : c'.bytesPerSample = c.bytesPerSample := by
  rcases PortInv.readClient_cases he with rfl | ⟨o₁, o₂, curSize, pass1, x, -, -, -, -, -, rfl⟩
  · rfl
  · rfl

theorem tick (h : PlayInv auMinibufSamples bps s) {fuel : Nat} {rc : RateConvert} {mem : Bool}
    (he : s.tick fuel rc mem = .ok s') : PlayInv auMinibufSamples bps s' := by
  unfold Importing.tick at he
  split at he
  · obtain ⟨⟨c, el, event⟩, hread, he⟩ := Exec.bind_eq_ok.1 he
    obtain ⟨-, -, hchunk, -⟩ := CreditInv.readClient_counters hread
    have hs : PlayInv auMinibufSamples bps { s with c, el } :=
      ⟨(h.port.readClient_ok h.chunk_lt hread).1, (readClient_bps hread).trans h.frame, hchunk ▸ h.chunk,
        hchunk ▸ h.chunk_lt⟩
    rcases event with - | ⟨newState, reason⟩ | -
    · cases he
      exact hs
    · cases he
      exact hs.changeElementState newState
    · cases he
      dsimp only
      split
      · exact hs.fillInEvent
      · exact hs
  · cases he
    exact h

theorem step (h : PlayInv auMinibufSamples bps s) {op : ImportOp} (he : importStep s op = .ok s') :
    PlayInv auMinibufSamples bps s' := by
  rcases op with - | ⟨state, bytes⟩ | ⟨fuel, rc, mem⟩ | newState
  · cases he
    exact h.fillInEvent
  · exact h.writeElement he
  · exact h.tick he
  · cases he
    exact h.changeElementState newState

end PlayInv

section
variable {auMinibufSamples format numTracks numSamples lowWater highWater : Nat} {discard : Bool} {c : Component}
  {s : Importing K} {rc : RateConvert}

/-- A chunk of a new port. -/
theorem createPort_chunk (hm : auMinibufSamples < 2 ^ 21) (ht : numTracks < 2 ^ 8)
    (hc : createPort auMinibufSamples format numTracks numSamples lowWater highWater discard = some c) :
    c.bytesPerSample = 0 ∨ minibufChunkOf c = auMinibufSamples * c.bytesPerSample := by
  have hmul : auMinibufSamples * numTracks < 2 ^ 29 :=
    calc auMinibufSamples * numTracks < 2 ^ 21 * 2 ^ 8 := Nat.mul_lt_mul'' hm ht
      _ = 2 ^ 29 := (Nat.pow_add 2 21 8).symm
  unfold createPort at hc
  dsimp only at hc
  split at hc
  · cases hc
  · have hmini : auNativeBytesPerSample * auMinibufSamples * numTracks % 2 ^ 32 = 2 * (auMinibufSamples * numTracks) := by
      rw [Nat.mul_assoc, auNativeBytesPerSample]
      omega
    cases hc
    unfold minibufChunkOf
    dsimp only
    rw [hmini]
    have hsize : sizeofFormat format = 0 ∨ sizeofFormat format = 1 ∨ sizeofFormat format = 2 := by
      unfold sizeofFormat
      rcases format with _ | _ | _ | _ | _ | _ | _ | _ | format <;> simp
    rcases hsize with h | h | h
    · exact .inl (by rw [h, Nat.mul_zero])
    · right
      rw [if_pos h, h, Nat.mul_one]
      omega
    · right
      rw [if_neg (by omega), h, Nat.mul_comm 2, Nat.mul_assoc]

theorem playInv_reach (hm : auMinibufSamples < 2 ^ 21) (ht : numTracks < 2 ^ 8)
    (hc : createPort auMinibufSamples format numTracks numSamples lowWater highWater discard = some c) (el : FlowElement K)
    (h : Reach importStep (fun _ _ => True) (newImport c el) s) : PlayInv auMinibufSamples c.bytesPerSample s := by
  refine h.inv ⟨createPort_inv hm ht hc, rfl, createPort_chunk hm ht hc, ?_⟩ fun _ _ _ hs _ he => hs.step he
  exact (newImport_inv hm ht hc el).chunk

/-- The element with another phase and another rate. -/
def Importing.tuned (s : Importing K) (currentSample nextSample : Nat) : Importing K :=
  { s with el := { s.el with currentSample, nextSample } }

theorem changeElementState_samples (s : Importing K) (newState : Nat) :
    (s.changeElementState newState).el.minibufSamples = s.el.minibufSamples ∧
      (s.changeElementState newState).el.minibuf = s.el.minibuf := by
  unfold Importing.changeElementState
  split
  · exact ⟨rfl, rfl⟩
  · split
    · dsimp only
      split <;> exact ⟨rfl, rfl⟩
    · exact ⟨rfl, rfl⟩

theorem settle_samples (s : Importing K) (mem : Bool) (event : PortEvent) :
    (s.settle mem event).el.minibufSamples = s.el.minibufSamples ∧ (s.settle mem event).el.minibuf = s.el.minibuf := by
  rcases event with - | ⟨newState, reason⟩ | -
  · exact ⟨rfl, rfl⟩
  · exact changeElementState_samples s newState
  · rcases mem with - | -
    · exact ⟨rfl, rfl⟩
    · exact ⟨rfl, rfl⟩

/-- An element that is started leaves that state. -/
theorem changeElementState_leaves {newState : Nat} (hstart : s.el.state = auStateStart) (hnew : newState ≠ auStateStart) :
    (s.changeElementState newState).el.state = newState := by
  unfold Importing.changeElementState
  rw [hstart, if_neg, if_neg]
  · rfl
  · rintro ⟨-, h⟩
    exact absurd h (by decide)
  · rintro (h | ⟨-, h⟩)
    · exact hnew h
    · exact absurd h (by decide)

/-- `Fresh` is about the port and the element alone. -/
theorem fresh_iff_plays (hstart : s.el.state = auStateStart) {p : ImportPort K} (hport : p.c = s.c)
    (hel : p.el = { s.el with minibufSamples := auMinibufSamples }) (hrc : p.rc = rc) :
    s.Fresh auMinibufSamples rc ↔ p.Plays := by
  have hreads (fuel : Nat) (mem : Bool) : s.emptied.readInput auMinibufSamples fuel rc mem = (do
      let (c, el, event) ← p.readClient fuel []
      .ok (({ s with c, el } : Importing K).settle mem event, event)) := by
    unfold ImportPort.readClient
    rw [hport, hel, hrc]
    rfl
  have hbps : p.bps = s.c.bytesPerSample := by rw [ImportPort.bps, hport]
  have hevent : p.event 0 = if s.c.eof then .change auStateStop auReasonEOF else .change auStatePause auReasonUnderrun := by
    rw [ImportPort.event, if_pos rfl, hport]
  unfold Importing.Fresh ImportPort.Plays
  rw [hbps, hevent, hport]
  constructor
  · rintro ⟨fuel, h⟩
    obtain ⟨s', event, hread, hsmall, hle⟩ := h false
    rw [hreads] at hread
    obtain ⟨⟨c, el, event'⟩, hread', hs'⟩ := Exec.bind_eq_ok.1 hread
    cases hs'
    obtain ⟨hsamples, hminibuf⟩ := settle_samples { s with c, el } false event
    rw [hsamples, hminibuf] at hle
    rw [hsamples] at hsmall
    refine ⟨fuel, c, el, event, hread', fun h => ⟨(hsmall h).1, ?_⟩, hle⟩
    have hleft := (hsmall h).2
    split
    · rename_i heof
      rw [if_pos heof] at hleft
      exact hleft.1
    · rename_i heof
      rw [if_neg heof] at hleft
      exact hleft.1
  · rintro ⟨fuel, c, el, event, hread, hsmall, hle⟩
    refine ⟨fuel, fun mem => ⟨({ s with c, el } : Importing K).settle mem event, event, ?_, fun h => ?_, ?_⟩⟩
    · rw [hreads, hread, Exec.ok_bind]
    · obtain ⟨hnone, hleft⟩ := hsmall h
      have hstate : el.state = auStateStart := by
        rw [(CreditInv.readClient_counters hread).2.2.2, hel]
        exact hstart
      refine ⟨(settle_samples ..).1.trans hnone, ?_⟩
      split
      · rename_i heof
        rw [if_pos heof] at hleft
        subst hleft
        exact ⟨rfl, changeElementState_leaves hstate (by decide)⟩
      · rename_i heof
        rw [if_neg heof] at hleft
        subst hleft
        exact ⟨rfl, changeElementState_leaves hstate (by decide)⟩
    · obtain ⟨hsamples, hminibuf⟩ := settle_samples { s with c, el } mem event
      rw [hsamples, hminibuf]
      exact hle

/-- In every state of a run in which the element is started, with whatever phase and rate, a tick plays what it has
made and nothing else just when the frame has no bytes or the port is `Live`. -/
theorem readInput_fresh_iff (hm : auMinibufSamples < 2 ^ 21) (hm' : 0 < auMinibufSamples) (ht : numTracks < 2 ^ 8)
    (hc : createPort auMinibufSamples format numTracks numSamples lowWater highWater discard = some c) (el : FlowElement K)
    (h : Reach importStep (fun _ _ => True) (newImport c el) s) (hstart : s.el.state = auStateStart) (rc : RateConvert)
    (currentSample nextSample : Nat) : (s.tuned currentSample nextSample).Fresh auMinibufSamples rc ↔
      s.c.bytesPerSample = 0 ∨ ∃ p : ImportPort K, p.c = s.c ∧ p.el = (s.tuned currentSample nextSample).el ∧ p.rc = rc ∧
        p.Live := by
  have hinv := playInv_reach hm ht hc el h
  rcases Nat.eq_zero_or_pos s.c.bytesPerSample with hzero | hpos
  · refine iff_of_true ⟨0, fun mem => ?_⟩ (.inl hzero)
    have hcur : alignDown s.c.currentSize s.c.bytesPerSample = 0 := by
      rw [hzero, alignDown]
      exact Nat.and_zero _
    unfold Importing.readInput readClient
    refine ⟨_, _, Exec.bind_eq_ok.2 ⟨_, if_pos hcur, rfl⟩, fun h => ?_, ?_⟩
    · have h : s.c.currentSize < s.c.bytesPerSample := h
      omega
    · dsimp only [Importing.tuned]
      rw [hzero, Nat.mul_zero]
      exact Nat.zero_le _
  · have hchunk : s.el.minibufChunk = auMinibufSamples * s.c.bytesPerSample := by
      rw [hinv.frame]
      rcases hinv.chunk with h0 | hchunk
      · have := hinv.frame
        omega
      · exact hchunk
    let p : ImportPort K :=
      { c := s.c
        el := { (s.tuned currentSample nextSample).el with minibufSamples := auMinibufSamples }
        rc
        inv := hinv.port
        chunk := ⟨auMinibufSamples, hchunk.trans (Nat.mul_comm ..)⟩
        chunk_pos := hchunk.symm ▸ Nat.mul_pos hm' hpos
        chunk_lt := hinv.chunk_lt }
    have hpreset : p.el.minibufSamples = p.chunkFrames := by
      change auMinibufSamples = s.el.minibufChunk / s.c.bytesPerSample
      rw [hchunk, Nat.mul_div_cancel _ hpos]
    have hstate : (s.tuned currentSample nextSample).el.state = auStateStart := hstart
    have hplays : (s.tuned currentSample nextSample).Fresh auMinibufSamples rc ↔ p.Plays :=
      fresh_iff_plays hstate rfl rfl rfl
    rw [hplays, ImportPort.plays_iff hpreset]
    constructor
    · intro hlive
      exact .inr ⟨{ p with el := (s.tuned currentSample nextSample).el }, rfl, rfl, rfl, hlive⟩
    · rintro (h0 | ⟨q, hqc, hqel, hqrc, hlive⟩)
      · omega
      · rcases q with ⟨qc, qel, qrc, qinv, qchunk, qpos, qlt⟩
        dsimp only at hqc hqel hqrc
        subst hqc hqel hqrc
        exact hlive

end

/-- The port of eight bytes when it was written two of them, the last of the data. -/
def twoBytes : Importing AuFixedPoint where
  c := { keptPort with data := [1, 2, 0, 0, 0, 0, 0, 0], write := 2, currentSize := 2, eof := true }
  el := { keptImport with minibufChunk := 4 }
  sent := 2

/-- Its element is started. -/
def twoBytesStarted : Importing AuFixedPoint :=
  { twoBytes with c := { twoBytes.c with eof := false }, el := { twoBytes.el with state := auStateStart } }

theorem twoBytesStarted_fresh : (twoBytesStarted.tuned 0 0).Fresh 4 .null := by
  have hwritten : importStep (newImport keptPort keptImport) (.writeElement .finished [1, 2]) = .ok twoBytes := by
    have hport : writeElementPort (newImport keptPort keptImport).c [1, 2] =
        .ok (some { keptPort with data := [1, 2, 0, 0, 0, 0, 0, 0], write := 2, currentSize := 2, incoming := 2 ^ 32 - 2 }) := by
      decide
    unfold importStep Importing.writeElement
    dsimp only
    rw [hport]
    rfl
  have hstarted : importStep twoBytes (.changeElementState auStateStart) = .ok twoBytesStarted := by
    rfl
  have hreach : Reach importStep (fun _ _ => True) (newImport keptPort keptImport) twoBytesStarted :=
    .step _ (.step _ .init trivial hwritten) trivial hstarted
  let p : ImportPort AuFixedPoint :=
    { c := twoBytesStarted.c
      el := (twoBytesStarted.tuned 0 0).el
      rc := .null
      inv := ⟨⟨by decide, fun _ => by decide, fun _ => by decide⟩, rfl, by decide, by decide⟩
      chunk := by decide
      chunk_pos := by decide
      chunk_lt := by decide }
  have hlive : p.Live := by decide
  exact (readInput_fresh_iff (by decide : 4 < 2 ^ 21) (by decide) (by decide : 1 < 2 ^ 8)
    (by rfl : createPort 4 1 1 8 2 0 false = some keptPort) keptImport hreach rfl .null 0 0).2
    (.inr ⟨p, rfl, rfl, rfl, hlive⟩)

/-- An import that is started with nothing in its port plays a whole chunk. -/
theorem keptPort_not_fresh : ¬ ∀ (auMinibufSamples format numTracks numSamples lowWater highWater : Nat)
    (discard : Bool) (c : Component) (el : FlowElement AuFixedPoint) (s : Importing AuFixedPoint) (rc : RateConvert),
    0 < auMinibufSamples → auMinibufSamples < 2 ^ 21 → numTracks < 2 ^ 8 →
      createPort auMinibufSamples format numTracks numSamples lowWater highWater discard = some c →
      Reach importStep (fun _ _ => True) (newImport c el) s → s.el.state = auStateStart →
        s.Fresh auMinibufSamples rc := by
  intro h
  have hreach : Reach importStep (fun _ _ => True) (newImport keptPort keptImport) _ :=
    .step (.changeElementState auStateStart) .init trivial rfl
  obtain ⟨fuel, hfresh⟩ := h 4 1 1 8 2 0 false keptPort keptImport _ .null (by decide) (by decide) (by decide) rfl hreach rfl
  obtain ⟨s', event, hread, -, hle⟩ := hfresh false
  obtain ⟨⟨c, el, event'⟩, hread, hs'⟩ := Exec.bind_eq_ok.1 hread
  cases hread
  cases hs'
  revert hle
  decide

end Nas
