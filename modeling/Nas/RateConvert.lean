import Nas.PortInv
import Mathlib.Data.Nat.Find

/-!
# What the rate converters do

`rc_1`, `rc_2`, `rc_4` and `rc_n` in closed form. The phase of an element is a fixed-point number of frames of the
source; `position c n k` is how many whole frames a conversion that starts at the phase `c` and goes on by `n` has
passed in front of its `k`-th frame. A conversion makes the first `k` frames for the `k` at which it stops
(`StopsAt`, `rcX_eq`), and one that is interrupted at a whole frame and goes on with the phase it has kept is one
conversion (`converted_append`).

`respects_iff_ok` says which calls keep to the room and to the source they are given.
-/

namespace Nas

/-! ### Positions -/

/-- How many frames of the source are passed in front of the `k`-th, and the fraction of a frame. -/
def phaseAt (c n : Nat) : Nat → Nat × Nat
  | 0 => (c / 2 ^ 16, c % 2 ^ 16)
  | k + 1 =>
    let next := ((phaseAt c n k).2 + n) % 2 ^ 32
    ((phaseAt c n k).1 + next / 2 ^ 16, next % 2 ^ 16)

def position (c n k : Nat) : Nat := (phaseAt c n k).1

def fraction (c n k : Nat) : Nat := (phaseAt c n k).2

section
variable {c n i j k bps want avail : Nat} {src : List UInt8}

theorem position_zero (c n : Nat) : position c n 0 = c / 2 ^ 16 := rfl

theorem fraction_zero (c n : Nat) : fraction c n 0 = c % 2 ^ 16 := rfl

theorem position_succ (c n k : Nat) : position c n (k + 1) = position c n k + (fraction c n k + n) % 2 ^ 32 / 2 ^ 16 := rfl

theorem fraction_succ (c n k : Nat) : fraction c n (k + 1) = (fraction c n k + n) % 2 ^ 32 % 2 ^ 16 := rfl

theorem fraction_lt (c n k : Nat) : fraction c n k < 2 ^ 16 := by
  rcases k with - | k
  · exact Nat.mod_lt _ (by decide)
  · exact Nat.mod_lt _ (by decide)

theorem position_mono (h : i ≤ j) : position c n i ≤ position c n j := by
  induction j with
  | zero =>
    rw [Nat.le_zero.1 h]
  | succ j ih =>
    rcases Nat.le_succ_iff.1 h with h | rfl
    · rw [position_succ]
      exact (ih h).trans (Nat.le_add_right _ _)
    · exact Nat.le_refl _

/-- A step that does not wrap around makes for a multiplication. -/
theorem phaseAt_eq (hn : n + 2 ^ 16 ≤ 2 ^ 32) (k : Nat) :
    position c n k = (c + k * n) / 2 ^ 16 ∧ fraction c n k = (c + k * n) % 2 ^ 16 := by
  induction k with
  | zero =>
    rw [Nat.zero_mul, Nat.add_zero]
    exact ⟨rfl, rfl⟩
  | succ k ih =>
    have hlt := fraction_lt c n k
    rw [position_succ, fraction_succ, Nat.succ_mul]
    omega

/-- With a step, the source is used up at some time. A sum that wraps around makes for a smaller fraction. -/
theorem exists_le_position (hn : 0 < n) (hlt : n < 2 ^ 32) (m : Nat) : ∃ k, m ≤ position c n k := by
  have hmore (f : Nat) : ∀ k, fraction c n k ≤ f → ∃ k', position c n k < position c n k' := by
    by_cases hwrap : n + 2 ^ 16 ≤ 2 ^ 32
    · intro k _
      refine ⟨k + 2 ^ 16, ?_⟩
      have hmul : 2 ^ 16 ≤ 2 ^ 16 * n := Nat.le_mul_of_pos_right _ hn
      rw [(phaseAt_eq hwrap k).1, (phaseAt_eq hwrap (k + 2 ^ 16)).1, Nat.add_mul]
      omega
    · induction f with
      | zero =>
        intro k hk
        refine ⟨k + 1, ?_⟩
        rw [position_succ]
        omega
      | succ f ih =>
        intro k hk
        have hfraction := fraction_lt c n k
        by_cases hnext : fraction c n k + n < 2 ^ 32
        · refine ⟨k + 1, ?_⟩
          rw [position_succ]
          omega
        · obtain ⟨k', hk'⟩ := ih (k + 1) (by rw [fraction_succ]; omega)
          exact ⟨k', (position_mono (Nat.le_succ k)).trans_lt hk'⟩
  induction m with
  | zero => exact ⟨0, Nat.zero_le _⟩
  | succ m ih =>
    obtain ⟨k, hk⟩ := ih
    obtain ⟨k', hk'⟩ := hmore _ k (Nat.le_refl _)
    exact ⟨k', by omega⟩

/-- From a frame on, a conversion is the one that starts at its phase. -/
theorem phaseAt_add {c' : Nat} (d : Nat) (hposition : position c n k = d + c' / 2 ^ 16) (hfraction : fraction c n k = c' % 2 ^ 16)
    (j : Nat) : position c n (k + j) = d + position c' n j ∧ fraction c n (k + j) = fraction c' n j := by
  induction j with
  | zero => exact ⟨hposition, hfraction⟩
  | succ j ih =>
    rw [← Nat.add_assoc, position_succ, fraction_succ, position_succ, fraction_succ, ih.1, ih.2]
    exact ⟨Nat.add_assoc .., rfl⟩

/-! ### Frames -/

/-- The first frames of a conversion. -/
def frames (src : List UInt8) (bps c n k : Nat) : List UInt8 :=
  (List.range k).flatMap fun i => frameAt src (position c n i * bps) bps

theorem frames_succ (src : List UInt8) (bps c n k : Nat) :
    frames src bps c n (k + 1) = frames src bps c n k ++ frameAt src (position c n k * bps) bps := by
  rw [frames, List.range_succ, List.flatMap_append, List.flatMap_singleton]
  rfl

theorem length_frames (src : List UInt8) (bps c n k : Nat) : (frames src bps c n k).length = k * bps := by
  induction k with
  | zero => rw [Nat.zero_mul]; rfl
  | succ k ih => rw [frames_succ, List.length_append, ih, length_frameAt, Nat.succ_mul]

theorem frames_congr {src' : List UInt8}
    (h : ∀ i < k, frameAt src (position c n i * bps) bps = frameAt src' (position c n i * bps) bps) :
    frames src bps c n k = frames src' bps c n k := by
  induction k with
  | zero => rfl
  | succ k ih => rw [frames_succ, frames_succ, ih fun i hi => h i (by omega), h k (by omega)]

theorem frames_add (src : List UInt8) (bps c n k j : Nat) :
    frames src bps c n (k + j) =
      frames src bps c n k ++ (List.range j).flatMap fun i => frameAt src (position c n (k + i) * bps) bps := by
  induction j with
  | zero => rw [Nat.add_zero, List.range_zero, List.flatMap_nil, List.append_nil]
  | succ j ih =>
    rw [← Nat.add_assoc, frames_succ, ih, List.range_succ, List.flatMap_append, List.flatMap_singleton, List.append_assoc]

/-! ### Conversions -/

/-- The result of a conversion that stops with its `k`-th frame. -/
def converted (src : List UInt8) (bps c n k avail : Nat) : Converted where
  bytes := frames src bps c n k
  used := min (position c n k * bps) avail
  currentSample := fraction c n k + (position c n k * bps - avail) / bps * 2 ^ 16

/-- The conversion goes as far as the `k`-th frame and no further: the room is filled, or the source is used up. -/
structure StopsAt (bps c n want avail k : Nat) : Prop where
  before : ∀ i < k, i * bps < want ∧ position c n i * bps < avail
  room : k * bps ≤ want
  stop : k * bps = want ∨ avail ≤ position c n k * bps

theorem StopsAt.unique (hi : StopsAt bps c n want avail i) (hj : StopsAt bps c n want avail j) : i = j := by
  rcases Nat.lt_trichotomy i j with h | h | h
  · have := hj.before i h
    have := hi.stop
    omega
  · exact h
  · have := hi.before j h
    have := hj.stop
    omega

/-- It stops where the room is a whole number of frames, or the source is used up by those that fit. -/
theorem exists_stopsAt (h : bps ∣ want ∨ avail ≤ position c n (want / bps) * bps) :
    ∃ k ≤ want / bps, StopsAt bps c n want avail k := by
  have hlast : want ≤ want / bps * bps ∨ avail ≤ position c n (want / bps) * bps := by
    rcases h with h | h
    · exact .inl (Nat.div_mul_cancel h).ge
    · exact .inr h
  have hex : ∃ k, want ≤ k * bps ∨ avail ≤ position c n k * bps := ⟨_, hlast⟩
  have hle : Nat.find hex ≤ want / bps := Nat.find_min' hex hlast
  have hroom : Nat.find hex * bps ≤ want := (Nat.mul_le_mul_right bps hle).trans (Nat.div_mul_le_self want bps)
  refine ⟨Nat.find hex, hle, fun i hi => ?_, hroom, ?_⟩
  · have := Nat.find_min hex hi
    omega
  · have := Nat.find_spec hex
    omega

theorem rcNext_eq (bps c s avail : Nat) : rcNext bps c s avail =
    (c % 2 ^ 16 + (c / 2 ^ 16 * bps - avail) / bps * 2 ^ 16, s + min (c / 2 ^ 16 * bps) avail, avail - c / 2 ^ 16 * bps) := by
  unfold rcNext
  dsimp only
  split_ifs with h0 hlt
  · rw [h0, Nat.zero_mul, Nat.zero_sub, Nat.zero_div, Nat.zero_mul, Nat.zero_min, Nat.add_zero, Nat.sub_zero, Nat.add_zero]
    congr 1
    omega
  · rw [Nat.min_eq_right (by omega), Nat.sub_eq_zero_of_le (by omega : avail ≤ c / 2 ^ 16 * bps)]
  · rw [Nat.min_eq_left (by omega), Nat.sub_eq_zero_of_le (by omega : c / 2 ^ 16 * bps ≤ avail), Nat.zero_div,
      Nat.zero_mul, Nat.add_zero]

/-- Where the loop is when it has made `i` frames. -/
def loopAt (bps c n : Nat) (src : List UInt8) (want avail fuel i : Nat) : Exec Converted :=
  rcLoop bps n src fuel (want - i * bps) (avail - position c n i * bps)
    (fraction c n i + (position c n i * bps - avail) / bps * 2 ^ 16) (min (position c n i * bps) avail)
    (frames src bps c n i)

theorem rcX_loopAt (fuel bps c n : Nat) (src : List UInt8) (want avail : Nat) :
    rcX fuel bps c n src want avail = loopAt bps c n src want avail fuel 0 := by
  have hfirst : (if c / 2 ^ 16 ≠ 0 then rcNext bps c 0 avail else (c, 0, avail)) = rcNext bps c 0 avail := by
    split
    · rfl
    · rename_i h0
      rw [not_not] at h0
      rw [rcNext, if_pos h0]
  rw [rcX, hfirst, rcNext_eq, loopAt, position_zero, fraction_zero, Nat.zero_mul, Nat.sub_zero, Nat.zero_add]
  rfl

theorem rcLoop_congr {fuel want' avail' c' s s' : Nat} {out : List UInt8} (hw : want = want') (ha : avail = avail')
    (hc : c = c') (hs : s = s') :
    rcLoop bps n src fuel want avail c s out = rcLoop bps n src fuel want' avail' c' s' out := by
  subst hw ha hc hs
  rfl

/-- One round of the loop. -/
theorem loopAt_succ (fuel : Nat) (hwant : want < 2 ^ 32) (hi : i * bps < want) (hi' : (i + 1) * bps ≤ want)
    (havail : position c n i * bps < avail) :
    loopAt bps c n src want avail (fuel + 1) i = loopAt bps c n src want avail fuel (i + 1) := by
  have hsub : sub32 (want - i * bps) bps = want - (i + 1) * bps := by
    rw [Nat.succ_mul] at hi' ⊢
    rw [sub32_eq (by omega) (by omega)]
    omega
  have hclip : (position c n i * bps - avail) / bps * 2 ^ 16 = 0 := by
    rw [Nat.sub_eq_zero_of_le (by omega), Nat.zero_div, Nat.zero_mul]
  have hdone : position c n (i + 1) * bps = position c n i * bps + (fraction c n i + n) % 2 ^ 32 / 2 ^ 16 * bps := by
    rw [position_succ, Nat.add_mul]
  generalize hinc : (fraction c n i + n) % 2 ^ 32 = next at hdone
  rw [loopAt, rcLoop, if_neg (by omega), hclip, Nat.add_zero, Nat.min_eq_left (by omega)]
  dsimp only
  rw [rcNext_eq, loopAt, hsub, frames_succ, fraction_succ, hdone, hinc]
  dsimp only
  have hleft : next / 2 ^ 16 * bps - (avail - position c n i * bps) = position c n i * bps + next / 2 ^ 16 * bps - avail := by
    omega
  refine rcLoop_congr rfl ?_ ?_ ?_
  · exact Nat.sub_sub ..
  · rw [hleft]
  · omega

theorem loopAt_eq {fuel : Nat} (hwant : want < 2 ^ 32) (h : StopsAt bps c n want avail k) (hi : i ≤ k) (hfuel : k ≤ i + fuel) :
    loopAt bps c n src want avail fuel i = .ok (converted src bps c n k avail) := by
  induction fuel generalizing i with
  | zero =>
    obtain rfl : i = k := by omega
    have hstop := h.stop
    rw [loopAt, rcLoop, if_pos (by omega)]
    rfl
  | succ fuel ih =>
    by_cases hik : i = k
    · subst hik
      have hstop := h.stop
      rw [loopAt, rcLoop, if_pos (by omega)]
      rfl
    · obtain ⟨hroom, havail⟩ := h.before i (by omega)
      have hle : (i + 1) * bps ≤ k * bps := Nat.mul_le_mul_right bps (by omega)
      rw [loopAt_succ fuel hwant hroom (hle.trans h.room) havail]
      exact ih (by omega) (by omega)

/-- A conversion that stops. -/
theorem rcX_eq {fuel : Nat} (hwant : want < 2 ^ 32) (h : StopsAt bps c n want avail k) (hfuel : k ≤ fuel) :
    rcX fuel bps c n src want avail = .ok (converted src bps c n k avail) := by
  rw [rcX_loopAt]
  exact loopAt_eq hwant h (Nat.zero_le k) (by omega)

theorem rcLoop_fuel {fuel fuel' s : Nat} {out : List UInt8} {o : Converted} (hle : fuel ≤ fuel')
    (h : rcLoop bps n src fuel want avail c s out = .ok o) : rcLoop bps n src fuel' want avail c s out = .ok o := by
  induction fuel generalizing fuel' want avail c s out with
  | zero =>
    unfold rcLoop at h ⊢
    split at h
    · rename_i hstop
      rw [if_pos hstop]
      exact h
    · cases h
  | succ fuel ih =>
    unfold rcLoop at h ⊢
    split at h
    · rename_i hstop
      rw [if_pos hstop]
      exact h
    · rename_i hgo
      rw [if_neg hgo]
      obtain ⟨fuel', rfl⟩ : ∃ m, fuel' = m + 1 := ⟨fuel' - 1, by omega⟩
      exact ih (by omega) h

/-- With more fuel, the same result. -/
theorem rcX_fuel {fuel fuel' : Nat} {o : Converted} (hle : fuel ≤ fuel') (h : rcX fuel bps c n src want avail = .ok o) :
    rcX fuel' bps c n src want avail = .ok o := rcLoop_fuel hle h

theorem rateConvert_fuel {K : Type} {rc : RateConvert} {fuel fuel' : Nat} {el : FlowElement K} {o : Converted}
    (hle : fuel ≤ fuel') (h : rateConvert rc fuel bps el src want avail = .ok o) :
    rateConvert rc fuel' bps el src want avail = .ok o := by
  rcases rc with - | -
  · exact h
  · exact rcX_fuel hle h

theorem rcX_unique {fuel : Nat} {o : Converted} (hwant : want < 2 ^ 32) (hk : StopsAt bps c n want avail k)
    (h : rcX fuel bps c n src want avail = .ok o) : o = converted src bps c n k avail := by
  have hmore := rcX_fuel (Nat.le_max_left fuel k) h
  rw [rcX_eq hwant hk (Nat.le_max_right fuel k)] at hmore
  cases hmore
  rfl

/-! ### One conversion in two -/

/-- A conversion that has used up `d` whole frames and has room left. -/
structure Interrupted (bps c n want d k : Nat) : Prop where
  stops : StopsAt bps c n want (d * bps) k
  room : k * bps < want
  pos : 0 < bps

theorem Interrupted.le_position {d : Nat} (h : Interrupted bps c n want d k) : d ≤ position c n k := by
  have hroom := h.room
  have hstop := h.stops.stop
  exact Nat.le_of_mul_le_mul_right (by omega) h.pos

theorem Interrupted.currentSample {d : Nat} (h : Interrupted bps c n want d k) (src : List UInt8) :
    (converted src bps c n k (d * bps)).currentSample = fraction c n k + (position c n k - d) * 2 ^ 16 := by
  rw [converted, ← Nat.sub_mul, Nat.mul_div_cancel _ h.pos]

/-- It goes on where it was. -/
theorem Interrupted.phaseAt {d : Nat} (h : Interrupted bps c n want d k) (src : List UInt8) (i : Nat) :
    position c n (k + i) = d + position (converted src bps c n k (d * bps)).currentSample n i ∧
      fraction c n (k + i) = fraction (converted src bps c n k (d * bps)).currentSample n i := by
  have hlt := fraction_lt c n k
  have hle := h.le_position
  refine phaseAt_add d ?_ ?_ i
  · rw [h.currentSample]
    omega
  · rw [h.currentSample]
    omega

/-- The two together stop where one does that has both parts of the source. -/
theorem Interrupted.stopsAt {d avail' : Nat} (h : Interrupted bps c n want d k) (src : List UInt8)
    (h' : StopsAt bps (converted src bps c n k (d * bps)).currentSample n (want - k * bps) avail' j) :
    StopsAt bps c n want (d * bps + avail') (k + j) where
  before i hi := by
    by_cases hik : i < k
    · obtain ⟨hroom, havail⟩ := h.stops.before i hik
      exact ⟨hroom, by omega⟩
    · obtain ⟨i, rfl⟩ := Nat.exists_eq_add_of_le (Nat.le_of_not_lt hik)
      obtain ⟨hroom, havail⟩ := h'.before i (by omega)
      rw [(h.phaseAt src i).1, Nat.add_mul, Nat.add_mul]
      omega
  room := by
    have := h'.room
    have := h.stops.room
    rw [Nat.add_mul]
    omega
  stop := by
    have := h'.stop
    have := h.stops.room
    rw [(h.phaseAt src j).1, Nat.add_mul, Nat.add_mul]
    omega

/-- What the two use up and keep is what the one does. -/
theorem Interrupted.converted {d avail' : Nat} {src' : List UInt8} (h : Interrupted bps c n want d k) :
    (converted src bps c n (k + j) (d * bps + avail')).used =
        d * bps + (converted src' bps (converted src bps c n k (d * bps)).currentSample n j avail').used ∧
      (converted src bps c n (k + j) (d * bps + avail')).currentSample =
        (converted src' bps (converted src bps c n k (d * bps)).currentSample n j avail').currentSample := by
  obtain ⟨hposition, hfraction⟩ := h.phaseAt src j
  constructor
  · dsimp only [Nas.converted] at hposition ⊢
    rw [hposition, Nat.add_mul]
    omega
  · dsimp only [Nas.converted] at hposition hfraction ⊢
    rw [hposition, hfraction, Nat.add_mul, Nat.add_sub_add_left]

/-- The frames of the second are those of the source behind what was used up. -/
theorem Interrupted.frames {d : Nat} {src' : List UInt8} (h : Interrupted bps c n want d k)
    (hsrc : ∀ i < j, frameAt src ((d + position (Nas.converted src bps c n k (d * bps)).currentSample n i) * bps) bps =
      frameAt src' (position (Nas.converted src bps c n k (d * bps)).currentSample n i * bps) bps) :
    Nas.frames src bps c n (k + j) =
      Nas.frames src bps c n k ++ Nas.frames src' bps (Nas.converted src bps c n k (d * bps)).currentSample n j := by
  rw [frames_add]
  congr 1
  refine List.flatMap_congr fun i hi => ?_
  rw [(h.phaseAt src i).1]
  exact hsrc i (List.mem_range.1 hi)

/-! ### Bounds -/

theorem rcLoop_out {fuel s : Nat} {out : List UInt8} {o : Converted} (h : rcLoop bps n src fuel want avail c s out = .ok o) :
    out.length ≤ o.bytes.length := by
  induction fuel generalizing want avail c s out with
  | zero =>
    unfold rcLoop at h
    split at h
    · cases h
      exact Nat.le_refl _
    · cases h
  | succ fuel ih =>
    unfold rcLoop at h
    split at h
    · cases h
      exact Nat.le_refl _
    · have := ih h
      rw [List.length_append] at this
      omega

/-- The loop comes to the frame when there is room for those in front of it and source left. -/
theorem loopAt_reach {fuel : Nat} {o : Converted} (hwant : want < 2 ^ 32)
    (hbefore : ∀ j < i, (j + 1) * bps ≤ want ∧ j * bps < want ∧ position c n j * bps < avail)
    (h : rcX fuel bps c n src want avail = .ok o) : ∃ fuel', loopAt bps c n src want avail fuel' i = .ok o := by
  rw [rcX_loopAt] at h
  induction i with
  | zero => exact ⟨fuel, h⟩
  | succ i ih =>
    obtain ⟨fuel', h'⟩ := ih fun j hj => hbefore j (by omega)
    obtain ⟨hroom, hstart, havail⟩ := hbefore i (by omega)
    rcases fuel' with - | fuel'
    · rw [loopAt, rcLoop, if_neg (by omega)] at h'
      cases h'
    · rw [loopAt_succ fuel' hwant hstart hroom havail] at h'
      exact ⟨fuel', h'⟩

/-- Frames without bytes are made for ever. -/
theorem rcX_no_bytes {fuel : Nat} (hwant : want < 2 ^ 32) (hw : want ≠ 0) (ha : avail ≠ 0) :
    rcX fuel 0 c n src want avail = .error .fuel := by
  have hstep : ∀ i fuel, loopAt 0 c n src want avail fuel i = .error .fuel := by
    intro i fuel
    induction fuel generalizing i with
    | zero =>
      unfold loopAt rcLoop
      rw [if_neg (by omega)]
    | succ fuel ih =>
      rw [loopAt_succ fuel hwant (by omega) (by omega) (by omega)]
      exact ih (i + 1)
  rw [rcX_loopAt]
  exact hstep 0 fuel

/-- A conversion that comes to a part of a frame with source left goes on behind the room. -/
theorem rcX_overrun {fuel : Nat} {o : Converted} (hwant : want < 2 ^ 32) (hpart : ¬ bps ∣ want)
    (havail : position c n (want / bps) * bps < avail) (h : rcX fuel bps c n src want avail = .ok o) :
    want < o.bytes.length := by
  have hpos : 0 < bps := by
    by_contra hzero
    obtain rfl : bps = 0 := by omega
    rw [rcX_no_bytes hwant (fun h0 => hpart (h0 ▸ Nat.dvd_refl 0)) (by omega)] at h
    cases h
  have hmod : want / bps * bps + want % bps = want := Nat.div_add_mod' want bps
  have hrest : want % bps ≠ 0 := fun h0 => hpart (Nat.dvd_of_mod_eq_zero h0)
  have hlt : want % bps < bps := Nat.mod_lt want hpos
  obtain ⟨fuel', h'⟩ := loopAt_reach (i := want / bps) hwant (fun j hj => by
    have hroom : (j + 1) * bps ≤ want / bps * bps := Nat.mul_le_mul_right bps hj
    have hposition := Nat.mul_le_mul_right bps (position_mono (c := c) (n := n) (Nat.le_of_lt hj))
    rw [Nat.succ_mul] at hroom ⊢
    omega) h
  unfold loopAt rcLoop at h'
  rw [if_neg (by omega)] at h'
  rcases fuel' with - | fuel'
  · cases h'
  · have hout := rcLoop_out h'
    rw [List.length_append, length_frames, length_frameAt] at hout
    omega

/-! ### Calls -/

/-- A call of a rate converter. -/
structure Call where
  rc : RateConvert
  bps : Nat
  currentSample : Nat
  nextSample : Nat
  src : List UInt8
  want : Nat
  avail : Nat
  want_lt : want < 2 ^ 32
  avail_lt : avail < 2 ^ 32

namespace Call
variable (k : Call)

/-- What the converter returns. -/
def run (fuel : Nat) : Exec Converted :=
  match k.rc with
  | .null => rcNull k.currentSample k.src k.want k.avail
  | .frames => rcX fuel k.bps k.currentSample k.nextSample k.src k.want k.avail

/-- The converter comes to an end, writes no more than there is room for, uses up no more than there is, and whole
frames of both. -/
def Respects : Prop :=
  ∃ fuel o, k.run fuel = .ok o ∧ o.bytes.length ≤ k.want ∧ o.used ≤ k.avail ∧ k.bps ∣ o.bytes.length ∧ k.bps ∣ o.used

/-- The source is used up by the frames that fit and is a whole number of frames, or it is not and the room is; and
the counts of `rcNull` are no negative numbers. -/
def Ok : Prop :=
  match k.rc with
  | .null => k.want < 2 ^ 31 ∧ k.avail < 2 ^ 31 ∧ k.bps ∣ min k.want k.avail
  | .frames =>
    if k.avail ≤ position k.currentSample k.nextSample (k.want / k.bps) * k.bps then k.bps ∣ k.avail else k.bps ∣ k.want

instance : Decidable k.Ok := by
  unfold Ok
  split <;> infer_instance

/-- Exactly such calls keep to their bounds. -/
theorem respects_iff_ok : k.Respects ↔ k.Ok := by
  obtain ⟨rc, bps, c, n, src, want, avail, hwant, havail⟩ := k
  rcases rc with - | -
  · dsimp only [Respects, Ok, run]
    constructor
    · rintro ⟨-, o, h, -, -, hbytes, -⟩
      obtain ⟨hw, ha⟩ := rcNull_ok hwant havail h
      rw [rcNull_eq hw ha] at h
      cases h
      rw [List.length_map, List.length_range] at hbytes
      exact ⟨hw, ha, hbytes⟩
    · rintro ⟨hw, ha, hdvd⟩
      refine ⟨0, _, rcNull_eq hw ha, ?_⟩
      rw [List.length_map, List.length_range]
      exact ⟨Nat.min_le_left .., Nat.min_le_right .., hdvd, hdvd⟩
  · dsimp only [Respects, Ok, run]
    split
    · rename_i hend
      obtain ⟨k, hk, hstops⟩ := exists_stopsAt (.inr hend)
      have hused : (converted src bps c n k avail).used = avail := by
        refine Nat.min_eq_right ?_
        rcases hstops.stop with hfull | hstop
        · rw [← hfull] at hend
          rcases Nat.eq_zero_or_pos bps with rfl | hpos
          · rw [Nat.mul_zero] at hend ⊢
            exact hend
          · rwa [Nat.mul_div_cancel k hpos] at hend
        · exact hstop
      constructor
      · rintro ⟨fuel, o, h, -, -, -, hdvd⟩
        rw [rcX_unique hwant hstops h, hused] at hdvd
        exact hdvd
      · intro hdvd
        refine ⟨k, _, rcX_eq hwant hstops (Nat.le_refl k), ?_, Nat.min_le_right .., ?_, ?_⟩
        · exact (length_frames ..).trans_le hstops.room
        · exact ⟨k, (length_frames ..).trans (Nat.mul_comm ..)⟩
        · rw [hused]
          exact hdvd
    · rename_i hleft
      have hlt : position c n (want / bps) * bps < avail := Nat.lt_of_not_le hleft
      constructor
      · rintro ⟨fuel, o, h, hle, -⟩
        by_contra hpart
        exact absurd (rcX_overrun hwant hpart hlt h) (Nat.not_lt.2 hle)
      · intro hdvd
        obtain ⟨k, hk, hstops⟩ := @exists_stopsAt c n bps want avail (.inl hdvd)
        have hposition := Nat.mul_le_mul_right bps (position_mono (c := c) (n := n) hk)
        refine ⟨k, _, rcX_eq hwant hstops (Nat.le_refl k), ?_, Nat.min_le_right .., ?_, ?_⟩
        · exact (length_frames ..).trans_le hstops.room
        · exact ⟨k, (length_frames ..).trans (Nat.mul_comm ..)⟩
        · have hused : (converted src bps c n k avail).used = position c n k * bps := Nat.min_eq_left (by omega)
          rw [hused]
          exact ⟨_, Nat.mul_comm ..⟩

end Call

end

end Nas
