import Nas.Loop
import Nas.Mix

/-!
# Converting the rate of a sound

`rateConvert` of `auconvert.c` goes through the data of a sound with a phase: a sample is read while it is not negative,
and the last one that was read is written. What it counts in are samples of one track, not frames, so that the sample
with index `k` of the result is that with index `⌊k * inRate / outRate⌋` of the source whatever track these belong to.
-/

namespace Nas.SoundRate
open Turn Mix

/-- The sounds `in` and `out` as far as `rateConvert` looks at them, and how much data there is, whole frames. -/
structure Rates where
  tracks : Nat
  inRate : Nat
  outRate : Nat
  /-- `SoundBytesPerSample(out)` -/
  size : Nat
  frames : Nat
  tracks_pos : 0 < tracks
  inRate_pos : 0 < inRate
  outRate_pos : 0 < outRate
  size_pos : 0 < size
  inRate_lt : inRate < 2 ^ 31
  outRate_lt : outRate < 2 ^ 31
  numBytes_lt : frames * tracks * size < 2 ^ 31

/-- The variables of `rateConvert`, and the blocks that were written. `data` is what the pointer has in front of it. -/
structure Converting where
  phase : Int := 0
  numBytes : Int
  data : List UInt8
  last : List UInt8 := []
  written : List (List UInt8) := []
deriving DecidableEq, Repr

variable (p : Rates)

/-- A turn of the inner loop, which may return. -/
def reading (s : Converting) : Exec (Turn Converting (Converting × Bool)) :=
  if s.phase < 0 then .ok (.stop (s, false))
  else if s.numBytes = 0 then .ok (.stop (s, true))
  else do
    let phase ← int32 (s.phase - p.outRate)
    let numBytes ← int32 (s.numBytes - p.size)
    if s.data.length < p.size then .error .fault
    else .ok (.next { s with phase, numBytes, last := s.data.take p.size, data := s.data.drop p.size })

/-- A turn of the outer loop. The inner one has no more turns than there are bytes. -/
def writing (s : Converting) : Exec (Turn Converting Converting) :=
  if s.numBytes = 0 then .ok (.stop s)
  else do
    let (s, returned) ← loop (reading p) (s.data.length + 1) s
    if returned then .ok (.stop s)
    else do
      let phase ← int32 (s.phase + p.inRate)
      .ok (.next { s with phase, written := s.written ++ [s.last] })

/-- `rateConvert`, where every block can be written. -/
def rateConvert (fuel : Nat) (data : List UInt8) : Exec (List (List UInt8)) :=
  (·.written) <$> loop (writing p) fuel { numBytes := data.length, data }

/-! ### The samples that are written -/

namespace Rates

/-- The samples of the source. -/
def samples : Nat := p.frames * p.tracks

/-- Where the source is when so many samples have been written. -/
def position (k : Nat) : Nat := k * p.inRate / p.outRate

/-- How many samples have been read then. -/
def read (k : Nat) : Nat := if k = 0 then 0 else p.position (k - 1) + 1

variable {p} {k c fuel : Nat} {data : List UInt8}

theorem position_spec (k : Nat) : p.position k * p.outRate ≤ k * p.inRate ∧ k * p.inRate < p.position k * p.outRate + p.outRate := by
  have hdiv := Nat.div_add_mod' (k * p.inRate) p.outRate
  have hmod := Nat.mod_lt (k * p.inRate) p.outRate_pos
  rw [← position] at hdiv
  omega

theorem position_mono {j : Nat} (h : j ≤ k) : p.position j ≤ p.position k :=
  Nat.div_le_div_right (Nat.mul_le_mul_right _ h)

theorem read_le (k : Nat) : p.read k ≤ p.position k + 1 := by
  unfold read
  split
  · exact Nat.zero_le _
  · exact Nat.succ_le_succ (position_mono (Nat.sub_le k 1))

/-- The phase is less than a step when so much has been read. -/
theorem read_phase (k : Nat) : k * p.inRate < p.read k * p.outRate + p.inRate := by
  unfold read
  split
  · rename_i h
    rw [h]
    have := p.inRate_pos
    omega
  · obtain ⟨k, rfl⟩ : ∃ j, k = j + 1 := ⟨k - 1, by omega⟩
    have := (p.position_spec k).2
    rw [Nat.succ_mul, Nat.succ_mul, Nat.add_sub_cancel]
    omega

end Rates

/-- A sample of the data. -/
def sampleAt (data : List UInt8) (j : Nat) : List UInt8 := (data.drop (j * p.size)).take p.size

/-- The variables when `k` samples have been written and `c` read. -/
def at' (data : List UInt8) (k c : Nat) : Converting where
  phase := k * p.inRate - c * p.outRate
  numBytes := ((p.samples - c) * p.size : Nat)
  data := data.drop (c * p.size)
  last := if c = 0 then [] else sampleAt p data (c - 1)
  written := (List.range k).map fun j => sampleAt p data (p.position j)

variable {p} {k c fuel : Nat} {data : List UInt8}

theorem reading_stop (h : p.position k < c) : reading p (at' p data k c) = .ok (.stop (at' p data k c, false)) := by
  have hspec := (p.position_spec k).2
  have hle : (p.position k + 1) * p.outRate ≤ c * p.outRate := Nat.mul_le_mul_right _ h
  rw [Nat.succ_mul] at hle
  refine if_pos ?_
  dsimp only [at']
  omega

theorem reading_end (h : p.samples ≤ p.position k) :
    reading p (at' p data k p.samples) = .ok (.stop (at' p data k p.samples, true)) := by
  have hspec := (p.position_spec k).1
  have hle : p.samples * p.outRate ≤ p.position k * p.outRate := Nat.mul_le_mul_right _ h
  refine (if_neg ?_).trans (if_pos ?_)
  · dsimp only [at']
    omega
  · dsimp only [at']
    rw [Nat.sub_self]
    simp

theorem reading_next (hdata : data.length = p.samples * p.size) (hread : p.read k ≤ c) (hc : c ≤ p.position k)
    (hlt : c < p.samples) : reading p (at' p data k c) = .ok (.next (at' p data k (c + 1))) := by
  have hspec := (p.position_spec k).1
  have hphase := p.read_phase k
  have hle : c * p.outRate ≤ p.position k * p.outRate := Nat.mul_le_mul_right _ hc
  have hle' : p.read k * p.outRate ≤ c * p.outRate := Nat.mul_le_mul_right _ hread
  have hin := p.inRate_lt
  have hout := p.outRate_lt
  have hsize := p.size_pos
  have htotal := p.numBytes_lt
  have hleft : (p.samples - c) * p.size = (p.samples - (c + 1)) * p.size + p.size := by
    rw [← Nat.succ_mul]
    congr 1
    omega
  have hbound : (p.samples - c) * p.size ≤ p.frames * p.tracks * p.size := Nat.mul_le_mul_right _ (Nat.sub_le ..)
  have hlen : (data.drop (c * p.size)).length = (p.samples - c) * p.size := by
    rw [List.length_drop, hdata, Nat.sub_mul]
  unfold reading
  rw [if_neg, if_neg]
  · have hphase' : int32 ((at' p data k c).phase - p.outRate) = .ok ((at' p data k (c + 1)).phase) := by
      dsimp only [at']
      rw [int32_ok]
      · congr 1
        push_cast
        ring
      · unfold Mix.Int32
        omega
    have hnum : int32 ((at' p data k c).numBytes - p.size) = .ok ((at' p data k (c + 1)).numBytes) := by
      dsimp only [at']
      rw [hleft, int32_ok]
      · congr 1
        push_cast
        ring
      · unfold Mix.Int32
        omega
    rw [hphase', Exec.ok_bind, hnum, Exec.ok_bind, if_neg]
    · congr 2
      dsimp only [at']
      rw [if_neg (Nat.succ_ne_zero c), Nat.add_sub_cancel, List.drop_drop, Nat.succ_mul]
      rfl
    · dsimp only [at']
      rw [hlen]
      omega
  · dsimp only [at']
    have : 0 < (p.samples - c) * p.size := Nat.mul_pos (by omega) hsize
    omega
  · dsimp only [at']
    omega

/-- The inner loop reads up to the sample that is to be written, or to the end. -/
theorem reading_loop (hdata : data.length = p.samples * p.size) (hread : p.read k ≤ c)
    (hc : c ≤ min (p.position k + 1) p.samples) (hfuel : min (p.position k + 1) p.samples - c < fuel) :
    loop (reading p) fuel (at' p data k c) = .ok (if p.position k < p.samples then (at' p data k (p.position k + 1), false)
      else (at' p data k p.samples, true)) := by
  induction fuel generalizing c with
  | zero => omega
  | succ fuel ih =>
    rw [loop]
    by_cases hstop : p.position k < c
    · obtain rfl : c = p.position k + 1 := by omega
      rw [reading_stop hstop, if_pos (by omega)]
      rfl
    · by_cases hend : c = p.samples
      · subst hend
        rw [reading_end (by omega), if_neg (by omega)]
        rfl
      · rw [reading_next hdata hread (by omega) (by omega)]
        exact ih (by omega) (by omega) (by omega)

/-- The sample with this index is the first that is not written. -/
structure Ends (p : Rates) (w : Nat) : Prop where
  before : ∀ k < w, p.position k < p.samples ∧ p.read k < p.samples
  stop : p.samples ≤ p.position w ∨ p.samples ≤ p.read w

theorem exists_ends (p : Rates) : ∃ w, Ends p w := by
  have hex : ∃ w, p.samples ≤ p.position w ∨ p.samples ≤ p.read w := by
    refine ⟨p.samples * p.outRate, .inl ?_⟩
    have hle : p.samples * p.outRate ≤ p.samples * p.outRate * p.inRate := Nat.le_mul_of_pos_right _ p.inRate_pos
    calc p.samples = p.samples * p.outRate / p.outRate := (Nat.mul_div_cancel _ p.outRate_pos).symm
      _ ≤ p.position (p.samples * p.outRate) := Nat.div_le_div_right hle
  refine ⟨Nat.find hex, fun k hk => ?_, Nat.find_spec hex⟩
  have := Nat.find_min hex hk
  omega

/-- The outer loop goes on while there are samples to read, and writes them where they are due. -/
theorem writing_loop (hdata : data.length = p.samples * p.size) {w : Nat} (hw : Ends p w) (hk : k ≤ w)
    (hread : p.read k ≤ p.samples) {n : Nat} (hn : w - k < n) :
    (·.written) <$> loop (writing p) n (at' p data k (p.read k)) =
      .ok ((List.range w).map fun j => sampleAt p data (p.position j)) := by
  induction n generalizing k with
  | zero => omega
  | succ n ih =>
    rw [loop]
    have hzero : (at' p data k (p.read k)).numBytes = 0 ↔ p.read k = p.samples := by
      have := p.size_pos
      dsimp only [at']
      rw [Nat.cast_eq_zero, Nat.mul_eq_zero]
      omega
    by_cases hend : p.read k = p.samples
    · -- all samples are read, and the last of them is written
      have hkw : k = w := by
        by_contra hne
        have := (hw.before k (by omega)).2
        omega
      rw [writing, if_pos (hzero.2 hend), hkw]
      rfl
    · have hbytes : p.samples - p.read k ≤ (at' p data k (p.read k)).data.length := by
        dsimp only [at']
        rw [List.length_drop, hdata, ← Nat.sub_mul]
        exact Nat.le_mul_of_pos_right _ p.size_pos
      rw [writing, if_neg (mt hzero.1 hend), reading_loop hdata le_rfl (le_min (p.read_le k) hread) (by omega)]
      by_cases hlt : p.position k < p.samples
      · have hkw : k < w := by
          by_contra hge
          obtain rfl : k = w := by omega
          have := hw.stop
          omega
        have hnext : p.read (k + 1) = p.position k + 1 := if_neg (Nat.succ_ne_zero k)
        have hphase : int32 ((at' p data k (p.position k + 1)).phase + p.inRate) =
            .ok ((at' p data (k + 1) (p.position k + 1)).phase) := by
          have hspec := p.position_spec k
          have hin := p.inRate_lt
          have hout := p.outRate_lt
          dsimp only [at']
          rw [int32_ok]
          · congr 1
            push_cast
            ring
          · unfold Mix.Int32
            rw [show ((p.position k + 1 : Nat) : Int) * p.outRate = ((p.position k * p.outRate + p.outRate : Nat) : Int) by
              push_cast
              ring]
            omega
        have hlast : { at' p data k (p.position k + 1) with
            phase := (at' p data (k + 1) (p.position k + 1)).phase
            written := (at' p data k (p.position k + 1)).written ++ [(at' p data k (p.position k + 1)).last] } =
            at' p data (k + 1) (p.position k + 1) := by
          unfold at'
          rw [List.range_succ, List.map_append, if_neg (Nat.succ_ne_zero _), Nat.add_sub_cancel]
          rfl
        rw [if_pos hlt, Exec.ok_bind]
        dsimp only
        rw [if_neg (by simp), hphase, Exec.ok_bind, hlast, ← hnext]
        exact ih (by omega) (by rw [hnext]; omega) (by omega)
      · have hkw : k = w := by
          by_contra hne
          exact hlt (hw.before k (by omega)).1
        rw [if_neg hlt, Exec.ok_bind, hkw]
        rfl

/-- What is written are the samples at `⌊k * inRate / outRate⌋`, as many as there are. -/
theorem rateConvert_eq (hdata : data.length = p.samples * p.size) {w : Nat} (hw : Ends p w) :
    rateConvert p (w + 1) data = .ok ((List.range w).map fun j => sampleAt p data (p.position j)) := by
  have hstart : ({ numBytes := data.length, data } : Converting) = at' p data 0 (p.read 0) := by
    simp [at', Rates.read, hdata]
  unfold rateConvert
  rw [hstart]
  exact writing_loop hdata hw (Nat.zero_le w) (Nat.zero_le _) (by omega)

theorem rateConvert_unique (hdata : data.length = p.samples * p.size) {w : Nat} (hw : Ends p w)
    {written : List (List UInt8)} (h : rateConvert p fuel data = .ok written) :
    written = (List.range w).map fun j => sampleAt p data (p.position j) := by
  have heq := rateConvert_eq hdata hw
  unfold rateConvert at h heq
  rw [Exec.map_eq_ok] at h heq
  obtain ⟨s, hs, rfl⟩ := h
  obtain ⟨s', hs', hwritten⟩ := heq
  have hmax := loop_mono (by rw [hs]; nofun) (Nat.le_max_left fuel (w + 1))
  rw [loop_mono (by rw [hs']; nofun) (Nat.le_max_right fuel (w + 1)), hs', hs] at hmax
  cases hmax
  exact hwritten

/-! ### Frames -/

/-- The result is whole frames, and each of them is a frame of the source on every track, that at
`⌊k * inRate / outRate⌋`; there are as many of them as the source is long. -/
structure Kept (p : Rates) (data : List UInt8) (written : List (List UInt8)) (n : Nat) : Prop where
  whole : written.length = n * p.tracks
  frame : ∀ k < n, ∀ t < p.tracks, written[k * p.tracks + t]? = some (sampleAt p data (p.position k * p.tracks + t))
  inside : ∀ k < n, p.position k < p.frames
  enough : 0 < p.frames → (p.frames - 1) * p.outRate / p.inRate + 1 ≤ n

/-- The conversion ends and keeps the tracks together, whatever the data. -/
def KeepsTracks (p : Rates) : Prop :=
  ∀ data : List UInt8, data.length = p.samples * p.size →
    ∃ fuel written n, rateConvert p fuel data = .ok written ∧ Kept p data written n

/-- There is one track; or so little data, for rates that are so close, that no sample is left out. -/
def Together (p : Rates) : Prop :=
  p.tracks = 1 ∨ p.frames = 0 ∨ p.outRate ≤ p.inRate ∧ (p.samples - 1) * (p.inRate - p.outRate) < p.outRate

/-- Data in which only one sample is not zero. -/
def marked (p : Rates) (a : Nat) : List UInt8 :=
  (List.range (p.samples * p.size)).map fun x => if x / p.size = a then 1 else 0

theorem sampleAt_marked {a b : Nat} (hb : b < p.samples) :
    (sampleAt p (marked p a) b).head? = some (if b = a then 1 else 0) := by
  have hpos := p.size_pos
  have hlt : b * p.size < p.samples * p.size := Nat.mul_lt_mul_of_pos_right hb hpos
  rw [sampleAt, List.head?_take, if_neg (by omega), List.head?_drop, marked, List.getElem?_map, List.getElem?_range hlt,
    Option.map_some, Nat.mul_div_cancel _ hpos]

namespace KeepsTracks

/-- The data do not matter: it is the indices that are those of a frame. -/
theorem position_eq (h : KeepsTracks p) {w : Nat} (hw : Ends p w) : ∃ n, w = n * p.tracks ∧ (0 < p.frames → 0 < n) ∧
    ∀ k t, k < n → t < p.tracks → p.position (k * p.tracks + t) = p.position k * p.tracks + t := by
  have hkept : ∀ data : List UInt8, data.length = p.samples * p.size → ∃ n, w = n * p.tracks ∧
      Kept p data ((List.range w).map fun j => sampleAt p data (p.position j)) n := by
    intro data hdata
    obtain ⟨fuel, written, n, hwritten, hkept⟩ := h data hdata
    obtain rfl := rateConvert_unique hdata hw hwritten
    refine ⟨n, ?_, hkept⟩
    have := hkept.whole
    rwa [List.length_map, List.length_range] at this
  obtain ⟨n, hn, hzero⟩ := hkept (marked p 0) (by rw [marked, List.length_map, List.length_range])
  refine ⟨n, hn, fun hpos => Nat.lt_of_lt_of_le (Nat.succ_pos _) (hzero.enough hpos), fun k t hk ht => ?_⟩
  have hj : k * p.tracks + t < w :=
    calc k * p.tracks + t < (k + 1) * p.tracks := by rw [Nat.succ_mul]; omega
      _ ≤ n * p.tracks := Nat.mul_le_mul_right _ hk
      _ = w := hn.symm
  have hin : p.position k * p.tracks + t < p.samples :=
    calc p.position k * p.tracks + t < (p.position k + 1) * p.tracks := by rw [Nat.succ_mul]; omega
      _ ≤ p.frames * p.tracks := Nat.mul_le_mul_right _ (hzero.inside k hk)
  by_contra hne
  obtain ⟨n', hn', hkept'⟩ := hkept (marked p (p.position (k * p.tracks + t)))
    (by rw [marked, List.length_map, List.length_range])
  obtain rfl : n' = n := Nat.eq_of_mul_eq_mul_right p.tracks_pos (hn'.symm.trans hn)
  have hframe := hkept'.frame k hk t ht
  rw [List.getElem?_map, List.getElem?_range hj, Option.map_some, Option.some.injEq] at hframe
  have hhead := congrArg List.head? hframe
  rw [sampleAt_marked (hw.before _ hj).1, sampleAt_marked hin, if_pos rfl, if_neg (Ne.symm hne)] at hhead
  cases hhead

theorem together (h : KeepsTracks p) : Together p := by
  by_cases hone : p.tracks = 1
  · exact .inl hone
  by_cases hzero : p.frames = 0
  · exact .inr (.inl hzero)
  obtain ⟨w, hw⟩ := exists_ends p
  obtain ⟨n, hn, hpos, heq⟩ := h.position_eq hw
  have htracks := p.tracks_pos
  have hn0 := hpos (by omega)
  have hle : p.tracks ≤ n * p.tracks := Nat.le_mul_of_pos_left _ hn0
  have hfirst : p.position 0 = 0 := by rw [Rates.position, Nat.zero_mul, Nat.zero_div]
  -- a frame begins where it does in the source only if all in front of it are whole
  have hsame : ∀ j < w, p.position j = j := by
    intro j
    induction j using Nat.strongRecOn with
    | ind j ih =>
      intro hj
      have hdiv := Nat.div_add_mod' j p.tracks
      have hmod := Nat.mod_lt j htracks
      have hk : j / p.tracks < n := Nat.div_lt_of_lt_mul (by rw [Nat.mul_comm]; omega)
      have hposition := heq (j / p.tracks) (j % p.tracks) hk hmod
      rw [hdiv] at hposition
      rcases Nat.eq_zero_or_pos j with rfl | hj0
      · exact hfirst
      · rw [hposition, ih (j / p.tracks) (Nat.div_lt_self hj0 (by omega)) (by
          have := Nat.div_le_self j p.tracks
          omega), hdiv]
  have hw2 : 2 ≤ w := by omega
  have hclose := p.position_spec 1
  rw [hsame 1 (by omega)] at hclose
  have hlast := p.position_spec (w - 1)
  rw [hsame (w - 1) (by omega)] at hlast
  have hlt := (hw.before (w - 1) (by omega)).1
  rw [hsame (w - 1) (by omega)] at hlt
  have hend : p.samples ≤ w + 1 := by
    have hread : p.read w = w := by
      rw [Rates.read, if_neg (by omega), hsame (w - 1) (by omega)]
      omega
    have hnext := (p.position_spec w).1
    obtain ⟨v, rfl⟩ : ∃ v, w = v + 1 := ⟨w - 1, by omega⟩
    rw [Nat.succ_mul, Nat.add_sub_cancel] at *
    have hposition : p.position (v + 1) < v + 3 := by
      refine Nat.lt_of_mul_lt_mul_right (a := p.outRate) ?_
      rw [show (v + 3) * p.outRate = v * p.outRate + 3 * p.outRate by ring]
      omega
    have := hw.stop
    omega
  have hsamples : p.samples = w := by
    by_contra hne
    have hdvd : p.tracks ∣ n * p.tracks + 1 := by
      rw [← hn, show w + 1 = p.frames * p.tracks from by rw [← Rates.samples]; omega]
      exact Nat.dvd_mul_left ..
    have := Nat.le_of_dvd Nat.one_pos ((Nat.dvd_add_right (Nat.dvd_mul_left ..)).1 hdvd)
    omega
  refine .inr (.inr ⟨by omega, ?_⟩)
  rw [hsamples, Nat.mul_sub]
  omega

end KeepsTracks

namespace Together

theorem keepsTracks (h : Together p) : KeepsTracks p := by
  have htracks := p.tracks_pos
  have hout := p.outRate_pos
  intro data hdata
  rcases h with hone | hzero | ⟨hrates, hclose⟩
  · -- a frame is a sample
    obtain ⟨w, hw⟩ := exists_ends p
    have hsamples : p.samples = p.frames := by rw [Rates.samples, hone, Nat.mul_one]
    refine ⟨w + 1, _, w, rateConvert_eq hdata hw, ⟨?_, fun k hk t ht => ?_, fun k hk => ?_, fun hpos => ?_⟩⟩
    · rw [List.length_map, List.length_range, hone, Nat.mul_one]
    · obtain rfl : t = 0 := by omega
      rw [hone, Nat.mul_one, Nat.mul_one, Nat.add_zero, Nat.add_zero, List.getElem?_map, List.getElem?_range hk]
      rfl
    · rw [← hsamples]
      exact (hw.before k hk).1
    · by_contra hlt
      have hle : w ≤ (p.frames - 1) * p.outRate / p.inRate := by omega
      have hmul : w * p.inRate ≤ (p.frames - 1) * p.outRate := (Nat.le_div_iff_mul_le p.inRate_pos).1 hle
      rcases hw.stop with hstop | hstop
      · have hposition : p.position w ≤ p.frames - 1 :=
          Nat.div_le_of_le_mul (by rw [Nat.mul_comm p.outRate]; exact hmul)
        omega
      · have hw0 : w ≠ 0 := fun hw0 => by
          rw [hw0, Rates.read, if_pos rfl] at hstop
          omega
        rw [Rates.read, if_neg hw0] at hstop
        have hspec := (p.position_spec (w - 1)).1
        have hle' : (p.frames - 1) * p.outRate ≤ p.position (w - 1) * p.outRate := Nat.mul_le_mul_right _ (by omega)
        have hstep : (w - 1) * p.inRate + p.inRate = w * p.inRate := by
          rw [← Nat.succ_mul]
          congr 1
          omega
        have := p.inRate_pos
        omega
  · -- there is nothing to convert
    have hsamples : p.samples = 0 := by rw [Rates.samples, hzero, Nat.zero_mul]
    have hw : Ends p 0 := ⟨fun k hk => absurd hk (Nat.not_lt_zero k), .inl (by rw [hsamples]; exact Nat.zero_le _)⟩
    exact ⟨1, _, 0, rateConvert_eq hdata hw, ⟨(Nat.zero_mul _).symm, fun k hk => absurd hk (Nat.not_lt_zero k),
      fun k hk => absurd hk (Nat.not_lt_zero k), fun hpos => absurd hzero hpos.ne'⟩⟩
  · -- every sample is written once
    have hsame : ∀ j < p.samples, p.position j = j := fun j hj => by
      have hle : j * (p.inRate - p.outRate) ≤ (p.samples - 1) * (p.inRate - p.outRate) := Nat.mul_le_mul_right _ (by omega)
      have hmul : j * p.inRate = p.outRate * j + j * (p.inRate - p.outRate) := by
        rw [Nat.mul_sub, Nat.mul_comm p.outRate]
        have := Nat.mul_le_mul_left j hrates
        omega
      rw [Rates.position, hmul, Nat.mul_add_div hout, Nat.div_eq_of_lt (by omega), Nat.add_zero]
    have hread : ∀ j ≤ p.samples, p.read j = j := fun j hj => by
      unfold Rates.read
      split
      · exact (‹j = 0›).symm
      · rw [hsame (j - 1) (by omega)]
        omega
    have hw : Ends p p.samples :=
      ⟨fun k hk => by rw [hsame k hk, hread k hk.le]; exact ⟨hk, hk⟩, .inr (hread p.samples le_rfl).ge⟩
    have hframe : ∀ k t, k < p.frames → t < p.tracks → k * p.tracks + t < p.samples := fun k t hk ht =>
      calc k * p.tracks + t < (k + 1) * p.tracks := by rw [Nat.succ_mul]; omega
        _ ≤ p.frames * p.tracks := Nat.mul_le_mul_right _ hk
    have hinside : ∀ k < p.frames, p.position k = k := fun k hk =>
      hsame k (hk.trans_le (Nat.le_mul_of_pos_right _ htracks))
    refine ⟨p.samples + 1, _, p.frames, rateConvert_eq hdata hw, ⟨?_, fun k hk t ht => ?_, fun k hk => ?_, fun hpos => ?_⟩⟩
    · rw [List.length_map, List.length_range, Rates.samples]
    · rw [List.getElem?_map, List.getElem?_range (hframe k t hk ht), Option.map_some, hsame _ (hframe k t hk ht), hinside k hk]
    · rwa [hinside k hk]
    · have hle : (p.frames - 1) * p.outRate / p.inRate ≤ p.frames - 1 :=
        Nat.div_le_of_le_mul (by rw [Nat.mul_comm]; exact Nat.mul_le_mul_right _ hrates)
      omega

end Together

/-- Tracks are kept together just where there is one, or no sample is left out or written twice. -/
theorem keepsTracks_iff (p : Rates) : KeepsTracks p ↔ Together p := ⟨KeepsTracks.together, Together.keepsTracks⟩

/-- Two frames of stereo at half the rate. -/
def halved : Rates := ⟨2, 8000, 4000, 1, 2, by decide, by decide, by decide, by decide, by decide, by decide, by decide⟩

/-- The left samples become one frame, with the later of them on the right. -/
theorem halved_mixed : rateConvert halved 3 [1, 2, 3, 4] = .ok [[1], [3]] ∧ ¬ ∀ p, KeepsTracks p := by
  have hrun : rateConvert halved 3 [1, 2, 3, 4] = .ok [[1], [3]] := by decide
  refine ⟨hrun, fun h => ?_⟩
  have htogether := (h halved).together
  revert htogether
  unfold Together
  decide

end Nas.SoundRate
