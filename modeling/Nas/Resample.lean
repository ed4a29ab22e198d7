import Nas.RateConvert
import Mathlib.Algebra.BigOperators.Ring.List
import Mathlib.Data.List.GetD

/-!
# Resampling piece by piece

`rc_x` takes what is wanted and what there is in pieces, and keeps where it is between two calls in the phase. Wherever
frames are cut, the pieces make what one call makes (`feed_eq`). A frame of a run that starts at phase 0 is where the step
says, unless the phase wraps around on the way: `resamples_iff`.
-/

namespace Nas

/-- Calls of `rc_x`, as long as there are pieces of the source. When a call has made what is wanted it goes on with the
next piece that is wanted; when all is made, what is left of the source is looked at no more but for a skip. -/
def feed (bps n fuel : Nat) : (calls c : Nat) → List (List UInt8) → List Nat → Exec (List UInt8 × Nat)
  | _, c, [], _ => .ok ([], c)
  | 0, _, _ :: _, _ => .error .fuel
  | calls + 1, c, s :: sources, wants => do
    let want := wants.headD 0
    let o ← rcX fuel bps c n s want s.length
    let wants := if o.bytes.length = want then wants.tail else (want - o.bytes.length) :: wants.tail
    if o.used = s.length then do
      let (out, c) ← feed bps n fuel calls o.currentSample sources wants
      .ok (o.bytes ++ out, c)
    else if wants = [] then .ok (o.bytes, o.currentSample)
    else do
      let (out, c) ← feed bps n fuel calls o.currentSample (s.drop o.used :: sources) wants
      .ok (o.bytes ++ out, c)

/-- What a run of `rc_x` with the step `n` is to make. -/
structure Resamples (n : Nat) : Prop where
  /-- Pieces make what one call makes, and leave the phase it leaves. -/
  pieces : ∀ (bps c : Nat) (sources : List (List UInt8)) (wants : List Nat), 0 < bps → (∀ s ∈ sources, bps ∣ s.length) →
    (∀ w ∈ wants, bps ∣ w) → wants.sum < 2 ^ 32 → sources.flatten.length < 2 ^ 32 →
    ∃ fuel calls o, (∀ fuel' calls', fuel ≤ fuel' → calls ≤ calls' →
        feed bps n fuel' calls' c sources wants = .ok (o.bytes, o.currentSample)) ∧
      rcX fuel bps c n sources.flatten wants.sum sources.flatten.length = .ok o
  /-- A frame that is made from phase 0 on is the one that is so many steps further. -/
  frame : ∀ (bps fuel : Nat) (src : List UInt8) (want : Nat) (o : Converted), 0 < bps → bps ∣ src.length → bps ∣ want →
    want < 2 ^ 32 → src.length < 2 ^ 32 → rcX fuel bps 0 n src want src.length = .ok o →
    ∀ k, (k + 1) * bps ≤ o.bytes.length →
      (k * n / 2 ^ 16 + 1) * bps ≤ src.length ∧ frameAt o.bytes (k * bps) bps = frameAt src (k * n / 2 ^ 16 * bps) bps

/-! ### Two calls -/

section
variable {bps c n want want' a d k j : Nat} {src src' : List UInt8}

/-- A call that has `d` frames comes to frame `k`. -/
structure FirstCall (bps c n want d k : Nat) : Prop where
  stops : StopsAt bps c n want (d * bps) k
  pos : 0 < bps

namespace FirstCall

theorem currentSample (h : FirstCall bps c n want d k) (src : List UInt8) :
    (converted src bps c n k (d * bps)).currentSample = fraction c n k + (position c n k - d) * 2 ^ 16 := by
  rw [converted, ← Nat.sub_mul, Nat.mul_div_cancel _ h.pos]

/-- The next call goes on where it was. -/
theorem phaseAt (h : FirstCall bps c n want d k) (src : List UInt8) (i : Nat) :
    position c n (k + i) = min (position c n k) d + position (converted src bps c n k (d * bps)).currentSample n i ∧
      fraction c n (k + i) = fraction (converted src bps c n k (d * bps)).currentSample n i := by
  have hlt := fraction_lt c n k
  refine phaseAt_add _ ?_ ?_ i
  · rw [h.currentSample]
    omega
  · rw [h.currentSample]
    omega

/-- The two stop where one does that has all. -/
theorem stopsAt (h : FirstCall bps c n want d k) (hd : d ≤ a) (hwant : want ≤ want') (src : List UInt8)
    (h' : StopsAt bps (converted src bps c n k (d * bps)).currentSample n (want' - k * bps)
      ((a - min (position c n k) d) * bps) j) : StopsAt bps c n want' (a * bps) (k + j) := by
  have hroom := h.stops.room
  have hsplit : a * bps = min (position c n k) d * bps + (a - min (position c n k) d) * bps := by
    rw [← Nat.add_mul]
    congr 1
    omega
  refine ⟨fun i hi => ?_, ?_, ?_⟩
  · by_cases hik : i < k
    · obtain ⟨hiroom, hiavail⟩ := h.stops.before i hik
      have := Nat.mul_le_mul_right bps hd
      exact ⟨by omega, by omega⟩
    · obtain ⟨i, rfl⟩ := Nat.exists_eq_add_of_le (Nat.le_of_not_lt hik)
      obtain ⟨hiroom, hiavail⟩ := h'.before i (by omega)
      rw [(h.phaseAt src i).1, Nat.add_mul, Nat.add_mul]
      omega
  · have := h'.room
    rw [Nat.add_mul]
    omega
  · have := h'.stop
    rw [(h.phaseAt src j).1, Nat.add_mul, Nat.add_mul]
    omega

/-- Where the second stops is where one stops that has all. -/
theorem phase (h : FirstCall bps c n want d k) (hd : d ≤ a) (src src' : List UInt8) (j : Nat) :
    (converted src' bps c n (k + j) (a * bps)).currentSample =
      (converted src' bps (converted src bps c n k (d * bps)).currentSample n j
        ((a - min (position c n k) d) * bps)).currentSample := by
  obtain ⟨hposition, hfraction⟩ := h.phaseAt src j
  generalize (converted src bps c n k (d * bps)).currentSample = c₁ at hposition hfraction ⊢
  have hskip : position c n (k + j) - a = position c₁ n j - (a - min (position c n k) d) := by omega
  rw [converted, converted, ← Nat.sub_mul, Nat.mul_div_cancel _ h.pos, ← Nat.sub_mul, Nat.mul_div_cancel _ h.pos, hfraction,
    hskip]

/-- The frames of the second are those of the source behind what was used up. -/
theorem frames (h : FirstCall bps c n want d k) (hsrc : src = src'.take (d * bps)) (j : Nat) :
    Nas.frames src' bps c n (k + j) = Nas.frames src bps c n k ++
      Nas.frames (src'.drop (min (position c n k) d * bps)) bps (converted src bps c n k (d * bps)).currentSample n j := by
  rw [frames_add]
  congr 1
  · refine frames_congr fun i hi => ?_
    have hi := (h.stops.before i hi).2
    have hframe : position c n i * bps + bps ≤ d * bps := by
      rw [← Nat.succ_mul]
      exact Nat.mul_le_mul_right bps (Nat.lt_of_mul_lt_mul_right hi)
    unfold frameAt
    refine List.map_congr_left fun m hm => ?_
    have hm := List.mem_range.1 hm
    rw [hsrc, List.getD_eq_getElem?_getD, List.getD_eq_getElem?_getD, List.getElem?_take_of_lt (by omega)]
  · refine List.flatMap_congr fun i _ => ?_
    rw [(h.phaseAt src i).1, Nat.add_mul]
    unfold frameAt
    refine List.map_congr_left fun m _ => ?_
    rw [List.getD_eq_getElem?_getD, List.getD_eq_getElem?_getD, List.getElem?_drop, Nat.add_assoc]

end FirstCall

end

/-! ### All calls -/

section
variable {bps c n k fuel calls : Nat} {sources : List (List UInt8)} {wants : List Nat}

theorem headD_add_sum_tail (l : List Nat) : l.headD 0 + l.tail.sum = l.sum := by
  rcases l with - | ⟨a, l⟩
  · rfl
  · rfl

theorem dvd_headD (h : ∀ w ∈ wants, bps ∣ w) : bps ∣ wants.headD 0 := by
  rcases wants with - | ⟨w, wants⟩
  · exact Nat.dvd_zero bps
  · exact h w List.mem_cons_self

theorem dvd_flatten_length (h : ∀ s ∈ sources, bps ∣ s.length) : bps ∣ sources.flatten.length := by
  rw [List.length_flatten]
  refine List.dvd_sum fun m hm => ?_
  obtain ⟨s, hs, rfl⟩ := List.mem_map.1 hm
  exact h s hs

theorem feed_nil : feed bps n fuel calls c [] wants = .ok ([], c) := by
  rcases calls with - | calls
  · rfl
  · rfl

/-- Without a source nothing is made and nothing is skipped. -/
theorem converted_nil (hpos : 0 < bps) (hstops : StopsAt bps c n wants.sum 0 k) :
    (converted [] bps c n k 0).bytes = [] ∧ (converted [] bps c n k 0).currentSample = c := by
  obtain rfl : k = 0 := by
    by_contra hk
    have := (hstops.before 0 (Nat.pos_of_ne_zero hk)).2
    omega
  refine ⟨rfl, ?_⟩
  rw [converted, position_zero, fraction_zero, Nat.sub_zero, Nat.mul_div_cancel _ hpos]
  exact (Nat.add_comm ..).trans (Nat.div_add_mod' c (2 ^ 16))

/-- The calls make what one call makes that has all of the source. -/
theorem feed_eq (hpos : 0 < bps) (hs : ∀ s ∈ sources, bps ∣ s.length) (hw : ∀ w ∈ wants, bps ∣ w)
    (hlt : wants.sum < 2 ^ 32) (hstops : StopsAt bps c n wants.sum sources.flatten.length k) (hfuel : k ≤ fuel)
    (hcalls : sources.length + wants.length ≤ calls) :
    feed bps n fuel calls c sources wants =
      .ok ((converted sources.flatten bps c n k sources.flatten.length).bytes,
        (converted sources.flatten bps c n k sources.flatten.length).currentSample) := by
  induction calls generalizing c k sources wants with
  | zero =>
    obtain rfl : sources = [] := List.eq_nil_of_length_eq_zero (by omega)
    obtain ⟨hbytes, hphase⟩ := converted_nil hpos hstops
    rw [feed_nil]
    exact congrArg Except.ok (Prod.ext hbytes.symm hphase.symm)
  | succ calls ih =>
    rcases sources with - | ⟨s, sources⟩
    · obtain ⟨hbytes, hphase⟩ := converted_nil hpos hstops
      rw [feed_nil]
      exact congrArg Except.ok (Prod.ext hbytes.symm hphase.symm)
    obtain ⟨d, hd⟩ := hs s List.mem_cons_self
    obtain ⟨a, ha⟩ := dvd_flatten_length hs
    rw [Nat.mul_comm] at hd ha
    have hda : d ≤ a := by
      refine Nat.le_of_mul_le_mul_right ?_ hpos
      rw [← hd, ← ha, List.flatten_cons, List.length_append]
      exact Nat.le_add_right ..
    have hsum := headD_add_sum_tail wants
    have hhead := dvd_headD hw
    -- the first call
    obtain ⟨k₁, -, hk₁⟩ := @exists_stopsAt c n bps (wants.headD 0) s.length (.inl hhead)
    have hfirst : FirstCall bps c n (wants.headD 0) d k₁ := ⟨by rwa [← hd], hpos⟩
    have hroom := hk₁.room
    -- and all others
    obtain ⟨j, -, hj⟩ := @exists_stopsAt (converted s bps c n k₁ (d * bps)).currentSample n bps (wants.sum - k₁ * bps)
      ((a - min (position c n k₁) d) * bps)
      (.inl (Nat.dvd_sub (List.dvd_sum hw) (Nat.dvd_mul_left bps k₁)))
    have hall := hfirst.stopsAt hda (by omega) s hj
    rw [ha] at hstops ⊢
    obtain rfl := hstops.unique hall
    have hcall : rcX fuel bps c n s (wants.headD 0) s.length = .ok (converted s bps c n k₁ (d * bps)) := by
      rw [hd]
      exact rcX_eq (by omega) hfirst.stops (by omega)
    have hcurrent := hfirst.currentSample s
    have hmade : (converted s bps c n k₁ (d * bps)).bytes = frames s bps c n k₁ := rfl
    have hlength : (converted s bps c n k₁ (d * bps)).bytes.length = k₁ * bps := length_frames ..
    have hused : (converted s bps c n k₁ (d * bps)).used = min (position c n k₁) d * bps := by
      rw [converted]
      exact (Nat.mul_min_mul_right ..)
    have htake : s = (s :: sources).flatten.take (d * bps) := by
      rw [List.flatten_cons, ← hd, List.take_left']
      rfl
    have hbytes := hfirst.frames htake j
    have hphase := hfirst.phase hda s (s :: sources).flatten j
    generalize converted s bps c n k₁ (d * bps) = o at hcall hcurrent hmade hlength hused hbytes hphase hj
    have hnext : ∀ sources' wants', (∀ s ∈ sources', bps ∣ s.length) → (∀ w ∈ wants', bps ∣ w) →
        sources'.flatten = (s :: sources).flatten.drop o.used → wants'.sum = wants.sum - k₁ * bps →
        sources'.length + wants'.length ≤ calls →
        feed bps n fuel calls o.currentSample sources' wants' =
          .ok (Nas.frames ((s :: sources).flatten.drop o.used) bps o.currentSample n j,
            (converted (s :: sources).flatten bps c n (k₁ + j) (a * bps)).currentSample) := by
      intro sources' wants' hs' hw' hflatten hsum' hcalls'
      have hlength' : sources'.flatten.length = (a - min (position c n k₁) d) * bps := by
        rw [hflatten, List.length_drop, ha, hused, Nat.sub_mul]
      rw [ih hs' hw' (by omega) (by rw [hsum', hlength']; exact hj) (by omega) hcalls', hlength', hphase, hflatten]
      rfl
    have htogether : (converted (s :: sources).flatten bps c n (k₁ + j) (a * bps)).bytes =
        o.bytes ++ frames ((s :: sources).flatten.drop o.used) bps o.currentSample n j := by
      rw [hused, hmade]
      exact hbytes
    have htail : ∀ w ∈ wants.tail, bps ∣ w := fun w hm => hw w (List.mem_of_mem_tail hm)
    rw [List.length_cons] at hcalls
    refine Exec.bind_eq_ok.2 ⟨o, hcall, ?_⟩
    dsimp only
    by_cases hend : o.used = s.length
    · -- the piece of the source is used up
      rw [if_pos hend]
      have hdrop : sources.flatten = (s :: sources).flatten.drop o.used := by
        rw [List.flatten_cons, hend, List.drop_left]
      rw [htogether]
      by_cases hfilled : o.bytes.length = wants.headD 0
      · rw [if_pos hfilled]
        have htaillen : wants.tail.length ≤ wants.length := by rw [List.length_tail]; omega
        rw [hnext sources wants.tail (fun s' hm => hs s' (List.mem_cons_of_mem _ hm)) htail hdrop (by omega) (by omega)]
        rfl
      · rw [if_neg hfilled]
        have hne : wants ≠ [] := by
          rintro rfl
          rw [List.headD_nil] at hroom hfilled
          omega
        have htaillen : wants.tail.length + 1 = wants.length := by
          rw [List.length_tail]
          have := List.length_pos_of_ne_nil hne
          omega
        rw [hnext sources _ (fun s' hm => hs s' (List.mem_cons_of_mem _ hm)) ?_ hdrop ?_ ?_]
        · rfl
        · intro w hm
          rcases List.mem_cons.1 hm with rfl | hm
          · exact Nat.dvd_sub hhead (hlength ▸ Nat.dvd_mul_left ..)
          · exact htail w hm
        · rw [List.sum_cons]
          omega
        · rw [List.length_cons]
          omega
    · -- the piece that is wanted is made
      rw [if_neg hend]
      have hlt : position c n k₁ < d := by
        by_contra hge
        rw [hused, hd, Nat.min_eq_right (by omega)] at hend
        exact hend rfl
      have hfilled : o.bytes.length = wants.headD 0 := by
        have := Nat.mul_lt_mul_of_pos_right hlt hpos
        have := hk₁.stop
        omega
      rw [if_pos hfilled, htogether]
      by_cases hmore : wants.tail = []
      · rw [hmore, List.sum_nil] at hsum
        have hroom' := hj.room
        obtain rfl : j = 0 := (Nat.mul_eq_zero.1 (show j * bps = 0 by omega)).resolve_right hpos.ne'
        have hsmall : o.currentSample / 2 ^ 16 = 0 ∧ o.currentSample % 2 ^ 16 = o.currentSample := by
          have := fraction_lt c n k₁
          omega
        have hstay : (converted (s :: sources).flatten bps o.currentSample n 0
            ((a - min (position c n k₁) d) * bps)).currentSample = o.currentSample := by
          rw [converted, position_zero, fraction_zero, hsmall.1, hsmall.2, Nat.zero_mul, Nat.zero_sub, Nat.zero_div,
            Nat.zero_mul, Nat.add_zero]
        rw [if_pos hmore, hphase, hstay]
        exact congrArg (fun bytes => Except.ok (bytes, o.currentSample)) (List.append_nil o.bytes).symm
      · have hlen : wants.tail.length + 1 = wants.length := by
          have hpos' := List.length_pos_of_ne_nil hmore
          rw [List.length_tail] at hpos' ⊢
          omega
        have hle : o.used ≤ s.length := by
          rw [hused, hd]
          exact Nat.mul_le_mul_right bps (Nat.min_le_right ..)
        rw [if_neg hmore, hnext (s.drop o.used :: sources) wants.tail ?_ htail ?_ (by omega) (by rw [List.length_cons]; omega)]
        · rfl
        · intro s' hm
          rcases List.mem_cons.1 hm with rfl | hm
          · rw [List.length_drop, hd, hused]
            exact Nat.dvd_sub (Nat.dvd_mul_left ..) (Nat.dvd_mul_left ..)
          · exact hs s' (List.mem_cons_of_mem _ hm)
        · rw [List.flatten_cons, List.flatten_cons, List.drop_append_of_le_length hle]

/-- Pieces make what one call makes. -/
theorem feed_pieces (hpos : 0 < bps) (hs : ∀ s ∈ sources, bps ∣ s.length) (hw : ∀ w ∈ wants, bps ∣ w)
    (hlt : wants.sum < 2 ^ 32) : ∃ fuel calls o, (∀ fuel' calls', fuel ≤ fuel' → calls ≤ calls' →
        feed bps n fuel' calls' c sources wants = .ok (o.bytes, o.currentSample)) ∧
      rcX fuel bps c n sources.flatten wants.sum sources.flatten.length = .ok o := by
  obtain ⟨k, -, hk⟩ := @exists_stopsAt c n bps wants.sum sources.flatten.length (.inl (List.dvd_sum hw))
  exact ⟨k, sources.length + wants.length, _, fun fuel' calls' hfuel hcalls => feed_eq hpos hs hw hlt hk hfuel hcalls,
    rcX_eq hlt hk (Nat.le_refl k)⟩

end

/-! ### Where a frame is from -/

section
variable {bps c n i k fuel want : Nat} {src l r : List UInt8}

theorem frameAt_append_left (h : i + bps ≤ l.length) : frameAt (l ++ r) i bps = frameAt l i bps := by
  unfold frameAt
  refine List.map_congr_left fun m hm => ?_
  have hm := List.mem_range.1 hm
  rw [List.getD_append _ _ _ _ (by omega)]

theorem frameAt_append_right (h : r.length = bps) : frameAt (l ++ r) l.length bps = r := by
  unfold frameAt
  refine List.ext_getElem (by rw [List.length_map, List.length_range, h]) fun m hm hm' => ?_
  rw [List.getElem_map, List.getElem_range, List.getD_append_right _ _ _ _ (by omega), Nat.add_sub_cancel_left,
    List.getD_eq_getElem _ _ hm']

/-- The frames that are made, one by one. -/
theorem frameAt_frames (h : i < k) : frameAt (frames src bps c n k) (i * bps) bps = frameAt src (position c n i * bps) bps := by
  induction k with
  | zero => exact absurd h (Nat.not_lt_zero i)
  | succ k ih =>
    rw [frames_succ]
    rcases Nat.lt_succ_iff_lt_or_eq.1 h with hi | rfl
    · rw [frameAt_append_left, ih hi]
      rw [length_frames, ← Nat.succ_mul]
      exact Nat.mul_le_mul_right bps hi
    · have hlast := frameAt_append_right (l := frames src bps c n i) (length_frameAt src (position c n i * bps) bps)
      rwa [length_frames] at hlast

/-- A phase that does not wrap around says where a frame is from. -/
theorem frame_place {o : Converted} (hn : n + 2 ^ 16 ≤ 2 ^ 32) (hpos : 0 < bps) (hsrc : bps ∣ src.length) (hwant : bps ∣ want)
    (hlt : want < 2 ^ 32) (ho : rcX fuel bps 0 n src want src.length = .ok o) (hi : (i + 1) * bps ≤ o.bytes.length) :
    (i * n / 2 ^ 16 + 1) * bps ≤ src.length ∧ frameAt o.bytes (i * bps) bps = frameAt src (i * n / 2 ^ 16 * bps) bps := by
  obtain ⟨k, -, hk⟩ := @exists_stopsAt 0 n bps want src.length (.inl hwant)
  obtain rfl := rcX_unique hlt hk ho
  have hbytes : (converted src bps 0 n k src.length).bytes = frames src bps 0 n k := rfl
  rw [hbytes, length_frames] at hi
  have hik : i < k := Nat.le_of_mul_le_mul_right hi hpos
  have hplace := (phaseAt_eq (c := 0) hn i).1
  rw [Nat.zero_add] at hplace
  rw [hbytes, frameAt_frames hik, hplace]
  refine ⟨?_, rfl⟩
  have hbefore := (hk.before i hik).2
  rw [hplace] at hbefore
  obtain ⟨a, ha⟩ := hsrc
  rw [ha, Nat.mul_comm bps] at hbefore ⊢
  exact Nat.mul_le_mul_right bps (Nat.lt_of_mul_lt_mul_right hbefore)

/-- A larger step takes its fraction along until it wraps. -/
theorem large_step {j : Nat} (hn : n + 2 ^ 16 = 2 ^ 32 + j) (hk : k * j < 2 ^ 16) :
    position 0 n k = 65535 * k ∧ fraction 0 n k = k * j := by
  induction k with
  | zero =>
    rw [Nat.mul_zero, Nat.zero_mul]
    exact ⟨rfl, rfl⟩
  | succ k ih =>
    rw [Nat.succ_mul k j] at hk ⊢
    obtain ⟨hposition, hfraction⟩ := ih (by omega)
    rw [position_succ, fraction_succ, hposition, hfraction]
    omega

/-- With such a step some frame comes twice. -/
theorem not_resamples (hn : 2 ^ 32 < n + 2 ^ 16) (hlt : n < 2 ^ 32) : ¬ Resamples n := by
  intro h
  obtain ⟨j, hj⟩ := Nat.exists_eq_add_of_le hn.le
  have hex : ∃ k, 2 ^ 16 ≤ (k + 1) * j := ⟨2 ^ 16, Nat.le_trans (by omega) (Nat.le_mul_of_pos_right _ (by omega))⟩
  -- the last step that does not wrap
  have hspec := Nat.find_spec hex
  have hbefore : Nat.find hex * j < 2 ^ 16 := by
    rcases hfind : Nat.find hex with - | m
    · omega
    · exact Nat.lt_of_not_le (Nat.find_min hex (hfind ▸ Nat.lt_succ_self m))
  generalize Nat.find hex = k at hspec hbefore
  obtain ⟨hposition, hfraction⟩ := large_step hj hbefore
  have hkj : k < 2 ^ 16 := lt_of_le_of_lt (Nat.le_mul_of_pos_right k (by omega)) hbefore
  have hagain : position 0 n (k + 1) = 65535 * k := by
    rw [position_succ, hposition, hfraction]
    rw [Nat.succ_mul k j] at hspec
    omega
  have hstops : StopsAt 1 0 n (k + 2) (List.replicate (65535 * k + 1) (0 : UInt8)).length (k + 2) := by
    rw [List.length_replicate]
    refine ⟨fun i hi => ?_, by omega, .inl (Nat.mul_one _)⟩
    have := @position_mono 0 n i (k + 1) (by omega)
    omega
  have hrun : rcX (k + 2) 1 0 n (List.replicate (65535 * k + 1) 0) (k + 2) _ = .ok _ :=
    rcX_eq (by omega) hstops (Nat.le_refl _)
  have hbytes : (converted (List.replicate (65535 * k + 1) (0 : UInt8)) 1 0 n (k + 2)
      (List.replicate (65535 * k + 1) (0 : UInt8)).length).bytes.length = (k + 2) * 1 := length_frames ..
  have hframe := (h.frame 1 (k + 2) _ (k + 2) _ (by decide) (Nat.one_dvd _) (Nat.one_dvd _) (by omega)
    (by rw [List.length_replicate]; omega) hrun (k + 1) (by rw [hbytes])).1
  rw [List.length_replicate] at hframe
  have hfar : 65535 * (k + 1) ≤ (k + 1) * n / 2 ^ 16 := by
    rw [Nat.le_div_iff_mul_le (Nat.two_pow_pos 16)]
    calc
      65535 * (k + 1) * 2 ^ 16 = (k + 1) * (65535 * 2 ^ 16) := by rw [Nat.mul_comm 65535, Nat.mul_assoc]
      _ ≤ (k + 1) * n := Nat.mul_le_mul_left _ (by omega)
  omega

/-- `rc_x` resamples with exactly the steps that leave the phase room for a fraction. -/
theorem resamples_iff (n : Nat) (hlt : n < 2 ^ 32) : Resamples n ↔ n + 2 ^ 16 ≤ 2 ^ 32 := by
  constructor
  · intro h
    by_contra hn
    exact not_resamples (Nat.lt_of_not_le hn) hlt h
  · intro hn
    exact ⟨fun bps c sources wants hpos hs hw hsum _ => feed_pieces hpos hs hw hsum,
      fun bps fuel src want o hpos hsrc hwant hlt _ ho k hk => frame_place hn hpos hsrc hwant hlt ho hk⟩

theorem octave_resamples : Resamples (2 ^ 17) := (resamples_iff (2 ^ 17) (by decide)).2 (by decide)

theorem largest_step_wraps : ¬ ∀ n, n < 2 ^ 32 → Resamples n :=
  fun h => not_resamples (by decide) (by decide) (h (2 ^ 32 - 1) (by decide))

end

end Nas
