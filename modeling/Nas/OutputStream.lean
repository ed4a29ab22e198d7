import Nas.Io

/-!
# Output as a stream

What a client is sent is one stream, however the socket cuts it. `flushLoop` hands the socket the next
bytes of what is to be written (`flushLoop_spec`), and `ConnectionOutput.save` keeps the ones it did not
take (`save_spec`), wherever in the buffer, the new data or the pad it stopped.
-/

namespace Nas.Io

/-! ### What is to be written -/

/-- Each buffer in turn, with as many bytes as pad it to a multiple of four. -/
inductive Padded : List (List UInt8) → List UInt8 → Prop where
  | nil : Padded [] []
  | snoc {bufs : List (List UInt8)} {l buf pad : List UInt8} : Padded bufs l → pad.length = padlength buf.length →
      Padded (bufs ++ [buf]) (l ++ (buf ++ pad))

theorem insertIOV_zero {pieces : List (List UInt8)} {before : Int} : insertIOV pieces before 0 = [] := by
  induction pieces generalizing before with
  | nil => rfl
  | cons p ps ih =>
    rw [insertIOV]
    rw [if_pos (by omega), ih]

/-- The `iovec` holds what was not written before, as far as it is to be tried. -/
theorem flatten_insertIOV {pieces : List (List UInt8)} (before remain : Nat) :
    (insertIOV pieces before remain).flatten = (pieces.flatten.drop before).take remain := by
  induction pieces generalizing before remain with
  | nil => simp [insertIOV]
  | cons p ps ih =>
    rw [insertIOV]
    rw [List.flatten_cons, List.drop_append]
    rcases Nat.eq_zero_or_pos remain with rfl | hremain
    · rw [if_pos (by omega)]
      simp [insertIOV_zero]
    by_cases hb : before < p.length
    · rw [if_neg (by omega), List.flatten_cons, show before - p.length = 0 by omega, List.drop_zero]
      have hlen : (min ((p.length : Int) - before) remain).toNat = min (p.length - before) remain := by omega
      have hrest : (remain : Int) - min ((p.length : Int) - before) remain =
          ((remain - min (p.length - before) remain : Nat) : Int) := by omega
      have hih := ih 0 (remain - min (p.length - before) remain)
      rw [Nat.cast_zero, List.drop_zero] at hih
      rw [hlen, hrest, hih, List.take_append, List.length_drop, Int.toNat_natCast]
      congr 1
      · rw [List.take_eq_take_min (i := remain), List.length_drop, Nat.min_comm]
      · rw [show remain - min (p.length - before) remain = remain - (p.length - before) by omega]
    · rw [if_pos (by omega), List.drop_of_length_le (by omega), List.nil_append]
      have hrest : -min ((p.length : Int) - before) remain = ((before - p.length : Nat) : Int) := by omega
      rw [hrest, ih]

/-! ### The loop over `writev` -/

/-- What the socket took, of bytes of which some were written before. -/
inductive Flushed (all : List UInt8) (before : Nat) : FlushStatus → List UInt8 → Prop where
  | flushed : Flushed all before .flushed (all.drop before)
  | blocked (written : Nat) : before ≤ written → written < all.length →
      Flushed all before (.blocked written (all.length - written)) (Memory.slice all before written)
  | failed (accepted : List UInt8) : Flushed all before .failed accepted

theorem Flushed.done {all : List UInt8} {written : Nat} (h : all.length - written = 0) :
    Flushed all written .flushed [] := by
  have hd : all.drop written = [] := List.drop_eq_nil_of_le (by omega)
  rw [← hd]
  exact .flushed

theorem Flushed.stop {all : List UInt8} {written : Nat} (h : all.length - written ≠ 0) :
    Flushed all written (.blocked written (all.length - written)) [] := by
  have hs : Memory.slice all written written = [] := Memory.slice_self
  rw [← hs]
  exact .blocked written le_rfl (by omega)

/-- The socket took some bytes, and then more. -/
theorem Flushed.more {all out accepted : List UInt8} {written : Nat} {status : FlushStatus}
    (hout : out <+: all.drop written) (h : Flushed all (written + out.length) status accepted) :
    Flushed all written status (out ++ accepted) := by
  have hall : out ++ all.drop (written + out.length) = all.drop written := by
    obtain ⟨rest, hrest⟩ := hout
    rw [← List.drop_drop, ← hrest, List.drop_left]
  cases h with
  | flushed =>
    rw [hall]
    exact .flushed
  | blocked w hle hlt =>
    have hs : out ++ Memory.slice all (written + out.length) w = Memory.slice all written w := by
      rw [Memory.slice_eq, Memory.slice_eq, ← hall, List.take_append,
        List.take_of_length_le (show out.length ≤ w - written by omega), Nat.sub_sub]
    rw [hs]
    exact .blocked w (by omega) hlt
  | failed => exact .failed _

theorem flushLoop_spec (pieces : List (List UInt8)) (writes : List Write) {written todo : Nat}
    (hw : written ≤ pieces.flatten.length) (htodo : todo ≤ pieces.flatten.length - written) :
    flushLoop pieces writes written (pieces.flatten.length - written) todo = .error .fuel ∨
      ∃ status accepted, flushLoop pieces writes written (pieces.flatten.length - written) todo =
        .ok (status, accepted) ∧ Flushed pieces.flatten written status accepted := by
  induction writes generalizing written todo with
  | nil =>
    rw [flushLoop.eq_def]
    dsimp only
    by_cases hz : pieces.flatten.length - written = 0
    · rw [if_pos hz]
      exact .inr ⟨_, _, rfl, .done hz⟩
    · rw [if_neg hz]
      exact .inl rfl
  | cons w writes ih =>
    rw [flushLoop.eq_def]
    dsimp only
    by_cases hz : pieces.flatten.length - written = 0
    · rw [if_pos hz]
      exact .inr ⟨_, _, rfl, .done hz⟩
    rw [if_neg hz]
    cases w with
    | upTo n =>
      dsimp only
      rw [flatten_insertIOV]
      generalize hout : ((pieces.flatten.drop written).take todo).take n = out
      have hprefix : out <+: pieces.flatten.drop written := by
        rw [← hout]
        exact (List.take_prefix ..).trans (List.take_prefix ..)
      have hlen : written + out.length ≤ pieces.flatten.length := by
        have := hprefix.length_le
        rw [List.length_drop] at this
        omega
      rw [Nat.sub_sub]
      rcases ih hlen le_rfl with hfuel | ⟨status, accepted, he, hf⟩
      · exact .inl (by rw [hfuel]; rfl)
      · exact .inr ⟨status, out ++ accepted, by rw [he]; rfl, hf.more hprefix⟩
    | again => exact .inr ⟨_, _, rfl, .stop hz⟩
    | fails => exact .inr ⟨_, _, rfl, .failed _⟩
    | msgSize =>
      dsimp only
      by_cases h1 : todo = 1
      · rw [if_pos h1]
        exact .inr ⟨_, _, rfl, .stop hz⟩
      · rw [if_neg h1]
        exact ih hw (by omega)

/-- However the loop ends, the socket took the next bytes. -/
theorem flushLoop_prefix {pieces : List (List UInt8)} {writes : List Write} {written notWritten todo : Nat}
    {status : FlushStatus} {accepted : List UInt8}
    (he : flushLoop pieces writes written notWritten todo = .ok (status, accepted)) :
    accepted <+: pieces.flatten.drop written := by
  induction writes generalizing written notWritten todo status accepted with
  | nil =>
    rw [flushLoop.eq_def] at he
    dsimp only at he
    split at he
    · cases he
      exact List.nil_prefix
    · cases he
  | cons w writes ih =>
    rw [flushLoop.eq_def] at he
    dsimp only at he
    split at he
    · cases he
      exact List.nil_prefix
    rcases w with n | _ | _ | _
    · obtain ⟨⟨status', accepted'⟩, hrec, he⟩ := Exec.bind_eq_ok.1 he
      cases he
      rw [flatten_insertIOV] at hrec ⊢
      generalize hout : ((pieces.flatten.drop written).take todo).take n = out at hrec
      have hprefix : out <+: pieces.flatten.drop written := by
        rw [← hout]
        exact (List.take_prefix ..).trans (List.take_prefix ..)
      obtain ⟨rest, hrest⟩ := hprefix
      have hih := ih hrec
      rw [← List.drop_drop, ← hrest, List.drop_left] at hih
      rw [← hrest]
      exact (List.prefix_append_right_inj out).2 hih
    · cases he
      exact List.nil_prefix
    · dsimp only at he
      split at he
      · cases he
        exact List.nil_prefix
      · exact ih he
    · cases he
      exact List.nil_prefix

/-! ### Buffering the rest -/

namespace ConnectionOutput
variable {oco oco' : ConnectionOutput} {extra pad : List UInt8} {written : Nat}

structure Ok (oco : ConnectionOutput) : Prop where
  size_le : oco.size ≤ oco.buf.length
  count_le : oco.count ≤ oco.buf.length
  count_int : oco.count ≤ intMax

def buffered (oco : ConnectionOutput) : List UInt8 := Memory.slice oco.buf 0 oco.count

theorem Ok.length_buffered (h : oco.Ok) : oco.buffered.length = oco.count := by
  rw [buffered, Memory.length_slice h.count_le, Nat.sub_zero]

theorem Ok.clear (h : oco.Ok) : oco.clear.Ok := ⟨h.size_le, Nat.zero_le _, Nat.zero_le _⟩

@[simp] theorem buffered_clear : oco.clear.buffered = [] := Memory.slice_self

theorem newOutput_ok : newOutput.Ok ∧ newOutput.buffered = [] :=
  ⟨⟨by simp [newOutput], Nat.zero_le _, Nat.zero_le _⟩, Memory.slice_self⟩

theorem unwritten_spec (h : oco.Ok) (written : Nat) :
    ∃ oco', oco.unwritten written = .ok (written - oco.count, oco') ∧ oco'.Ok ∧
      oco'.buffered = oco.buffered.drop written ∧ oco'.buf.length = oco.buf.length ∧ oco'.size = oco.size := by
  have hc := h.count_le
  unfold unwritten
  by_cases hw : written < oco.count
  · rw [if_pos hw]
    by_cases h0 : written > 0
    · rw [if_pos h0]
      obtain ⟨buf, hb, hst⟩ := Memory.move_ok (m := oco.buf) (a := written) (n := oco.count - written) (d := 0)
        (by omega) (by omega)
      rw [hb]
      refine ⟨{ oco with buf, count := oco.count - written }, ?_, ⟨?_, ?_, ?_⟩, ?_, hst.length, rfl⟩
      · rw [show written - oco.count = 0 by omega]
        rfl
      · dsimp only
        rw [hst.length]
        exact h.size_le
      · dsimp only
        rw [hst.length]
        omega
      · have := h.count_int
        dsimp only
        omega
      · have hself := hst.slice_self
        rw [Memory.length_slice (by omega), show 0 + (written + (oco.count - written) - written) =
          oco.count - written by omega, show written + (oco.count - written) = oco.count by omega] at hself
        rw [buffered, buffered, Memory.drop_slice, Nat.zero_add]
        exact hself
    · rw [if_neg h0]
      refine ⟨oco, ?_, h, ?_, rfl, rfl⟩
      · rw [show written - oco.count = written by omega]
      · rw [show written = 0 by omega, List.drop_zero]
  · rw [if_neg hw]
    refine ⟨oco.clear, rfl, h.clear, ?_, rfl, rfl⟩
    rw [buffered_clear, List.drop_of_length_le (by rw [h.length_buffered]; omega)]

theorem asInt32_le (n : Nat) : asInt32 n ≤ n := by
  unfold asInt32
  split <;> omega

theorem Ok.resize (h : oco.Ok) {n : Nat} (hn : oco.count ≤ n) :
    (oco.resize n).Ok ∧ (oco.resize n).buffered = oco.buffered ∧ (oco.resize n).buf.length = n := by
  have hlen : (oco.resize n).buf.length = n := Memory.length_realloc
  refine ⟨⟨?_, ?_, h.count_int⟩, Memory.slice_realloc hn h.count_le, hlen⟩
  · rw [hlen]
    exact asInt32_le n
  · rw [hlen]
    exact hn

/-- Behind what is buffered there is the rest of the new data, and behind that the pad. -/
theorem append_spec (h : oco.Ok) {notWritten : Nat} (hn : oco.count + (extra.length - written) ≤ notWritten)
    (hb : notWritten ≤ oco.buf.length) (hi : notWritten ≤ intMax) :
    ∃ oco' pad, oco.append extra written notWritten = .ok oco' ∧ oco'.Ok ∧
      oco'.buffered = oco.buffered ++ (extra.drop written ++ pad) ∧
      pad.length = notWritten - (oco.count + (extra.length - written)) := by
  have hdl : (extra.drop written).length = extra.length - written := List.length_drop
  obtain ⟨buf, hbuf, hlen, hbelow, hdata⟩ : ∃ buf, (if written < extra.length then
      Memory.store oco.buf oco.count (extra.drop written) else .ok oco.buf : Exec _) = .ok buf ∧
      buf.length = oco.buf.length ∧ Memory.slice buf 0 oco.count = oco.buffered ∧
      Memory.slice buf oco.count (oco.count + (extra.length - written)) = extra.drop written := by
    by_cases hw : written < extra.length
    · obtain ⟨buf, hbuf, hst⟩ := Memory.store_ok
        (show oco.count + (extra.drop written).length ≤ oco.buf.length by omega)
      refine ⟨buf, by rw [if_pos hw, hbuf], hst.length, hst.slice_below le_rfl, ?_⟩
      rw [← hdl]
      exact hst.slice_self
    · refine ⟨oco.buf, by rw [if_neg hw], rfl, rfl, ?_⟩
      rw [show extra.length - written = 0 by omega, Nat.add_zero, Memory.slice_self,
        List.drop_of_length_le (by omega)]
  refine ⟨{ oco with buf, count := notWritten },
    Memory.slice buf (oco.count + (extra.length - written)) notWritten, ?_, ⟨?_, ?_, hi⟩, ?_, ?_⟩
  · rw [append, hbuf]
    rfl
  · dsimp only
    rw [hlen]
    exact h.size_le
  · dsimp only
    rw [hlen]
    exact hb
  · rw [← hbelow, ← hdata, buffered, Memory.slice_append (Nat.le_add_right ..) hn,
      Memory.slice_append (Nat.zero_le _) (by omega)]
  · rw [Memory.length_slice (by omega)]

theorem take_append_drop_append {α : Type} (x y z : List α) (n : Nat) :
    (x ++ y).take n ++ (x.drop n ++ z) = x ++ (y.take (n - x.length) ++ z) := by
  rcases Nat.le_total n x.length with hn | hn
  · rw [List.take_append_of_le_length hn, ← List.append_assoc, List.take_append_drop, Nat.sub_eq_zero_of_le hn,
      List.take_zero, List.nil_append]
  · rw [List.take_append, List.take_of_length_le hn, List.drop_of_length_le hn, List.nil_append, List.append_assoc]

/-- Whatever the socket took is written, and the rest is buffered. -/
theorem save_spec (h : oco.Ok) (grow : Bool) (hw : written < (oco.buffered ++ (extra ++ pad)).length)
    (hi : (oco.buffered ++ (extra ++ pad)).length - written ≤ intMax) :
    (grow = false ∧ oco.save grow extra written ((oco.buffered ++ (extra ++ pad)).length - written) = .ok none) ∨
      ∃ oco' pad', oco.save grow extra written ((oco.buffered ++ (extra ++ pad)).length - written) =
        .ok (some oco') ∧ oco'.Ok ∧ pad'.length = pad.length ∧
        Memory.slice (oco.buffered ++ (extra ++ pad)) 0 written ++ oco'.buffered =
          oco.buffered ++ (extra ++ pad') := by
  obtain ⟨oco₁, h₁, hok₁, hbuf₁, hlen₁, hsize₁⟩ := unwritten_spec h written
  have hcount : oco.count = oco.buffered.length := h.length_buffered.symm
  have hcount₁ : oco₁.count = oco.buffered.length - written := by
    rw [← hok₁.length_buffered, hbuf₁, List.length_drop]
  generalize hn : (oco.buffered ++ (extra ++ pad)).length - written = notWritten at hi
  rw [List.length_append, List.length_append] at hw hn
  have hfits : oco₁.count + (extra.length - (written - oco.count)) ≤ notWritten := by omega
  -- what is appended, to the buffer as it is or to a larger one
  suffices hdone : ∀ oco₂ : ConnectionOutput, oco₂.Ok → oco₂.buffered = oco₁.buffered → oco₂.count = oco₁.count →
      notWritten ≤ oco₂.buf.length →
      ∃ oco' pad', some <$> oco₂.append extra (written - oco.count) notWritten = .ok (some oco') ∧ oco'.Ok ∧
        pad'.length = pad.length ∧
        Memory.slice (oco.buffered ++ (extra ++ pad)) 0 written ++ oco'.buffered =
          oco.buffered ++ (extra ++ pad') by
    have hsize := h.size_le
    unfold save
    rw [h₁, Exec.ok_bind]
    dsimp only
    by_cases hroom : (notWritten : Int) ≤ oco₁.size
    · rw [if_pos hroom]
      exact .inr (hdone oco₁ hok₁ rfl rfl (by omega))
    · rw [if_neg hroom]
      cases grow with
      | false => exact .inl ⟨rfl, rfl⟩
      | true =>
        obtain ⟨hok₂, hbuf₂, hlen₂⟩ := hok₁.resize (show oco₁.count ≤ notWritten + bufSize by omega)
        exact .inr (hdone _ hok₂ hbuf₂ rfl (by omega))
  intro oco₂ hok₂ hbuf₂ hcount₂ hlen₂
  obtain ⟨oco', pad₁, happ, hok', hbuf', hpad₁⟩ :=
    append_spec hok₂ (show oco₂.count + (extra.length - (written - oco.count)) ≤ notWritten by omega) hlen₂ hi
  refine ⟨oco', pad.take (written - oco.count - extra.length) ++ pad₁, by rw [happ]; rfl, hok', ?_, ?_⟩
  · rw [List.length_append, List.length_take, hpad₁]
    omega
  · rw [Memory.slice, List.drop_zero, hbuf', hbuf₂, hbuf₁, take_append_drop_append, hcount,
      take_append_drop_append]

end ConnectionOutput

end Nas.Io
