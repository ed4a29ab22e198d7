import Nas.Exec
import Mathlib.Algebra.Group.Nat.Defs

/-!
# Serial numbers

The client numbers its requests with 32 bits (`request`); a packet carries the low 16 bits of the number of the last
request the server has processed. `_AuSetLastRequestRead` makes the whole number out of these and of the last number
that was read, and takes the first candidate that is not below it: `setLastRequestRead_ok`. So it is right as long as
fewer than 2^16 requests go by between two packets, and nothing sees to that.

The main result is `serials_sound_iff`: which runs keep the numbers right.
-/

namespace Nas.Serial

/-- The counters of a connection, with what has gone wrong so far. -/
structure Numbers where
  /-- The number of the last request. -/
  request : Nat
  lastRequestRead : Nat
  /-- `cur_request` of the call of `_AuReply` that waits. -/
  curRequest : Nat
  /-- `_AuSetLastRequestRead` returned another number than the server's. -/
  misread : Bool := false
  /-- `lastRequestRead` went down. -/
  decreased : Bool := false
deriving DecidableEq, Repr

/-- `while (newseq < lastseq)` -/
def seekSerial (request lastseq : Nat) : Nat → Nat → Exec Nat
  | 0, _ => .error .fuel
  | fuel + 1, newseq =>
    if newseq < lastseq then
      let newseq' := (newseq + 0x10000) % 2 ^ 32
      -- "sequence lost"
      if newseq' > request then .ok newseq else seekSerial request lastseq fuel newseq'
    else .ok newseq

/-- What `_AuSetLastRequestRead` returns. -/
def setLastRequestRead (fuel request lastRequestRead sequenceNumber : Nat) : Exec Nat :=
  seekSerial request lastRequestRead fuel (lastRequestRead &&& 0xffff0000 ||| sequenceNumber)

namespace Numbers

/-- `_AuGetReq` -/
def getReq (s : Numbers) : Numbers := { s with request := (s.request + 1) % 2 ^ 32 }

/-- The entry of `_AuReply`. -/
def awaitReply (s : Numbers) : Numbers := { s with curRequest := s.request }

def read (s : Numbers) (newseq : Nat) : Numbers :=
  { s with lastRequestRead := newseq, decreased := s.decreased || decide (newseq < s.lastRequestRead) }

/-- An event, an error or an asynchronous reply of a server that has processed `serial` requests. -/
def packet (fuel : Nat) (s : Numbers) (serial : Nat) : Exec Numbers := do
  let newseq ← setLastRequestRead fuel s.request s.lastRequestRead (serial % 2 ^ 16)
  .ok { s.read newseq with misread := s.misread || decide (newseq ≠ serial) }

/-- A reply that `_AuReply` reads. -/
def reply (fuel : Nat) (s : Numbers) (serial : Nat) : Exec Numbers :=
  -- "Fast update for synchronous replies"
  if serial % 2 ^ 16 = s.curRequest &&& 0xffff then .ok (s.read s.curRequest) else s.packet fuel serial

end Numbers

inductive Op where
  | getReq
  | awaitReply
  | packet (serial : Nat)
  | reply (serial : Nat)

def step (fuel : Nat) (s : Numbers) : Op → Exec Numbers
  | .getReq => .ok s.getReq
  | .awaitReply => .ok s.awaitReply
  | .packet serial => s.packet fuel serial
  | .reply serial => s.reply fuel serial

/-- A new connection, as `AuOpenServer` leaves it. -/
def opened : Numbers := { request := 0, lastRequestRead := 0, curRequest := 0 }

/-- The server has processed no fewer requests than the client knows of, and no more than there were. -/
def Processed (s : Numbers) : Op → Prop
  | .packet serial | .reply serial => s.lastRequestRead ≤ serial ∧ serial ≤ s.request
  | .getReq | .awaitReply => True

/-- Every number was read right. -/
structure Numbered (s : Numbers) : Prop where
  right : s.misread = false
  monotone : s.decreased = false
  bounded : s.lastRequestRead ≤ s.request

/-- The requests are not counted beyond 2^32, and fewer than 2^16 of them were processed since the last packet. The
reply that is waited for need not be near, when its number has not been passed. -/
def InWindow (s : Numbers) : Op → Prop
  | .getReq => s.request + 1 < 2 ^ 32 ∨ s.lastRequestRead = 0
  | .awaitReply => True
  | .packet serial => serial < s.lastRequestRead + 2 ^ 16
  | .reply serial =>
    if serial % 2 ^ 16 = s.curRequest % 2 ^ 16 then s.lastRequestRead ≤ s.curRequest ∧ s.curRequest ≤ s.request
    else serial < s.lastRequestRead + 2 ^ 16

instance (s : Numbers) : (op : Op) → Decidable (Processed s op)
  | .packet _ | .reply _ => inferInstanceAs (Decidable (_ ∧ _))
  | .getReq | .awaitReply => inferInstanceAs (Decidable True)

instance (s : Numbers) : (op : Op) → Decidable (InWindow s op)
  | .getReq => inferInstanceAs (Decidable (_ ∨ _))
  | .awaitReply => inferInstanceAs (Decidable True)
  | .packet _ => inferInstanceAs (Decidable (_ < _))
  | .reply serial =>
    inferInstanceAs (Decidable (if serial % 2 ^ 16 = s.curRequest % 2 ^ 16 then
      s.lastRequestRead ≤ s.curRequest ∧ s.curRequest ≤ s.request else serial < s.lastRequestRead + 2 ^ 16))

/-! ### One packet -/

theorem and_ffff (n : Nat) : n &&& 0xffff = n % 2 ^ 16 := Nat.and_two_pow_sub_one_eq_mod n 16

theorem and_ffff0000 {n : Nat} (hn : n < 2 ^ 32) : n &&& 0xffff0000 = n / 2 ^ 16 * 2 ^ 16 := by
  have hhigh : n / 2 ^ 16 < 2 ^ 16 := by omega
  have hmask : (0xffff0000 : Nat) = 0xffff <<< 16 := by decide
  have hlow : n &&& 0xffff0000 = (n / 2 ^ 16) <<< 16 := by
    apply Nat.eq_of_testBit_eq
    intro i
    rw [Nat.testBit_and, hmask, Nat.testBit_shiftLeft, Nat.testBit_shiftLeft, Nat.testBit_div_two_pow]
    by_cases hi : i ≥ 16
    · have hbits : (0xffff : Nat).testBit (i - 16) = decide (i - 16 < 16) := Nat.testBit_two_pow_sub_one 16 (i - 16)
      rw [hbits, Nat.sub_add_cancel hi]
      by_cases hi' : i - 16 < 16
      · simp [hi, hi']
      · have hzero : n.testBit i = false :=
          Nat.testBit_lt_two_pow (Nat.lt_of_lt_of_le hn (Nat.pow_le_pow_right (by decide) (by omega)))
        simp [hzero]
    · simp [hi]
  rw [hlow, Nat.shiftLeft_eq]

theorem candidate_eq {n k : Nat} (hn : n < 2 ^ 32) (hk : k < 2 ^ 16) :
    n &&& 0xffff0000 ||| k = n / 2 ^ 16 * 2 ^ 16 + k := by
  rw [and_ffff0000 hn, ← Nat.shiftLeft_eq, Nat.shiftLeft_add_eq_or_of_lt hk]

theorem seekSerial_done {request lastseq fuel newseq : Nat} (h : lastseq ≤ newseq) :
    seekSerial request lastseq (fuel + 1) newseq = .ok newseq := by
  rw [seekSerial, if_neg (Nat.not_lt.2 h)]

/-- The number that is returned is the first candidate, of those that the server may mean. -/
theorem setLastRequestRead_ok {fuel request last serial : Nat} (hfuel : 2 ≤ fuel) (hr : request < 2 ^ 32)
    (hl : last ≤ serial) (hs : serial ≤ request) :
    setLastRequestRead fuel request last (serial % 2 ^ 16) = .ok (last + (serial - last) % 2 ^ 16) := by
  obtain ⟨fuel, rfl⟩ : ∃ k, fuel = k + 2 := ⟨fuel - 2, by omega⟩
  have hcand := candidate_eq (n := last) (k := serial % 2 ^ 16) (by omega) (by omega)
  rw [setLastRequestRead, hcand]
  by_cases hlow : last / 2 ^ 16 * 2 ^ 16 + serial % 2 ^ 16 < last
  · -- the low bits went over: the candidate of the next 2^16 numbers is right
    have hnext : (last / 2 ^ 16 * 2 ^ 16 + serial % 2 ^ 16 + 0x10000) % 2 ^ 32 = last + (serial - last) % 2 ^ 16 := by
      omega
    have hle : ¬ last + (serial - last) % 2 ^ 16 > request := by omega
    rw [seekSerial, if_pos hlow]
    dsimp only
    rw [hnext, if_neg hle]
    exact seekSerial_done (by omega)
  · rw [seekSerial_done (Nat.not_lt.1 hlow)]
    have heq : last / 2 ^ 16 * 2 ^ 16 + serial % 2 ^ 16 = last + (serial - last) % 2 ^ 16 := by omega
    rw [heq]

theorem packet_ok {fuel serial : Nat} {s : Numbers} (hfuel : 2 ≤ fuel) (hr : s.request < 2 ^ 32)
    (hl : s.lastRequestRead ≤ serial) (hs : serial ≤ s.request) :
    s.packet fuel serial = .ok { s with
      lastRequestRead := s.lastRequestRead + (serial - s.lastRequestRead) % 2 ^ 16
      misread := s.misread || decide (s.lastRequestRead + 2 ^ 16 ≤ serial) } := by
  have hle : ¬ s.lastRequestRead + (serial - s.lastRequestRead) % 2 ^ 16 < s.lastRequestRead := by omega
  have hne : (s.lastRequestRead + (serial - s.lastRequestRead) % 2 ^ 16 ≠ serial) =
      (s.lastRequestRead + 2 ^ 16 ≤ serial) := propext (by omega)
  rw [Numbers.packet, setLastRequestRead_ok hfuel hr hl hs]
  simp only [Exec.ok_bind, Numbers.read, hne]
  simp only [hle, decide_false, Bool.or_false]

theorem reply_far {fuel serial : Nat} {s : Numbers} (h : serial % 2 ^ 16 ≠ s.curRequest % 2 ^ 16) :
    s.reply fuel serial = s.packet fuel serial := by
  rw [Numbers.reply, and_ffff, if_neg h]

theorem reply_near {fuel serial : Nat} {s : Numbers} (h : serial % 2 ^ 16 = s.curRequest % 2 ^ 16) :
    s.reply fuel serial = .ok (s.read s.curRequest) := by
  rw [Numbers.reply, and_ffff, if_pos h]

/-! ### Runs -/

/-- `Numbered`, and the requests are counted with 32 bits. -/
structure Inv (s : Numbers) : Prop extends Numbered s where
  counted : s.request < 2 ^ 32

variable {fuel : Nat} {s s' : Numbers}

theorem Inv.packet {serial : Nat} (h : Inv s) (hfuel : 2 ≤ fuel) (hl : s.lastRequestRead ≤ serial)
    (hs : serial ≤ s.request) (hwin : serial < s.lastRequestRead + 2 ^ 16) (he : s.packet fuel serial = .ok s') :
    Inv s' := by
  rw [packet_ok hfuel h.counted hl hs] at he
  cases he
  have hright : (s.misread || decide (s.lastRequestRead + 2 ^ 16 ≤ serial)) = false := by
    rw [h.right, decide_eq_false (by omega)]
    rfl
  have hle : s.lastRequestRead + (serial - s.lastRequestRead) % 2 ^ 16 ≤ s.request := by omega
  exact ⟨⟨hright, h.monotone, hle⟩, h.counted⟩

theorem Inv.packet_bad {serial : Nat} (h : Inv s) (hfuel : 2 ≤ fuel) (hl : s.lastRequestRead ≤ serial)
    (hs : serial ≤ s.request) (hwin : ¬ serial < s.lastRequestRead + 2 ^ 16) :
    ∃ s', s.packet fuel serial = .ok s' ∧ ¬ Numbered s' := by
  refine ⟨_, packet_ok hfuel h.counted hl hs, fun hn => ?_⟩
  have hright := hn.right
  dsimp only at hright
  rw [Bool.or_eq_false_iff, decide_eq_false_iff_not] at hright
  exact hright.2 (Nat.not_lt.1 hwin)

theorem Inv.step {op : Op} (h : Inv s) (hfuel : 2 ≤ fuel) (hgiven : Processed s op) (hgood : InWindow s op)
    (he : step fuel s op = .ok s') : Inv s' := by
  rcases op with _ | _ | serial | serial
  · cases he
    have hb := h.bounded
    refine ⟨⟨h.right, h.monotone, ?_⟩, Nat.mod_lt _ (by decide)⟩
    show s.lastRequestRead ≤ (s.request + 1) % 2 ^ 32
    rcases hgood with hlt | hzero
    · rw [Nat.mod_eq_of_lt hlt]
      omega
    · omega
  · cases he
    exact ⟨⟨h.right, h.monotone, h.bounded⟩, h.counted⟩
  · exact h.packet hfuel hgiven.1 hgiven.2 hgood he
  · by_cases hnear : serial % 2 ^ 16 = s.curRequest % 2 ^ 16
    · obtain ⟨hcur, hreq⟩ : _ ∧ _ := by simpa only [InWindow, if_pos hnear] using hgood
      rw [Serial.step, reply_near hnear] at he
      cases he
      have hmono : (s.decreased || decide (s.curRequest < s.lastRequestRead)) = false := by
        rw [h.monotone, decide_eq_false (by omega)]
        rfl
      exact ⟨⟨h.right, hmono, hreq⟩, h.counted⟩
    · have hwin : serial < s.lastRequestRead + 2 ^ 16 := by simpa only [InWindow, if_neg hnear] using hgood
      rw [Serial.step, reply_far hnear] at he
      exact h.packet hfuel hgiven.1 hgiven.2 hwin he

theorem Inv.bad {op : Op} (h : Inv s) (hfuel : 2 ≤ fuel) (hgiven : Processed s op) (hbad : ¬ InWindow s op) :
    ∃ s', Serial.step fuel s op = .ok s' ∧ ¬ Numbered s' := by
  rcases op with _ | _ | serial | serial
  · refine ⟨_, rfl, fun hn => ?_⟩
    have hb := hn.bounded
    have hc := h.counted
    obtain ⟨hwrap, hpos⟩ := not_or.1 hbad
    have hzero : s.getReq.request = 0 := by
      show (s.request + 1) % 2 ^ 32 = 0
      omega
    rw [hzero] at hb
    exact hpos (Nat.le_zero.1 hb)
  · exact absurd trivial hbad
  · exact h.packet_bad hfuel hgiven.1 hgiven.2 hbad
  · by_cases hnear : serial % 2 ^ 16 = s.curRequest % 2 ^ 16
    · refine ⟨_, reply_near hnear, fun hn => hbad ?_⟩
      have hmono : decide (s.curRequest < s.lastRequestRead) = false := (Bool.or_eq_false_iff.1 hn.monotone).2
      have hle := of_decide_eq_false hmono
      simp only [InWindow, if_pos hnear]
      exact ⟨Nat.not_lt.1 hle, hn.bounded⟩
    · rw [Serial.step, reply_far hnear]
      refine h.packet_bad hfuel hgiven.1 hgiven.2 fun hwin => hbad ?_
      simpa only [InWindow, if_neg hnear] using hwin

theorem opened_inv : Inv opened := ⟨⟨rfl, rfl, Nat.le_refl 0⟩, by decide⟩

/-- Every packet's number is made out, and the last number read goes up and stays below the last request, as long as
no packet is 2^16 requests behind the one before. -/
theorem serials_sound_iff (l : List Op) (hfuel : 2 ≤ fuel) (hgiven : Each (step fuel) Processed l opened) :
    Always (step fuel) Numbered l opened ↔ Each (step fuel) InWindow l opened :=
  always_iff_each (I := Inv) (fun _ h => h.toNumbered) (fun _ _ _ h hg hw he => h.step hfuel hg hw he)
    (fun _ _ h hg hnot => h.bad hfuel hg hnot) opened_inv hgiven

/-- A call that waits for its reply, and an event behind it. -/
theorem awaitedReply_sound :
    Always (step 2) Numbered [.getReq, .awaitReply, .reply 1, .getReq, .packet 1, .packet 2] opened :=
  have hgiven : Each (step 2) Processed [.getReq, .awaitReply, .reply 1, .getReq, .packet 1, .packet 2] opened := by
    decide +kernel
  (serials_sound_iff _ (Nat.le_refl 2) hgiven).2 (by decide +kernel)

theorem run_getReq (n : Nat) (h : s.request + n < 2 ^ 32) :
    List.foldlM (step fuel) s (List.replicate n .getReq) = .ok { s with request := s.request + n } := by
  induction n generalizing s with
  | zero => rfl
  | succ n ih =>
    have hreq : s.getReq = { s with request := s.request + 1 } := by
      rw [Numbers.getReq, Nat.mod_eq_of_lt (by omega)]
    have hsum : s.request + 1 + n = s.request + (n + 1) := by omega
    rw [List.replicate_succ, Exec.foldlM_cons_eq_ok]
    refine ⟨s.getReq, rfl, ?_⟩
    rw [hreq, ih (by dsimp only; omega), hsum]

/-- The server answers the last of 2^16 requests, and its number is taken for 0. -/
theorem silentRequests_not_sound :
    ∃ l, Each (step 2) Processed l opened ∧ ¬ Always (step 2) Numbered l opened := by
  have hrun := @run_getReq 2 opened (2 ^ 16) (by decide)
  have hpacket := @packet_ok 2 (2 ^ 16) { opened with request := 0 + 2 ^ 16 } (Nat.le_refl 2) (by decide) (by decide) (by decide)
  refine ⟨List.replicate (2 ^ 16) .getReq ++ [.packet (2 ^ 16)], ?_, fun h => ?_⟩
  · refine Each.append (Each.of_forall fun r hr s => ?_) hrun ⟨⟨by decide, by decide⟩, fun _ _ => trivial⟩
    rw [List.eq_of_mem_replicate hr]
    trivial
  · have hend := h.run (Exec.foldlM_append_eq_ok.2 ⟨_, hrun, Exec.foldlM_cons_eq_ok.2 ⟨_, hpacket, rfl⟩⟩)
    exact absurd hend.right (by decide)

end Nas.Serial
