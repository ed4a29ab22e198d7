import Nas.Port

/-!
# `ReadElement` on a port

`readElementPort` sends the oldest bytes of the port in up to three pieces. `WriteToClient` pads each
piece to a multiple of four, so all but the last must have such a length; where the tail of the port
has not, the function sends a bounce buffer of four bytes that joins the tail to the beginning. The
length of that buffer is taken from the bytes still to send, the tail included. When fewer than four
are left the buffer is too long by the tail, the count of bytes left wraps below zero, and the next
piece has a negative length.

`delivers_iff`: the request is answered as it should be exactly when that does not happen, when the
port has the bytes it says it has, and when no piece is so long that its length is a negative `int`.
-/

namespace Nas

/-- The port of an `ExportClient` element in any state it can be in: the data is there, its size went
through `createPort`, and the read position is inside. -/
structure ExportPort where
  c : Component
  data_length : c.data.length = c.dataSize
  dataSize_lt : c.dataSize + 3 < 2 ^ 32
  read_lt : c.read < c.dataSize ∨ c.read = 0 ∧ c.dataSize = 0
  currentSize_lt : c.currentSize < 2 ^ 32

/-- A request for `num_bytes` bytes is answered with the oldest bytes of the port, padded once at the
end, announced with their number and the padded length, and taken out of the port. -/
def Delivers (c : Component) (num_bytes : Nat) : Prop :=
  ∃ c' rep sent, readElementPort c num_bytes = .ok (c', rep, sent) ∧
    (Ring.window c.data c.read (bytesSent c num_bytes)).length = bytesSent c num_bytes ∧
    sent = (Ring.window c.data c.read (bytesSent c num_bytes)).map some ++
      List.replicate (pad4 (bytesSent c num_bytes) - bytesSent c num_bytes) none ∧
    rep.numBytes = bytesSent c num_bytes ∧ rep.length * 4 = pad4 (bytesSent c num_bytes) ∧
    c'.currentSize = c.currentSize - bytesSent c num_bytes ∧
    c'.read = (c.read + bytesSent c num_bytes) % c.dataSize

/-- `n` bytes from position `read` of a port of `dataSize` bytes go out in pieces that are handled
right: with `tail` bytes up to the end, a read that passes the end of a port whose tail is not a
multiple of four takes at least to the end of the bounce buffer, and every piece is an `int`. -/
def PiecesFit (dataSize read n : Nat) : Prop :=
  let tail := dataSize - read
  if read + n ≤ dataSize then n < 2 ^ 31
  else if tail % 4 = 0 then tail < 2 ^ 31 ∧ n - tail < 2 ^ 31
  else tail / 4 * 4 < 2 ^ 31 ∧ tail / 4 * 4 + 4 ≤ n ∧ n - (tail / 4 * 4 + 4) < 2 ^ 31

instance (dataSize read n : Nat) : Decidable (PiecesFit dataSize read n) := by
  unfold PiecesFit; infer_instance

theorem le_pad4 (n : Nat) : n ≤ pad4 n := by unfold pad4; omega

@[simp] theorem pad4_mul_four (n : Nat) : pad4 (n * 4) = n * 4 := by unfold pad4; omega

theorem asInt32_neg {n : Nat} (h : 2 ^ 31 ≤ n) (h' : n < 2 ^ 32) : asInt32 n < 0 := by
  unfold asInt32
  rw [Nat.mod_eq_of_lt h', if_neg (by omega)]
  omega

theorem asInt32_nonneg {n : Nat} (h : n < 2 ^ 31) : asInt32 n = n := by
  unfold asInt32
  rw [Nat.mod_eq_of_lt (by omega), if_pos h]

theorem sub32_eq {a b : Nat} (ha : a < 2 ^ 32) (hb : b ≤ a) : sub32 a b = a - b := by
  unfold sub32; omega

@[simp] theorem writeToClient_zero (sent : Sent) (buf : List UInt8) :
    writeToClient sent 0 buf = .ok sent := by simp [writeToClient]

theorem writeToClient_ok {sent : Sent} {count : Nat} {buf : List UInt8} (h : count < 2 ^ 31)
    (hb : count ≤ buf.length) : writeToClient sent count buf =
      .ok (sent ++ (buf.take count).map some ++ List.replicate (pad4 count - count) none) := by
  unfold writeToClient
  rw [Nat.mod_eq_of_lt (by omega)]
  by_cases h0 : count = 0
  · subst h0; simp [pad4]
  · rw [if_neg h0, if_neg]
    rw [asInt32_nonneg h]
    omega

/-- A length that is negative as an `int` does not get through. -/
theorem writeToClient_neg {sent : Sent} {count : Nat} {buf : List UInt8} (h : 2 ^ 31 ≤ count)
    (h' : count < 2 ^ 32) : writeToClient sent count buf = .error .fault := by
  unfold writeToClient
  rw [Nat.mod_eq_of_lt h', if_neg (by omega), if_pos (.inl (asInt32_neg h h'))]

namespace ExportPort
variable (p : ExportPort) {num_bytes : Nat}

theorem read_le : p.c.read ≤ p.c.dataSize := by have := p.read_lt; omega

/-- The read position after `n` bytes, as the function wraps it. -/
theorem wrap_read {n : Nat} (hn : n ≤ p.c.dataSize) :
    (if p.c.read + n ≥ p.c.dataSize then p.c.read + n - p.c.dataSize else p.c.read + n) =
      (p.c.read + n) % p.c.dataSize := by
  rcases p.read_lt with h | ⟨h, h0⟩
  · split
    · rw [Nat.mod_eq_sub_mod (by omega), Nat.mod_eq_of_lt (by omega)]
    · rw [Nat.mod_eq_of_lt (by omega)]
  · simp [h0]

/-- The piece in front of the end of the port. -/
theorem take_tail (p : ExportPort) {n : Nat} (h : p.c.read + n ≤ p.c.dataSize) :
    (p.c.data.drop p.c.read).take n = Ring.window p.c.data p.c.read n := by
  rw [Ring.window_eq_take_drop (by rw [p.data_length]; exact h)]

theorem readElementWrap_near {n : Nat} (h : p.c.read + n ≤ p.c.dataSize) :
    readElementWrap p.c n = .ok ⟨[], n, p.c.read⟩ := by
  unfold readElementWrap; rw [if_neg (by omega)]

theorem readElementWrap_aligned {n : Nat} (h : p.c.dataSize < p.c.read + n) (hn : n < 2 ^ 32)
    (h4 : (p.c.dataSize - p.c.read) % 4 = 0) (hlt : p.c.dataSize - p.c.read < 2 ^ 31) :
    readElementWrap p.c n = .ok ⟨(p.c.data.drop p.c.read).map some,
      n - (p.c.dataSize - p.c.read), 0⟩ := by
  have hle := p.read_le
  have hlen : (p.c.data.drop p.c.read).length = p.c.dataSize - p.c.read := by
    rw [List.length_drop, p.data_length]
  have hpad : pad4 (p.c.dataSize - p.c.read) - (p.c.dataSize - p.c.read) = 0 := by
    unfold pad4; omega
  unfold readElementWrap
  simp only [if_pos (show p.c.read + n > p.c.dataSize from h), h4, ne_eq, not_true_eq_false, ↓reduceIte]
  rw [writeToClient_ok hlt (by omega), Exec.ok_bind, hpad, List.take_of_length_le (by omega),
    sub32_eq hn (by omega)]
  simp

theorem readElementWrap_bounce {n : Nat} (h : p.c.dataSize < p.c.read + n) (hD : n ≤ p.c.dataSize)
    (h4 : (p.c.dataSize - p.c.read) % 4 ≠ 0) (hlt : (p.c.dataSize - p.c.read) / 4 * 4 < 2 ^ 31)
    (hfit : (p.c.dataSize - p.c.read) / 4 * 4 + 4 ≤ n) :
    readElementWrap p.c n = .ok
      ⟨(p.c.data.drop p.c.read ++ p.c.data.take (4 - (p.c.dataSize - p.c.read) % 4)).map some,
        n - ((p.c.dataSize - p.c.read) / 4 * 4 + 4), 4 - (p.c.dataSize - p.c.read) % 4⟩ := by
  have hle := p.read_le
  have hn : n < 2 ^ 32 := by have := p.dataSize_lt; omega
  have hlen : (p.c.data.drop p.c.read).length = p.c.dataSize - p.c.read := by
    rw [List.length_drop, p.data_length]
  unfold readElementWrap
  simp only [if_pos (show p.c.read + n > p.c.dataSize from h), if_pos h4]
  set tail := p.c.dataSize - p.c.read with htail
  have hm : tail % 4 < 4 := Nat.mod_lt _ (by omega)
  have hdm : tail / 4 * 4 + tail % 4 = tail := Nat.div_add_mod' tail 4
  rw [writeToClient_ok hlt (by omega), Exec.ok_bind, sub32_eq hn (by omega), if_pos (by omega)]
  have hbuf : ((p.c.data.drop (p.c.read + tail / 4 * 4)).take (tail % 4) ++
      p.c.data.take (4 - tail % 4)).length = 4 := by
    simp [p.data_length]; omega
  have h4' : tail % 4 + (4 - tail % 4) = 4 := by omega
  rw [h4', writeToClient_ok (by omega) (by omega), Exec.ok_bind, sub32_eq (by omega) (by omega)]
  have hsplit : (p.c.data.drop p.c.read).take (tail / 4 * 4) ++
      (p.c.data.drop (p.c.read + tail / 4 * 4)).take (tail % 4) = p.c.data.drop p.c.read := by
    rw [← List.drop_drop, List.take_of_length_le (l := List.drop _ (List.drop _ _)) (by simp [p.data_length]; omega),
      List.take_append_drop]
  rw [List.take_of_length_le (l := _ ++ _) (by omega), pad4_mul_four]
  simp only [Nat.sub_self, List.replicate_zero, List.append_nil, List.nil_append, pad4]
  congr 2
  · rw [← List.map_append, ← List.append_assoc, hsplit]

/-- What is left after a part in front of `p` has been sent goes out as one piece with the pad. -/
theorem readElementPort_of_wrap {sent : Sent} {left pos : Nat}
    (hw : readElementWrap p.c (bytesSent p.c num_bytes) = .ok ⟨sent, left, pos⟩)
    (hleft : left < 2 ^ 31) (hpos : left ≤ p.c.dataSize - pos) :
    readElementPort p.c num_bytes = .ok
      ({ p.c with
          outgoing := sub32 p.c.outgoing (bytesSent p.c num_bytes)
          currentSize := sub32 p.c.currentSize (bytesSent p.c num_bytes)
          read := if pos + left ≥ p.c.dataSize then pos + left - p.c.dataSize else pos + left },
        ⟨(bytesSent p.c num_bytes + 3) % 2 ^ 32 / 4, bytesSent p.c num_bytes⟩,
        sent ++ ((p.c.data.drop pos).take left).map some ++
          List.replicate (pad4 left - left) none) := by
  unfold readElementPort
  simp only [hw, Exec.ok_bind]
  by_cases h0 : left = 0
  · subst h0; simp [pad4]
  · rw [if_pos h0, writeToClient_ok hleft (by simp [p.data_length]; omega), Exec.ok_bind]

/-- The pieces are the window the request asks for. -/
theorem delivers_of_wrap {sent : Sent} {left pos : Nat}
    (hw : readElementWrap p.c (bytesSent p.c num_bytes) = .ok ⟨sent, left, pos⟩)
    (hD : bytesSent p.c num_bytes ≤ p.c.dataSize) (hleft : left < 2 ^ 31)
    (hpos : left ≤ p.c.dataSize - pos)
    (hpad : pad4 left - left = pad4 (bytesSent p.c num_bytes) - bytesSent p.c num_bytes)
    (hsent : sent ++ ((p.c.data.drop pos).take left).map some =
      (Ring.window p.c.data p.c.read (bytesSent p.c num_bytes)).map some)
    (hread : (if pos + left ≥ p.c.dataSize then pos + left - p.c.dataSize else pos + left) =
      (p.c.read + bytesSent p.c num_bytes) % p.c.dataSize) :
    Delivers p.c num_bytes := by
  refine ⟨_, _, _, p.readElementPort_of_wrap hw hleft hpos, ?_, ?_, rfl, ?_, ?_, hread⟩
  · simp [p.data_length, hD]
  · rw [hsent, hpad]
  · have := p.dataSize_lt
    simp only [pad4]
    rw [Nat.mod_eq_of_lt (by omega)]
  · exact sub32_eq p.currentSize_lt (Nat.min_le_right _ _)

theorem delivers (hD : bytesSent p.c num_bytes ≤ p.c.dataSize)
    (hfit : PiecesFit p.c.dataSize p.c.read (bytesSent p.c num_bytes)) : Delivers p.c num_bytes := by
  have hle := p.read_le
  have hlt := p.read_lt
  have hn : bytesSent p.c num_bytes < 2 ^ 32 := by have := p.dataSize_lt; omega
  have hwr := p.wrap_read hD
  simp only [PiecesFit] at hfit
  set n := bytesSent p.c num_bytes with hnd
  set tail := p.c.dataSize - p.c.read with htail
  by_cases hnear : p.c.read + n ≤ p.c.dataSize
  · rw [if_pos hnear] at hfit
    refine p.delivers_of_wrap (p.readElementWrap_near hnear) hD hfit (by omega) rfl ?_ hwr
    rw [List.nil_append, p.take_tail hnear]
  rw [if_neg hnear] at hfit
  have hwin : Ring.window p.c.data p.c.read n =
      p.c.data.drop p.c.read ++ p.c.data.take (n - tail) := by
    rw [Ring.window_eq_append (by rw [p.data_length]; omega) (by rw [p.data_length]; omega)
      (by rw [p.data_length]; omega), p.data_length]
    congr 2
    omega
  by_cases h4 : tail % 4 = 0
  · rw [if_pos h4] at hfit
    refine p.delivers_of_wrap (p.readElementWrap_aligned (by omega) hn h4 hfit.1) hD hfit.2
      (by omega) ?_ ?_ ?_
    · rw [← hnd]; unfold pad4; omega
    · rw [List.drop_zero, ← List.map_append, hwin]
    · rw [← hwr, ← hnd, if_neg (by omega), if_pos (by omega)]; omega
  · rw [if_neg h4] at hfit
    refine p.delivers_of_wrap (p.readElementWrap_bounce (by omega) hD h4 hfit.1 hfit.2.1) hD hfit.2.2
      (by omega) ?_ ?_ ?_
    · rw [← hnd]; unfold pad4; omega
    · rw [← List.map_append, hwin, List.append_assoc, ← List.take_add]
      congr 4
      omega
    · rw [← hwr, ← hnd, if_neg (by omega), if_pos (by omega)]; omega

theorem not_ok_of_far {n : Nat} (hfar : p.c.dataSize < p.c.read + n) (hD : n ≤ p.c.dataSize)
    (hfit : ¬ PiecesFit p.c.dataSize p.c.read n) {r : Remaining}
    (hr : readElementWrap p.c n = .ok r) : 2 ^ 31 ≤ r.numBytes ∧ r.numBytes < 2 ^ 32 := by
  have hle := p.read_le
  have hn : n < 2 ^ 32 := by have := p.dataSize_lt; omega
  simp only [PiecesFit, if_neg (show ¬ p.c.read + n ≤ p.c.dataSize by omega)] at hfit
  set tail := p.c.dataSize - p.c.read with htail
  by_cases h4 : tail % 4 = 0
  · rw [if_pos h4] at hfit
    by_cases hlt : tail < 2 ^ 31
    · rw [p.readElementWrap_aligned hfar hn h4 hlt] at hr
      cases hr
      simp only
      omega
    · unfold readElementWrap at hr
      simp only [if_pos (show p.c.read + n > p.c.dataSize from hfar), ← htail, h4, ne_eq,
        not_true_eq_false, ↓reduceIte, writeToClient_neg (show 2 ^ 31 ≤ tail by omega)
        (show tail < 2 ^ 32 by omega), Exec.error_bind] at hr
      cases hr
  · rw [if_neg h4] at hfit
    by_cases hlt : tail / 4 * 4 < 2 ^ 31
    · by_cases hend : tail / 4 * 4 + 4 ≤ n
      · rw [p.readElementWrap_bounce hfar hD h4 hlt hend] at hr
        cases hr
        simp only
        omega
      -- the bounce buffer is longer than what is left to send
      · have hdm : tail / 4 * 4 + tail % 4 = tail := Nat.div_add_mod' tail 4
        unfold readElementWrap at hr
        simp only [if_pos (show p.c.read + n > p.c.dataSize from hfar), ← htail, if_pos h4] at hr
        obtain ⟨_, _, hr⟩ := Exec.bind_eq_ok.1 hr
        obtain ⟨_, _, hr⟩ := Exec.bind_eq_ok.1 hr
        cases hr
        simp only
        rw [sub32_eq hn (by omega)]
        unfold sub32
        split_ifs <;> omega
    · unfold readElementWrap at hr
      simp only [if_pos (show p.c.read + n > p.c.dataSize from hfar), ← htail, if_pos h4,
        writeToClient_neg (show 2 ^ 31 ≤ tail / 4 * 4 by omega)
        (show tail / 4 * 4 < 2 ^ 32 by omega), Exec.error_bind] at hr
      cases hr

/-- Where the pieces do not fit, one of them has a negative length. -/
theorem readElementPort_fault (hD : bytesSent p.c num_bytes ≤ p.c.dataSize)
    (hfit : ¬ PiecesFit p.c.dataSize p.c.read (bytesSent p.c num_bytes)) {r} :
    readElementPort p.c num_bytes ≠ .ok r := by
  intro h
  have hn : bytesSent p.c num_bytes < 2 ^ 32 := by have := p.dataSize_lt; omega
  unfold readElementPort at h
  obtain ⟨w, hw, h⟩ := Exec.bind_eq_ok.1 h
  have hneg : 2 ^ 31 ≤ w.numBytes ∧ w.numBytes < 2 ^ 32 := by
    by_cases hnear : p.c.read + bytesSent p.c num_bytes ≤ p.c.dataSize
    · simp only [PiecesFit, if_pos hnear] at hfit
      rw [p.readElementWrap_near hnear] at hw
      cases hw
      exact ⟨by simp only; omega, hn⟩
    · exact p.not_ok_of_far (by omega) hD hfit hw
  rw [if_pos (by omega), writeToClient_neg hneg.1 hneg.2] at h
  cases h

end ExportPort

/-- `ProcAuReadElement` answers a request from a port as it should exactly when the port holds as
many bytes as it says and the pieces it sends them in fit. -/
theorem delivers_iff (p : ExportPort) (num_bytes : Nat) :
    Delivers p.c num_bytes ↔ bytesSent p.c num_bytes ≤ p.c.dataSize ∧
      PiecesFit p.c.dataSize p.c.read (bytesSent p.c num_bytes) := by
  constructor
  · rintro ⟨c', rep, sent, hok, hlen, -⟩
    have hD : bytesSent p.c num_bytes ≤ p.c.dataSize := by
      rw [Ring.length_window, p.data_length] at hlen
      omega
    refine ⟨hD, ?_⟩
    by_contra hfit
    exact p.readElementPort_fault hD hfit hok
  · rintro ⟨hD, hfit⟩
    exact p.delivers hD hfit

/-- A port of eight bytes, full, read up to three bytes before its end. -/
def tailPort : ExportPort where
  c := { format := 2, numTracks := 1, minibufSize := 0, bytesPerSample := 1, dataSize := 8
         data := [1, 2, 3, 4, 5, 6, 7, 8], read := 7, write := 7, currentSize := 8 }
  data_length := rfl
  dataSize_lt := by decide
  read_lt := .inl (by decide)
  currentSize_lt := by decide

/-- Two bytes, one from the end of the port and one from its beginning, are not delivered. -/
theorem tailPort_not_delivers : ¬ ∀ (p : ExportPort) (num_bytes : Nat),
    bytesSent p.c num_bytes ≤ p.c.dataSize → Delivers p.c num_bytes := by
  intro h
  obtain ⟨c', rep, sent, hok, -⟩ := h tailPort 2 (by decide)
  have : readElementPort tailPort.c 2 = .error .fault := by decide
  rw [this] at hok
  cases hok

end Nas
