import Nas.Io

/-!
# Input framing

The requests a client's stream is cut into do not depend on how `read` cuts the stream, on when it has
nothing, or on what other clients do with the buffers they share.

`ConnectionInput.readRequest` and `insert` are described by the bytes of a buffer that were not delivered
yet (`pending`): of these and the socket's bytes together, `readRequest` takes the first request if it is
there (`readRequest_spec`), and `insert` puts bytes in front (`insert_spec`). `InputInv` says so of all
connections at once: what has been delivered to a client and what is left are a state of the `Feed` of its
stream, in every state of a run (`step_inv`).
-/

namespace Nas.Io

/-! ### Requests in bytes -/

/-- The length of a request by its header, in bytes. -/
def headerLength (order : ByteOrder) (l : List UInt8) : Nat := 4 * order.decode (Memory.slice l 2 4)

/-- Where the first request of some bytes ends. -/
def requestEnd (order : ByteOrder) (l : List UInt8) : Option Nat :=
  if sizeofAuReq ≤ l.length ∧ orHeader (headerLength order l) ≤ l.length then
    some (orHeader (headerLength order l))
  else none

theorem headerLength_append {order : ByteOrder} {l : List UInt8} (l' : List UInt8) (h : sizeofAuReq ≤ l.length) :
    headerLength order (l ++ l') = headerLength order l := by
  rw [headerLength, headerLength, Memory.slice, Memory.slice,
    List.take_append_of_le_length (show 4 ≤ l.length from h)]

def requests : Framer ByteOrder UInt8 where
  frame := requestEnd
  le h := by
    unfold requestEnd at h
    split at h
    · cases h; exact ‹_ ∧ _›.2
    · cases h
  append l' h := by
    unfold requestEnd at h ⊢
    split at h
    · rename_i hl
      rw [headerLength_append l' hl.1, if_pos, h]
      rw [List.length_append]
      omega
    · cases h

theorem requestEnd_none {order : ByteOrder} {l : List UInt8} (h : l.length < sizeofAuReq) :
    requestEnd order l = none := by
  unfold requestEnd
  rw [if_neg (by omega)]

namespace ConnectionInput
variable {oci oci' : ConnectionInput} {order : ByteOrder} {env : ReadEnv} {socket socket' : List UInt8}

/-- The bytes from the current request on. -/
def unread (oci : ConnectionInput) : List UInt8 := Memory.slice oci.buffer oci.bufptr oci.bufcnt

/-- The bytes behind the current request. -/
def pending (oci : ConnectionInput) : List UInt8 :=
  Memory.slice oci.buffer (oci.bufptr + oci.lenLastReq) oci.bufcnt

structure Ok (oci : ConnectionInput) : Prop where
  length : oci.buffer.length = oci.size
  le : oci.bufptr + oci.lenLastReq ≤ oci.bufcnt
  bufcnt_le : oci.bufcnt ≤ oci.size

namespace Ok

theorem length_unread (h : oci.Ok) : oci.unread.length = oci.gotnow := by
  rw [unread, Memory.length_slice (by rw [h.length]; exact h.bufcnt_le), gotnow]

theorem bufptr_le (h : oci.Ok) : oci.bufptr ≤ oci.bufcnt := le_trans (Nat.le_add_right ..) h.le

theorem gotnow_eq (h : oci.Ok) : oci.bufptr + oci.gotnow = oci.bufcnt := by
  have := h.bufptr_le
  rw [gotnow]
  omega

theorem advance (h : oci.Ok) : oci.advance.forget.Ok ∧ oci.advance.forget.unread = oci.pending :=
  ⟨⟨h.length, h.le, h.bufcnt_le⟩, rfl⟩

theorem forget (h : oci.Ok) : oci.forget.Ok := ⟨h.length, h.bufptr_le, h.bufcnt_le⟩

theorem pending_forget : oci.forget.pending = oci.unread := rfl

theorem resize (h : oci.Ok) {size : Nat} (hs : oci.bufcnt ≤ size) :
    (oci.resize size).Ok ∧ (oci.resize size).unread = oci.unread := by
  refine ⟨⟨Memory.length_realloc, h.le, hs⟩, ?_⟩
  exact Memory.slice_realloc hs (by rw [h.length]; exact h.bufcnt_le)

end Ok

theorem reqBytes_eq {buffer : List UInt8} {p e : Nat} (hp : p + sizeofAuReq ≤ e) (he : e ≤ buffer.length) :
    reqBytes order buffer p = .ok (headerLength order (Memory.slice buffer p e)) := by
  rw [sizeofAuReq] at hp
  unfold reqBytes
  rw [Memory.load_ok (by omega), Exec.ok_bind, headerLength, Memory.slice_eq (Memory.slice ..), Memory.drop_slice,
    Memory.take_slice (by omega)]

theorem Ok.reqBytes (h : oci.Ok) (hg : sizeofAuReq ≤ oci.gotnow) (order : ByteOrder) :
    reqBytes order oci.buffer oci.bufptr = .ok (headerLength order oci.unread) :=
  reqBytes_eq (by rw [← h.gotnow_eq]; omega) (by rw [h.length]; exact h.bufcnt_le)

/-- What `readRequest` finds in the bytes of the buffer and the socket. -/
inductive Outcome (order : ByteOrder) (env : ReadEnv) (oci oci' : ConnectionInput) (socket socket' : List UInt8) :
    ReadStatus → Prop where
  | request (n : Nat) : requestEnd order (oci.pending ++ socket) = some n → oci'.lenLastReq = n →
      oci'.unread ++ socket' = oci.pending ++ socket → n ≤ oci'.gotnow →
      Outcome order env oci oci' socket socket' (.request ((oci.pending ++ socket).take n))
  | incomplete : oci'.lenLastReq = 0 → oci'.unread ++ socket' = oci.pending ++ socket →
      (socket = [] → requestEnd order oci.pending = none) →
      (env.read = .again ∨ socket = [] ∨ socket'.length < socket.length) →
      Outcome order env oci oci' socket socket' .incomplete
  | dead : env.read = .fails ∨ env.grow = false → Outcome order env oci oci' socket socket' .dead

theorem makeRoom_spec (h : oci.Ok) (h0 : oci.lenLastReq = 0) (grow : Bool) {needed : Nat}
    (hn : oci.gotnow < needed) :
    ∃ room oci', oci.makeRoom grow needed = .ok (room, oci') ∧ oci'.Ok ∧ oci'.lenLastReq = 0 ∧
      (room = true → oci'.unread = oci.unread ∧ oci'.bufcnt < oci'.size) ∧ (room = false → grow = false) := by
  have hle := h.bufcnt_le
  have hp := h.gotnow_eq
  unfold makeRoom
  by_cases hroom : oci.gotnow = 0 ∨ oci.bufptr + needed > oci.size
  swap
  · rw [if_neg hroom]
    exact ⟨true, oci, rfl, h, h0, fun _ => ⟨rfl, by omega⟩, fun hf => by cases hf⟩
  rw [if_pos hroom]
  -- the bytes that are there are at the front now
  obtain ⟨buffer, hb, hlen, hs⟩ : ∃ buffer, (if oci.gotnow > 0 ∧ oci.bufptr ≠ 0 then
      Memory.move oci.buffer oci.bufptr 0 oci.gotnow else .ok oci.buffer : Exec _) = .ok buffer ∧
      buffer.length = oci.size ∧ Memory.slice buffer 0 oci.gotnow = oci.unread := by
    by_cases hm : oci.gotnow > 0 ∧ oci.bufptr ≠ 0
    · obtain ⟨buffer, hb, hst⟩ := Memory.move_ok (m := oci.buffer) (a := oci.bufptr) (n := oci.gotnow) (d := 0)
        (by rw [h.length]; omega) (by rw [h.length]; omega)
      refine ⟨buffer, by rw [if_pos hm, hb], by rw [hst.length, h.length], ?_⟩
      have := hst.slice_self
      rwa [Memory.length_slice (by rw [h.length]; omega), hp, Nat.zero_add,
        show oci.bufcnt - oci.bufptr = oci.gotnow from rfl] at this
    · refine ⟨oci.buffer, by rw [if_neg hm], h.length, ?_⟩
      rcases Nat.eq_zero_or_pos oci.gotnow with hz | hz
      · have := h.length_unread
        rw [hz] at this ⊢
        rw [List.length_eq_zero_iff.1 this, Memory.slice_self]
      · have hb0 : oci.bufptr = 0 := by_contra fun hb => hm ⟨hz, hb⟩
        rw [unread, hb0, ← hp, hb0, Nat.zero_add]
  rw [hb, Exec.ok_bind]
  have hfront : ({ oci with buffer, bufptr := 0, bufcnt := oci.gotnow } : ConnectionInput).Ok :=
    ⟨hlen, by simp [h0], by dsimp only; omega⟩
  by_cases hsize : needed ≤ oci.size
  · rw [if_pos hsize]
    exact ⟨true, _, rfl, hfront, h0, fun _ => ⟨hs, by dsimp only; omega⟩, fun hf => by cases hf⟩
  · rw [if_neg hsize]
    cases grow with
    | true =>
      obtain ⟨hok, hu⟩ := hfront.resize (show _ ≤ needed from Nat.le_of_lt hn)
      exact ⟨true, _, rfl, hok, h0, fun _ => ⟨hu.trans hs, hn⟩, fun hf => by cases hf⟩
    | false => exact ⟨false, _, rfl, ⟨hlen, h.le, hle⟩, h0, (fun hf => by cases hf), fun _ => rfl⟩

theorem deliver_ok (h : oci.Ok) {needed : Nat} (hn : orHeader needed ≤ oci.gotnow) :
    oci.deliver needed =
        .ok (.request (oci.unread.take (orHeader needed)), { oci with lenLastReq := orHeader needed }) ∧
      ({ oci with lenLastReq := orHeader needed } : ConnectionInput).Ok := by
  have hle := h.bufcnt_le
  have hp := h.gotnow_eq
  refine ⟨?_, h.length, by dsimp only; omega, hle⟩
  unfold deliver
  rw [Memory.load_ok (by rw [h.length]; omega), Exec.ok_bind, unread, Memory.take_slice (by omega)]

theorem shrinkTo_ok (h : oci.Ok) (shrink : Bool) (needed : Nat) :
    (oci.shrinkTo shrink needed).Ok ∧ (oci.shrinkTo shrink needed).unread = oci.unread ∧
      (oci.shrinkTo shrink needed).lenLastReq = oci.lenLastReq := by
  unfold shrinkTo
  split
  · obtain ⟨hok, hu⟩ := h.resize (show _ ≤ bufSize from Nat.le_of_lt ‹_ ∧ _ ∧ _ ∧ _›.2.1)
    exact ⟨hok, hu, rfl⟩
  · exact ⟨h, rfl, rfl⟩

theorem run_again {r : Read} {room : Nat} (h : r.run socket room = .again) : r = .again ∨ socket = [] := by
  cases r with
  | again => exact .inl rfl
  | fails => cases h
  | upTo n =>
    rw [Read.run] at h
    split at h
    · cases h
    · split at h
      · exact .inr ‹_›
      · cases h

theorem run_dead {r : Read} {room : Nat} (h : r.run socket room = .dead) (hroom : 0 < room) : r = .fails := by
  cases r with
  | again => cases h
  | fails => rfl
  | upTo n =>
    rw [Read.run, if_neg (Nat.ne_of_gt hroom)] at h
    split at h <;> cases h

theorem run_bytes {r : Read} {room : Nat} {l : List UInt8} (h : r.run socket room = .bytes l) (hroom : 0 < room) :
    socket ≠ [] ∧ l.length ≤ room ∧ l ++ socket.drop l.length = socket ∧ 0 < l.length := by
  cases r with
  | again => cases h
  | fails => cases h
  | upTo n =>
    rw [Read.run] at h
    split at h
    · cases h
    · split at h
      · cases h
      · cases h
        have hpos := List.length_pos_iff.2 ‹_›
        refine ⟨‹_›, by simp, ?_, by rw [List.length_take]; omega⟩
        rw [List.length_take]
        rcases Nat.le_total (min (n + 1) room) socket.length with hle | hle
        · rw [Nat.min_eq_left hle, List.take_append_drop]
        · rw [Nat.min_eq_right hle, List.take_of_length_le hle, List.drop_length, List.append_nil]

theorem orHeader_pos (needed : Nat) : 0 < orHeader needed := by
  unfold orHeader
  split
  · exact Nat.zero_lt_succ _
  · omega

theorem requestEnd_some {l : List UInt8} {n : Nat} (h : sizeofAuReq ≤ l.length)
    (hn : orHeader (headerLength order l) = n) (hle : n ≤ l.length) : requestEnd order l = some n := by
  rw [requestEnd, hn, if_pos ⟨h, hle⟩]

theorem requestEnd_short {l : List UInt8} (hn : l.length < headerLength order l) : requestEnd order l = none := by
  have hpos : headerLength order l ≠ 0 := by omega
  rw [requestEnd, orHeader, if_neg hpos, if_neg (by omega)]

/-- A request that is in the buffer as a whole is the first of all the bytes. -/
theorem deliver_outcome {start : ConnectionInput} (h : oci.Ok)
    (hu : oci.unread ++ socket' = start.pending ++ socket) (hhead : sizeofAuReq ≤ oci.gotnow)
    {needed : Nat} (hneeded : needed = headerLength order oci.unread) (hn : needed ≤ oci.gotnow) :
    ∃ status oci', oci.deliver needed = .ok (status, oci') ∧ oci'.Ok ∧
      Outcome order env start oci' socket socket' status := by
  have hle : orHeader needed ≤ oci.gotnow := by
    unfold orHeader
    split
    · exact hhead
    · exact hn
  obtain ⟨hd, hok⟩ := deliver_ok h hle
  have hlen := h.length_unread
  have hend : requestEnd order oci.unread = some (orHeader needed) :=
    requestEnd_some (by omega) (by rw [hneeded]) (by omega)
  refine ⟨_, _, hd, hok, ?_⟩
  have ht : oci.unread.take (orHeader needed) = (start.pending ++ socket).take (orHeader needed) := by
    rw [← hu, List.take_append_of_le_length (by omega)]
  rw [ht]
  exact .request _ (by rw [← hu]; exact requests.append _ hend) rfl hu hle

theorem headerLength_le {l : List UInt8} (h : sizeofAuReq ≤ l.length) : headerLength order l ≤ maxBufSize := by
  have hlt := ByteOrder.decode_lt (o := order) (Memory.length_slice (m := l) (a := 2) (b := 4) h)
  rw [headerLength, maxBufSize]
  omega

theorem fill_spec {start : ConnectionInput} (h : oci.Ok) (h0 : oci.lenLastReq = 0) (hu : oci.unread = start.pending)
    (env : ReadEnv) {needHeader : Bool} {needed : Nat} (hn : oci.gotnow < needed)
    (hh : if needHeader then needed = sizeofAuReq else
      sizeofAuReq ≤ oci.gotnow ∧ needed = headerLength order oci.unread) :
    ∃ status oci' socket', oci.fill order env needHeader needed socket = .ok (status, oci', socket') ∧ oci'.Ok ∧
      Outcome order env start oci' socket socket' status := by
  have hforget : oci.forget = oci := by rw [forget, ← h0]
  have hlen := h.length_unread
  unfold fill
  have hbig : ¬ needed > maxBufSize := by
    cases needHeader with
    | true =>
      rw [if_pos rfl] at hh
      rw [hh, sizeofAuReq, maxBufSize]
      omega
    | false =>
      rw [if_neg (by simp)] at hh
      rw [hh.2]
      exact Nat.not_lt.2 (headerLength_le (by rw [hlen]; exact hh.1))
  rw [if_neg hbig, hforget]
  obtain ⟨room, oci₁, hroom, h₁, h₁0, hsame, hgrow⟩ := makeRoom_spec h h0 env.grow hn
  rw [hroom, Exec.ok_bind]
  cases room with
  | false => exact ⟨.dead, oci₁, socket, rfl, h₁, .dead (.inr (hgrow rfl))⟩
  | true =>
    obtain ⟨hu₁, hlt⟩ := hsame rfl
    dsimp only
    rw [if_neg (by simp)]
    have hlen₁ := h₁.length_unread
    rw [hu₁, hlen] at hlen₁
    cases hread : env.read.run socket (oci₁.size - oci₁.bufcnt) with
    | again =>
      refine ⟨.incomplete, oci₁, socket, rfl, h₁, .incomplete h₁0 (by rw [hu₁, hu]) (fun _ => ?_) ?_⟩
      swap
      · exact (run_again hread).imp_right .inl
      rw [← hu]
      cases needHeader with
      | true =>
        rw [if_pos rfl] at hh
        exact requestEnd_none (by omega)
      | false =>
        rw [if_neg (by simp)] at hh
        exact requestEnd_short (by omega)
    | dead => exact ⟨.dead, oci₁, socket, rfl, h₁, .dead (.inl (run_dead hread (by omega)))⟩
    | bytes l =>
      obtain ⟨hne, hl, hsplit, hpos⟩ := run_bytes hread (by omega)
      obtain ⟨buffer, hstore, hst⟩ := Memory.store_ok
        (show oci₁.bufcnt + l.length ≤ oci₁.buffer.length by rw [h₁.length]; omega)
      dsimp only
      rw [hstore, Exec.ok_bind]
      have h₂ : ({ oci₁ with buffer, bufcnt := oci₁.bufcnt + l.length } : ConnectionInput).Ok :=
        ⟨by rw [hst.length]; exact h₁.length, by have := h₁.le; dsimp only; omega, by dsimp only; omega⟩
      have hu₂ : ({ oci₁ with buffer, bufcnt := oci₁.bufcnt + l.length } : ConnectionInput).unread =
          oci.unread ++ l := by
        rw [unread, ← Memory.slice_append h₁.bufptr_le (Nat.le_add_right ..), hst.slice_self,
          hst.slice_below le_rfl, ← hu₁]
        rfl
      obtain ⟨h₃, hu₃, h₃0⟩ := shrinkTo_ok h₂ env.shrink needed
      generalize ({ oci₁ with buffer, bufcnt := oci₁.bufcnt + l.length } : ConnectionInput).shrinkTo env.shrink
        needed = oci₃ at h₃ hu₃ h₃0 ⊢
      rw [hu₂] at hu₃
      have hrest : oci₃.unread ++ socket.drop l.length = start.pending ++ socket := by
        rw [hu₃, List.append_assoc, hsplit, hu]
      have hlen₃ := h₃.length_unread
      rw [hu₃, List.length_append, hlen] at hlen₃
      have hinc : Outcome order env start oci₃ socket (socket.drop l.length) .incomplete :=
        .incomplete (h₃0.trans h₁0) hrest (fun h => absurd h hne) (.inr (.inr (by
          have := List.length_pos_iff.2 hne
          rw [List.length_drop]
          omega)))
      -- the length is known as soon as there is a header
      have hneeded : ∃ needed', (if needHeader ∧ oci₃.gotnow ≥ needed then
          reqBytes order oci₃.buffer oci₃.bufptr else .ok needed : Exec Nat) = .ok needed' ∧
          (needed' ≤ oci₃.gotnow → sizeofAuReq ≤ oci₃.gotnow ∧ needed' = headerLength order oci₃.unread) := by
        cases needHeader with
        | true =>
          rw [if_pos rfl] at hh
          by_cases hgot : oci₃.gotnow ≥ needed
          · exact ⟨_, by rw [if_pos ⟨rfl, hgot⟩, h₃.reqBytes (by omega)], fun _ => ⟨by omega, rfl⟩⟩
          · exact ⟨needed, by rw [if_neg (by simp [hgot])], fun hle => absurd hle (by omega)⟩
        | false =>
          rw [if_neg (by simp)] at hh
          refine ⟨needed, by simp, fun hle => ⟨by omega, ?_⟩⟩
          rw [hu₃, headerLength_append l (by omega), hh.2]
      obtain ⟨needed', hn', hknown⟩ := hneeded
      rw [hn', Exec.ok_bind]
      by_cases hgot : oci₃.gotnow < needed'
      · exact ⟨_, _, _, by rw [if_pos hgot], h₃, hinc⟩
      · rw [if_neg hgot]
        obtain ⟨hhead, heq⟩ := hknown (by omega)
        obtain ⟨status, oci', hd, hok, ho⟩ := deliver_outcome h₃ hrest hhead heq (by omega)
        exact ⟨status, oci', _, by rw [hd, Exec.ok_bind], hok, ho⟩

/-- `fill` and `deliver` do not depend on the length of the last request. -/
theorem readRequest_eq (order : ByteOrder) (env : ReadEnv) (socket : List UInt8) :
    oci.readRequest order env socket =
      (if oci.advance.forget.gotnow < sizeofAuReq then oci.advance.forget.fill order env true sizeofAuReq socket
      else do
        let needed ← reqBytes order oci.advance.forget.buffer oci.advance.forget.bufptr
        if oci.advance.forget.gotnow < needed then oci.advance.forget.fill order env false needed socket
        else do
          let delivered ← oci.advance.forget.deliver needed
          .ok (delivered.1, delivered.2, socket)) := rfl

/-- Of the bytes that were not delivered, in the buffer and the socket together, `readRequest` takes the
first request, when it can be had. -/
theorem readRequest_spec (h : oci.Ok) (order : ByteOrder) (env : ReadEnv) (socket : List UInt8) :
    ∃ status oci' socket', oci.readRequest order env socket = .ok (status, oci', socket') ∧ oci'.Ok ∧
      Outcome order env oci oci' socket socket' status := by
  obtain ⟨hf, hu⟩ := h.advance
  rw [readRequest_eq]
  have h0 : oci.advance.forget.lenLastReq = 0 := rfl
  generalize oci.advance.forget = oci₁ at hf hu h0 ⊢
  by_cases hgot : oci₁.gotnow < sizeofAuReq
  · rw [if_pos hgot]
    exact fill_spec hf h0 hu env hgot (by simp)
  · rw [if_neg hgot, hf.reqBytes (by omega), Exec.ok_bind]
    by_cases hwhole : oci₁.gotnow < headerLength order oci₁.unread
    · rw [if_pos hwhole]
      exact fill_spec hf h0 hu env hwhole (by rw [if_neg (by simp)]; exact ⟨by omega, rfl⟩)
    · rw [if_neg hwhole]
      have hall : oci₁.unread ++ socket = oci.pending ++ socket := by rw [hu]
      have hlen : headerLength order oci₁.unread = headerLength order oci₁.unread := rfl
      obtain ⟨status, oci', hd, hok, ho⟩ := deliver_outcome hf hall (by omega) hlen (by omega)
      exact ⟨status, oci', socket, by rw [hd, Exec.ok_bind], hok, ho⟩

theorem push_spec (h : oci.Ok) (h0 : oci.lenLastReq = 0) {data : List UInt8}
    (hsize : oci.gotnow + data.length ≤ oci.size) :
    ∃ oci', oci.push data = .ok oci' ∧ oci'.Ok ∧ oci'.lenLastReq = 0 ∧ oci'.unread = data ++ oci.unread := by
  have hp := h.gotnow_eq
  have hle := h.bufcnt_le
  unfold push
  dsimp only
  generalize hm : data.length - oci.bufptr = moveup
  -- the bytes that are there have moved up
  obtain ⟨buffer, hb, hlen, hs⟩ : ∃ buffer, (if moveup > 0 ∧ oci.gotnow > 0 then
      Memory.move oci.buffer oci.bufptr (oci.bufptr + moveup) oci.gotnow else .ok oci.buffer : Exec _) = .ok buffer ∧
      buffer.length = oci.size ∧
      Memory.slice buffer (oci.bufptr + moveup) (oci.bufcnt + moveup) = oci.unread := by
    by_cases hmove : moveup > 0 ∧ oci.gotnow > 0
    · obtain ⟨buffer, hb, hst⟩ := Memory.move_ok (m := oci.buffer) (a := oci.bufptr) (n := oci.gotnow)
        (d := oci.bufptr + moveup) (by rw [h.length]; omega) (by rw [h.length]; omega)
      refine ⟨buffer, by rw [if_pos hmove, hb], by rw [hst.length, h.length], ?_⟩
      have := hst.slice_self
      rwa [Memory.length_slice (by rw [h.length]; omega), hp,
        show oci.bufptr + moveup + (oci.bufcnt - oci.bufptr) = oci.bufcnt + moveup by omega] at this
    · refine ⟨oci.buffer, by rw [if_neg hmove], h.length, ?_⟩
      by_cases hz : moveup = 0
      · rw [hz]; rfl
      · have hg : oci.bufcnt = oci.bufptr := by omega
        rw [unread, hg, Memory.slice_self, Memory.slice_self]
  rw [hb, Exec.ok_bind]
  have hend : oci.bufptr + moveup - data.length + data.length = oci.bufptr + moveup := by omega
  obtain ⟨buffer', hb', hst⟩ := Memory.store_ok
    (show oci.bufptr + moveup - data.length + data.length ≤ buffer.length by rw [hlen, hend]; omega)
  rw [hb', Exec.ok_bind]
  refine ⟨_, rfl, ⟨by rw [hst.length, hlen], by dsimp only; rw [h0]; omega, by dsimp only; omega⟩, h0, ?_⟩
  rw [unread]
  dsimp only
  have hself := hst.slice_self
  rw [hend] at hself
  rw [← Memory.slice_append (b := oci.bufptr + moveup) (by omega) (by omega), hself,
    hst.slice_above (by omega), hs]

/-- `insert` puts bytes before those that were not delivered. -/
theorem insert_spec (h : oci.Ok) (grow : Bool) (data : List UInt8) :
    ∃ done oci', oci.insert grow data = .ok (done, oci') ∧ oci'.Ok ∧ oci'.lenLastReq = 0 ∧
      (done = true → oci'.unread = data ++ oci.pending) := by
  obtain ⟨hf, hu⟩ := h.advance
  have hle := hf.bufcnt_le
  have hgot : oci.advance.forget.gotnow ≤ oci.advance.forget.bufcnt := Nat.sub_le ..
  unfold insert
  dsimp only
  by_cases hs : oci.advance.forget.gotnow + data.length ≤ oci.advance.forget.size
  · obtain ⟨oci', hp, hok, h0, hu'⟩ := push_spec hf rfl hs
    exact ⟨true, oci', by rw [if_pos hs, hp]; rfl, hok, h0, fun _ => by rw [hu', hu]⟩
  · rw [if_neg hs]
    cases grow with
    | false => exact ⟨false, _, by rw [if_neg (by simp)], hf, rfl, fun h => by cases h⟩
    | true =>
      obtain ⟨hr, hur⟩ := hf.resize
        (show _ ≤ oci.advance.forget.gotnow + data.length by omega)
      obtain ⟨oci', hp, hok, h0, hu'⟩ := push_spec hr rfl (show _ + _ ≤ _ from le_rfl)
      exact ⟨true, oci', by rw [if_pos rfl, hp]; rfl, hok, h0, fun _ => by rw [hu', hur, hu]⟩

/-- Looking for a header never leaves the buffer. -/
theorem whole_ok (order : ByteOrder) (h : oci.Ok) {p gotnow : Nat} (hp : p + gotnow = oci.bufcnt) :
    ∃ whole, oci.whole order p gotnow = .ok whole := by
  unfold whole
  by_cases hg : gotnow < sizeofAuReq
  · exact ⟨_, by rw [if_pos hg]⟩
  · rw [if_neg hg, reqBytes_eq (e := oci.bufcnt) (by omega) (by rw [h.length]; exact h.bufcnt_le)]
    exact ⟨_, rfl⟩

end ConnectionInput

end Nas.Io
