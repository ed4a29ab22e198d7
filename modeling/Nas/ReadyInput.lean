import Nas.InputInv

/-!
# Requests that wait

`ClientsWithInput` has a client's bit exactly if a whole request waits in its buffer, behind the one that was
delivered last (`Right`). `ReadRequestFromClient`, `InsertFakeRequest` and `ResetCurrentRequest` each find out
anew, in the byte order that the client has by then; all other steps leave the bits and what waits alone, or
end the connection (`reach_right`).
-/

namespace Nas.Io
open ConnectionInput

variable {s s' s'' : IoState} {c d : ConnPtr} {conn conn' : Connection} {oci oci' : ConnectionInput} {fd : Nat}
  {order : ByteOrder}

/-! ### A partial request -/

namespace ConnectionInput

/-- `whole` is what it says. -/
theorem whole_eq (h : oci.Ok) {p gotnow : Nat} (hp : p + gotnow = oci.bufcnt) :
    oci.whole order p gotnow = .ok (requestEnd order (Memory.slice oci.buffer p oci.bufcnt)).isSome := by
  have hlen : (Memory.slice oci.buffer p oci.bufcnt).length = gotnow := by
    rw [Memory.length_slice (by rw [h.length]; exact h.bufcnt_le)]
    omega
  unfold whole
  by_cases hg : gotnow < sizeofAuReq
  · rw [if_pos hg, requestEnd_none (by omega)]
    rfl
  · rw [if_neg hg, reqBytes_eq (e := oci.bufcnt) (by omega) (by rw [h.length]; exact h.bufcnt_le), Exec.ok_bind]
    by_cases hle : headerLength order (Memory.slice oci.buffer p oci.bufcnt) ≤ gotnow
    · have hend : orHeader (headerLength order (Memory.slice oci.buffer p oci.bufcnt)) ≤
          (Memory.slice oci.buffer p oci.bufcnt).length := by
        unfold orHeader
        split <;> omega
      rw [requestEnd_some (by omega) rfl hend, decide_eq_true hle]
      rfl
    · rw [requestEnd_short (by omega), decide_eq_false hle]
      rfl

/-- Of a request that is not there as a whole, `fill` finds out the same. -/
theorem fill_incomplete (h : oci.Ok) (h0 : oci.lenLastReq = 0) {env : ReadEnv} {needHeader : Bool} {needed : Nat}
    {socket socket' : List UInt8} (hn : oci.gotnow < needed)
    (hh : if needHeader then needed = sizeofAuReq else sizeofAuReq ≤ oci.gotnow ∧ needed = headerLength order oci.unread)
    (he : oci.fill order env needHeader needed socket = .ok (.incomplete, oci', socket')) :
    requestEnd order oci'.unread = none := by
  have hforget : oci.forget = oci := by rw [forget, ← h0]
  have hlen := h.length_unread
  -- what is there is too short
  have hshort : requestEnd order oci.unread = none := by
    rcases needHeader with _ | _
    · rw [if_neg (by simp)] at hh
      exact requestEnd_short (by omega)
    · rw [if_pos rfl] at hh
      exact requestEnd_none (by omega)
  unfold fill at he
  rw [hforget] at he
  split at he
  · cases he
  obtain ⟨room, oci₁, hroom, h₁, -, hsame, -⟩ := makeRoom_spec h h0 env.grow hn
  rw [hroom, Exec.ok_bind] at he
  rcases room with _ | _
  · cases he
  obtain ⟨hu₁, hlt⟩ := hsame rfl
  dsimp only at he
  rw [if_neg (by simp)] at he
  split at he
  · cases he
    rw [hu₁]
    exact hshort
  · cases he
  rename_i l hread
  obtain ⟨-, hl, -, -⟩ := run_bytes hread (by omega)
  obtain ⟨buffer, hstore, he⟩ := Exec.bind_eq_ok.1 he
  have hst := Memory.store_eq_ok.1 hstore
  have h₂ : ({ oci₁ with buffer, bufcnt := oci₁.bufcnt + l.length } : ConnectionInput).Ok :=
    ⟨by rw [hst.length]; exact h₁.length, by have := h₁.le; dsimp only; omega, by dsimp only; omega⟩
  have hu₂ : ({ oci₁ with buffer, bufcnt := oci₁.bufcnt + l.length } : ConnectionInput).unread = oci.unread ++ l := by
    rw [unread, ← Memory.slice_append h₁.bufptr_le (Nat.le_add_right ..), hst.slice_self, hst.slice_below le_rfl, ← hu₁]
    rfl
  obtain ⟨h₃, hu₃, -⟩ := shrinkTo_ok h₂ env.shrink needed
  generalize ({ oci₁ with buffer, bufcnt := oci₁.bufcnt + l.length } : ConnectionInput).shrinkTo env.shrink needed =
    oci₃ at h₃ hu₃ he
  rw [hu₂] at hu₃
  have hlen₃ := h₃.length_unread
  obtain ⟨needed', hn', he⟩ := Exec.bind_eq_ok.1 he
  split at he
  · rename_i hgot
    cases he
    rcases needHeader with _ | _
    · rw [if_neg (by simp)] at hh
      rw [if_neg (by simp)] at hn'
      cases hn'
      refine requestEnd_short ?_
      rw [hlen₃, hu₃, headerLength_append l (by omega), ← hh.2]
      exact hgot
    · rw [if_pos rfl] at hh
      by_cases hhead : oci'.gotnow ≥ needed
      · rw [if_pos ⟨rfl, hhead⟩, h₃.reqBytes (by omega)] at hn'
        cases hn'
        exact requestEnd_short (by omega)
      · exact requestEnd_none (by omega)
  · obtain ⟨⟨status, oci₄⟩, hd, he⟩ := Exec.bind_eq_ok.1 he
    obtain ⟨req, -, hd⟩ := Exec.bind_eq_ok.1 hd
    cases hd
    cases he

theorem readRequest_incomplete (h : oci.Ok) {env : ReadEnv} {socket socket' : List UInt8}
    (he : oci.readRequest order env socket = .ok (.incomplete, oci', socket')) : requestEnd order oci'.unread = none := by
  obtain ⟨hf, -⟩ := h.advance
  rw [readRequest_eq] at he
  have h0 : oci.advance.forget.lenLastReq = 0 := rfl
  generalize oci.advance.forget = oci₁ at hf h0 he
  split at he
  · rename_i hgot
    exact fill_incomplete hf h0 hgot (by simp) he
  rename_i hgot
  rw [hf.reqBytes (by omega), Exec.ok_bind] at he
  split at he
  · rename_i hwhole
    exact fill_incomplete hf h0 hwhole (by rw [if_neg (by simp)]; exact ⟨by omega, rfl⟩) he
  · obtain ⟨⟨status, oci₂⟩, hd, he⟩ := Exec.bind_eq_ok.1 he
    obtain ⟨req, -, hd⟩ := Exec.bind_eq_ok.1 hd
    cases hd
    cases he

end ConnectionInput

/-! ### The bits -/

/-- The bit of a client says whether a whole request waits in its buffer. -/
def Right (s : IoState) (c : ConnPtr) (conn : Connection) : Prop :=
  s.clientsWithInput conn.fd = true ↔ (requestEnd conn.order (pendingOf s c)).isSome = true

/-- The bits of other descriptors stay. -/
def OtherBits (fd : Nat) (s s' : IoState) : Prop := ∀ fd', fd' ≠ fd → s'.clientsWithInput fd' = s.clientsWithInput fd'

theorem OtherBits.of_eq (h : s'.clientsWithInput = s.clientsWithInput) : OtherBits fd s s' := fun _ _ => by rw [h]

theorem OtherBits.trans (h : OtherBits fd s s') (h' : OtherBits fd s' s'') : OtherBits fd s s'' :=
  fun fd' hne => (h' fd' hne).trans (h fd' hne)

theorem schedule_bits (fd : Nat) (whole : Bool) (s : IoState) :
    OtherBits fd s (schedule fd whole s) ∧ (schedule fd whole s).clientsWithInput fd = whole := by
  unfold schedule
  rcases whole with _ | _
  · exact ⟨fun fd' hne => Function.update_of_ne hne .., Function.update_self ..⟩
  · exact ⟨fun fd' hne => Function.update_of_ne hne .., Function.update_self ..⟩

theorem countTimes_bits (s : IoState) : (countTimes s).clientsWithInput = s.clientsWithInput := by
  unfold countTimes
  split <;> rfl

theorem releaseAvailable_bits (h : releaseAvailable c s = .ok s') : s'.clientsWithInput = s.clientsWithInput := by
  unfold releaseAvailable at h
  split at h
  · cases h
    rfl
  · split at h
    · cases h
      rfl
    · obtain ⟨aci, -, h⟩ := Exec.bind_eq_ok.1 h
      obtain ⟨inputs, -, h⟩ := Exec.bind_eq_ok.1 h
      cases h
      rfl

theorem obtainInput_bits {alloc : Bool} (h : obtainInput alloc c s = .ok (some s')) :
    s'.clientsWithInput = s.clientsWithInput := by
  unfold obtainInput at h
  split at h
  · cases h
    rfl
  · obtain ⟨r, -, h⟩ := Exec.bind_eq_ok.1 h
    rcases r with _ | inputs
    · cases h
    · cases h
      rfl

/-- After `ReadRequestFromClient` the client's bit is right, unless the client is to be closed. -/
theorem readRequestFromClient_bits (h : BuffersOk s) (hc : s.conn c = some conn) {env : ReadEnv} {status : ReadStatus}
    (he : readRequestFromClient env c s = .ok (status, s')) :
    OtherBits conn.fd s s' ∧ (status ≠ .dead →
      (s'.clientsWithInput conn.fd = true ↔ (requestEnd conn.order (pendingOf s' c)).isSome = true)) := by
  unfold readRequestFromClient at he
  rw [hc, Exec.deref_some, Exec.ok_bind] at he
  obtain ⟨s₁, h₁, ⟨-, hnone, -⟩ | ⟨s₂, oci, h₂, hprep⟩⟩ := prepare_spec h (c := c) (by simp [hc]) env.alloc
  · rw [h₁, Exec.ok_bind, hnone, Exec.ok_bind] at he
    cases he
    have hbits : s₁.clientsWithInput = s.clientsWithInput := releaseAvailable_bits h₁
    exact ⟨.of_eq hbits, fun hne => absurd rfl hne⟩
  have hbits₂ : s₂.clientsWithInput = s.clientsWithInput := (obtainInput_bits h₂).trans (releaseAvailable_bits h₁)
  rw [h₁, Exec.ok_bind, h₂, Exec.ok_bind] at he
  dsimp only at he
  rw [hprep.record, Exec.deref_some, Exec.ok_bind] at he
  obtain ⟨status', oci', socket, hread, hoci, hout⟩ := readRequest_spec hprep.ok conn.order env conn.socket
  rw [hread, Exec.ok_bind] at he
  obtain ⟨-, -, hrec⟩ := hprep.buffers.setInput hprep.record hoci (by rw [hprep.available]; simp)
  dsimp only at he
  rcases status' with req | _ | _
  · -- a request, and what is behind it
    dsimp only at he
    obtain ⟨s₃, h₃, he⟩ := Exec.bind_eq_ok.1 he
    cases he
    have hgot := hoci.gotnow_eq
    have hle := hoci.le
    unfold scheduleNext at h₃
    dsimp only at h₃
    have hwhole : oci'.whole conn.order (oci'.bufptr + oci'.lenLastReq) (oci'.gotnow - oci'.lenLastReq) =
        .ok (requestEnd conn.order oci'.pending).isSome := whole_eq hoci (by omega)
    rw [hwhole, Exec.ok_bind] at h₃
    cases h₃
    generalize hs₄ : ({ modifyConn c (·.receive socket [req]) (setInput c oci' s₂) with
      availableInput := if oci'.gotnow - oci'.lenLastReq = 0 then some c
        else (modifyConn c (·.receive socket [req]) (setInput c oci' s₂)).availableInput } : IoState) = s₄
    have hbits₄ : s₄.clientsWithInput = s.clientsWithInput := by
      subst hs₄
      exact hbits₂
    have hpending₄ : pendingOf s₄ c = oci'.pending := by
      subst hs₄
      show ((setInput c oci' s₂).outputs, pendingOf (setInput c oci' s₂) c).2 = _
      rw [pendingOf, hrec]
      rfl
    obtain ⟨hother, hself⟩ := schedule_bits conn.fd (requestEnd conn.order oci'.pending).isSome s₄
    have hsame := (schedule_same conn.fd (requestEnd conn.order oci'.pending).isSome s₄).trans (countTimes_same _)
    refine ⟨fun fd' hne => ?_, fun _ => ?_⟩
    · rw [countTimes_bits]
      exact (hother fd' hne).trans (by rw [hbits₄])
    · rw [countTimes_bits, hsame.pending, hpending₄]
      exact iff_of_eq (congrArg (· = true) hself)
  · cases he
    have hend := readRequest_incomplete hprep.ok hread
    have hlast : oci'.lenLastReq = 0 := by
      cases hout
      assumption
    refine ⟨fun fd' hne => ?_, fun _ => ?_⟩
    · exact (Function.update_of_ne hne ..).trans (by rw [← hbits₂]; rfl)
    · have hpending : pendingOf (setInput c oci' s₂) c = oci'.unread := by
        rw [pendingOf, hrec]
        show Memory.slice oci'.buffer (oci'.bufptr + oci'.lenLastReq) oci'.bufcnt = _
        rw [hlast]
        rfl
      show bitClear s₂.clientsWithInput conn.fd conn.fd = true ↔
        (requestEnd conn.order (pendingOf (setInput c oci' s₂) c)).isSome = true
      rw [hpending, hend, bitClear, Function.update_self]
      simp
  · cases he
    exact ⟨.of_eq hbits₂, fun hne => absurd rfl hne⟩

/-! ### Fake requests, and requests that are executed again -/

theorem insertFakeRequest_bits (h : BuffersOk s) (hc : s.conn c = some conn) {alloc grow done : Bool} {data : List UInt8}
    (he : insertFakeRequest alloc grow c data s = .ok (done, s')) :
    OtherBits conn.fd s s' ∧ (done = true → Right s' c conn) := by
  unfold insertFakeRequest at he
  rw [hc, Exec.deref_some, Exec.ok_bind] at he
  obtain ⟨s₁, h₁, ⟨-, hnone, -⟩ | ⟨s₂, oci, h₂, hprep⟩⟩ := prepare_spec h (c := c) (by simp [hc]) alloc
  · rw [h₁, Exec.ok_bind, hnone, Exec.ok_bind] at he
    cases he
    exact ⟨.of_eq (releaseAvailable_bits h₁), fun hf => by cases hf⟩
  have hbits₂ : s₂.clientsWithInput = s.clientsWithInput := (obtainInput_bits h₂).trans (releaseAvailable_bits h₁)
  rw [h₁, Exec.ok_bind, h₂, Exec.ok_bind] at he
  dsimp only at he
  rw [hprep.record, Exec.deref_some, Exec.ok_bind] at he
  obtain ⟨done', oci', hins, hoci, h0, -⟩ := insert_spec hprep.ok grow data
  rw [hins, Exec.ok_bind] at he
  obtain ⟨-, -, hrec⟩ := hprep.buffers.setInput hprep.record hoci (by rw [hprep.available]; simp)
  dsimp only at he
  rcases done' with _ | _
  · rw [if_pos (by simp)] at he
    cases he
    exact ⟨.of_eq hbits₂, fun hf => by cases hf⟩
  rw [if_neg (by simp), whole_eq hoci hoci.gotnow_eq, Exec.ok_bind] at he
  cases he
  have hpending : pendingOf (setInput c oci' s₂) c = Memory.slice oci'.buffer oci'.bufptr oci'.bufcnt := by
    rw [pendingOf, hrec]
    show Memory.slice oci'.buffer (oci'.bufptr + oci'.lenLastReq) oci'.bufcnt = _
    rw [h0]
    rfl
  obtain ⟨hother, hself⟩ := schedule_bits conn.fd
    (requestEnd conn.order (Memory.slice oci'.buffer oci'.bufptr oci'.bufcnt)).isSome (setInput c oci' s₂)
  refine ⟨fun fd' hne => (hother fd' hne).trans (by rw [← hbits₂]; rfl), fun _ => ?_⟩
  rw [Right, (schedule_same ..).pending, hself, hpending]

theorem resetCurrentRequest_bits (h : BuffersOk s) (hc : s.conn c = some conn)
    (he : resetCurrentRequest c s = .ok s') : OtherBits conn.fd s s' ∧ Right s' c conn := by
  unfold resetCurrentRequest at he
  rw [hc, Exec.deref_some, Exec.ok_bind] at he
  dsimp only at he
  obtain ⟨hk, ha, -, -⟩ := keepAvailable_spec h c
  have hbits : (s.keepAvailable c).clientsWithInput = s.clientsWithInput := by
    unfold IoState.keepAvailable
    split <;> rfl
  generalize s.keepAvailable c = s₁ at hk ha hbits he
  obtain ⟨oci, hr, he⟩ := Exec.bind_eq_ok.1 he
  rw [Exec.deref_eq_ok] at hr
  have ho := (hk.ok c oci hr).forget
  rw [whole_eq ho ho.gotnow_eq, Exec.ok_bind] at he
  cases he
  obtain ⟨-, -, hrec⟩ := hk.setInput hr ho fun h => absurd h ha
  have hpending : pendingOf (setInput c oci.forget s₁) c =
      Memory.slice oci.forget.buffer oci.forget.bufptr oci.forget.bufcnt := by
    rw [pendingOf, hrec]
    rfl
  generalize hw : (requestEnd conn.order
    (Memory.slice oci.forget.buffer oci.forget.bufptr oci.forget.bufcnt)).isSome = whole
  obtain ⟨hother, hself⟩ := schedule_bits conn.fd whole (setInput c oci.forget s₁)
  have hyield : (if whole = true then yieldControl (schedule conn.fd whole (setInput c oci.forget s₁))
      else schedule conn.fd whole (setInput c oci.forget s₁)).clientsWithInput =
      (schedule conn.fd whole (setInput c oci.forget s₁)).clientsWithInput := by
    split <;> rfl
  have hsame : SameInput (setInput c oci.forget s₁) (if whole = true then
      yieldControl (schedule conn.fd whole (setInput c oci.forget s₁))
      else schedule conn.fd whole (setInput c oci.forget s₁)) := by
    split
    · exact (schedule_same ..).trans (.of_eq rfl rfl rfl)
    · exact schedule_same ..
  refine ⟨fun fd' hne => ?_, ?_⟩
  · rw [hyield]
    exact (hother fd' hne).trans (by rw [← hbits]; rfl)
  · rw [Right, hyield, hsame.pending, hself, hpending, hw]

/-- A request that is put back, perhaps in another byte order. -/
theorem rewriteRequest_bits (h : BuffersOk s) (hc : s.conn c = some conn) {start : List UInt8}
    (he : rewriteRequest c start order s = .ok s') :
    OtherBits conn.fd s s' ∧ Right s' c { conn with order } := by
  unfold rewriteRequest at he
  obtain ⟨oci, hr, he⟩ := Exec.bind_eq_ok.1 he
  rw [Exec.deref_eq_ok] at hr
  obtain ⟨req, hreq, he⟩ := Exec.bind_eq_ok.1 he
  obtain ⟨buffer, hstore, he⟩ := Exec.bind_eq_ok.1 he
  have hst := Memory.store_eq_ok.1 hstore
  have ho := h.ok c oci hr
  -- the buffer may be the one that is available
  have hok' : ({ oci with buffer } : ConnectionInput).Ok := ⟨by rw [hst.length]; exact ho.length, ho.le, ho.bufcnt_le⟩
  have hset := h.setInput hr hok' fun ha => by
    obtain ⟨oci', hr', hd⟩ := h.available c ha
    cases hr.symm.trans hr'
    exact ⟨hok', hd.2⟩
  have hok := hset.1.modifyConn (c := c) (f := fun conn => { conn with order }) fun _ => rfl
  obtain ⟨hget, hgone⟩ := conn_eq_some.1 hc
  have hconn : (modifyConn c (fun conn => { conn with order }) (setInput c { oci with buffer } s)).conn c =
      some { conn with order } := by
    refine conn_eq_some.2 ⟨?_, hgone⟩
    rw [get_modifyConn, if_pos rfl]
    show (s.conns.get c).map _ = _
    rw [hget]
    rfl
  exact resetCurrentRequest_bits hok hconn he

/-! ### Output -/

theorem unblock_bits : (s.unblock fd).clientsWithInput = s.clientsWithInput := by
  unfold IoState.unblock
  split <;> rfl

theorem flushClient_bits {env : FlushEnv} {extra : List UInt8} {n : Int} (h : flushClient env c extra s = .ok (n, s')) :
    s'.clientsWithInput = s.clientsWithInput := by
  unfold flushClient at h
  obtain ⟨conn, -, h⟩ := Exec.bind_eq_ok.1 h
  split at h
  · cases h
    rfl
  dsimp only at h
  split at h
  · cases h
  obtain ⟨buffered, -, h⟩ := Exec.bind_eq_ok.1 h
  obtain ⟨⟨status, accepted⟩, -, h⟩ := Exec.bind_eq_ok.1 h
  rcases status with _ | ⟨written, notWritten⟩ | _
  · obtain ⟨s₁, h₁, h⟩ := Exec.bind_eq_ok.1 h
    cases h
    obtain ⟨outputs, -, h₁⟩ := Exec.bind_eq_ok.1 h₁
    cases h₁
    exact unblock_bits
  · obtain ⟨saved, -, h⟩ := Exec.bind_eq_ok.1 h
    rcases saved with _ | oco
    · cases h
      rfl
    · cases h
      rfl
  · cases h
    rfl

theorem writeToClient_bits {alloc : Bool} {env : FlushEnv} {buf : List UInt8} {n : Int}
    (h : writeToClient alloc env c buf s = .ok (n, s')) : s'.clientsWithInput = s.clientsWithInput := by
  unfold writeToClient at h
  split at h
  · cases h
    rfl
  obtain ⟨conn, -, h⟩ := Exec.bind_eq_ok.1 h
  obtain ⟨r, hr, h⟩ := Exec.bind_eq_ok.1 h
  rcases r with _ | s₁
  · cases h
    rfl
  have h₁ : s₁.clientsWithInput = s.clientsWithInput := by
    unfold obtainOutput at hr
    split at hr
    · cases hr
      rfl
    · obtain ⟨r, -, hr⟩ := Exec.bind_eq_ok.1 hr
      rcases r with _ | outputs
      · cases hr
      · cases hr
        rfl
  obtain ⟨oco, -, h⟩ := Exec.bind_eq_ok.1 h
  dsimp only at h
  split at h
  · cases h
  · split at h
    · exact (flushClient_bits h).trans h₁
    · obtain ⟨data, -, h⟩ := Exec.bind_eq_ok.1 h
      cases h
      exact h₁

theorem flushPending_bits {env : ConnPtr → FlushEnv} (h : flushPending env s fd = .ok s') :
    s'.clientsWithInput = s.clientsWithInput := by
  unfold flushPending at h
  split at h
  · cases h
    rfl
  obtain ⟨conn, -, h⟩ := Exec.bind_eq_ok.1 h
  split at h
  · cases h
    rfl
  · split at h
    · cases h
      rfl
    · obtain ⟨⟨n, s₁⟩, h₁, h⟩ := Exec.bind_eq_ok.1 h
      cases h
      exact flushClient_bits h₁

theorem flushAllOutput_bits {env : ConnPtr → FlushEnv} (h : flushAllOutput env s = .ok s') :
    s'.clientsWithInput = s.clientsWithInput := by
  unfold flushAllOutput at h
  split at h
  · cases h
    rfl
  · obtain hfold := Exec.foldlM_rel (R := fun s s' : IoState => s'.clientsWithInput = s.clientsWithInput)
      (fun _ => rfl) (fun _ _ _ h h' => h'.trans h) (fun _ _ _ _ he => flushPending_bits he) h
    exact hfold

theorem becomeWritable_bits (clientsWritable : Nat → Bool) (s : IoState) :
    (becomeWritable clientsWritable s).clientsWithInput = s.clientsWithInput := by
  unfold becomeWritable
  split <;> rfl

theorem closeDownConnection_bits (hc : s.conn c = some conn) {env : FlushEnv}
    (he : closeDownConnection env c s = .ok s') : OtherBits conn.fd s s' := by
  unfold closeDownConnection at he
  rw [hc, Exec.deref_some, Exec.ok_bind] at he
  obtain ⟨s₁, h₁, he⟩ := Exec.bind_eq_ok.1 he
  obtain ⟨s₂, h₂, he⟩ := Exec.bind_eq_ok.1 he
  cases he
  have hbits₁ : s₁.clientsWithInput = s.clientsWithInput := by
    split at h₁
    · obtain ⟨⟨n, s₃⟩, h₃, rfl⟩ := Exec.map_eq_ok.1 h₁
      exact flushClient_bits h₃
    · cases h₁
      rfl
  have hbits₂ : s₂.clientsWithInput = s₁.clientsWithInput := by
    obtain ⟨inputs, -, h₂⟩ := Exec.bind_eq_ok.1 h₂
    obtain ⟨outputs, -, h₂⟩ := Exec.bind_eq_ok.1 h₂
    cases h₂
    show (s₁.keepAvailable c).clientsWithInput = _
    unfold IoState.keepAvailable
    split <;> rfl
  intro fd' hne
  show bitClear s₂.clientsWithInput conn.fd fd' = _
  rw [bitClear, Function.update_of_ne hne, hbits₂, hbits₁]

/-! ### Delivery -/

/-- A request that is there as a whole is delivered without the socket. -/
theorem readRequest_whole (h : oci.Ok) {n : Nat} (hend : requestEnd order oci.pending = some n) (env : ReadEnv)
    (socket : List UInt8) :
    ∃ oci', oci.readRequest order env socket = .ok (.request (oci.pending.take n), oci', socket) ∧ oci'.Ok := by
  obtain ⟨hf, hu⟩ := h.advance
  have hlen := hf.length_unread
  unfold requestEnd at hend
  split at hend
  swap
  · cases hend
  rename_i hle
  cases hend
  rw [← hu] at hle ⊢
  rw [ConnectionInput.readRequest_eq]
  generalize oci.advance.forget = oci₁ at hf hlen hle ⊢
  have hgot : headerLength order oci₁.unread ≤ oci₁.gotnow := by
    have := hle.2
    unfold orHeader at this
    split at this <;> omega
  obtain ⟨hd, hok⟩ := deliver_ok hf (show orHeader (headerLength order oci₁.unread) ≤ oci₁.gotnow by omega)
  rw [if_neg (by omega), hf.reqBytes (by omega), Exec.ok_bind, if_neg (by omega), hd, Exec.ok_bind]
  exact ⟨_, rfl, hok⟩

theorem readRequestFromClient_whole (h : BuffersOk s) (hc : s.conn c = some conn) {n : Nat}
    (hend : requestEnd conn.order (pendingOf s c) = some n) (env : ReadEnv) :
    ∃ s', readRequestFromClient env c s = .ok (.request ((pendingOf s c).take n), s') ∧
      s'.conns.get c = some (conn.receive conn.socket [(pendingOf s c).take n]) := by
  obtain ⟨s₁, h₁, hb₁, ha₁, hconns₁, hp₁⟩ := releaseAvailable_spec h c
  have hheld : (s₁.inputs.held c).isSome := by
    by_contra hnone
    have hempty : pendingOf s c = [] := by
      rw [← hp₁ c, pendingOf, Pool.record_none (by simpa using hnone)]
      rfl
    rw [hempty, requestEnd_none (show _ < 4 by simp)] at hend
    cases hend
  obtain ⟨p, hp⟩ := Option.isSome_iff_exists.1 hheld
  obtain ⟨oci, hr⟩ := hb₁.sound.record hp
  have ho := hb₁.ok c oci hr
  have hpending : pendingOf s c = oci.pending := by
    rw [← hp₁ c, pendingOf, hr]
    rfl
  rw [hpending] at hend ⊢
  obtain ⟨oci', hread, hok⟩ := readRequest_whole ho hend env conn.socket
  obtain ⟨hset, -, hrec⟩ := hb₁.setInput hr hok (by rw [ha₁]; simp)
  have hmod := hset.modifyConn (c := c) (f := (·.receive conn.socket [oci.pending.take n])) fun _ => rfl
  obtain ⟨s₃, h₃, -, -, hconns₃⟩ := scheduleNext_spec hmod hrec hok conn
  refine ⟨s₃, ?_, ?_⟩
  · unfold readRequestFromClient obtainInput
    rw [hc, Exec.deref_some, Exec.ok_bind, h₁, Exec.ok_bind, if_pos hheld, Exec.ok_bind]
    dsimp only
    rw [hr, Exec.deref_some, Exec.ok_bind, hread, Exec.ok_bind]
    dsimp only
    rw [h₃, Exec.ok_bind]
  · rw [hconns₃, get_modifyConn, if_pos rfl]
    show (s₁.conns.get c).map _ = _
    rw [hconns₁, (conn_eq_some.1 hc).1]
    rfl

/-! ### Runs -/

/-- The clients that `WaitForSomething` returns, where `select` would find `selected`: it is not asked as long as
some client has a request. -/
def clientsReadable (selected : Nat → Bool) (s : IoState) : Nat → Bool :=
  if anySet s.clientsWithInput then s.clientsWithInput else selected

/-- `EstablishNewConnections` takes a descriptor that is not too large, and `accept` gives it one that no connected
client has. -/
def OwnDescriptor (s : IoState) : IoInput → Prop
  | .connect _ fd _ => fd < maxSocks ∧ ∀ c conn, s.conn c = some conn → conn.fd ≠ fd
  | _ => True

structure Ready (s : IoState) : Prop where
  buffers : BuffersOk s
  small : ∀ c conn, s.conn c = some conn → conn.fd < maxSocks
  own : ∀ c d conn conn', s.conn c = some conn → s.conn d = some conn' → conn.fd = conn'.fd → c = d
  right : ∀ c conn, s.conn c = some conn → Right s c conn

/-- What `Ready` says of the clients other than `c`, which has a descriptor of its own. -/
structure OthersReady (fd : Nat) (c : ConnPtr) (s : IoState) : Prop where
  small : fd < maxSocks
  others : ∀ d conn, d ≠ c → s.conn d = some conn → conn.fd < maxSocks ∧ conn.fd ≠ fd ∧ Right s d conn
  own : ∀ d d' conn conn', d ≠ c → d' ≠ c → s.conn d = some conn → s.conn d' = some conn' → conn.fd = conn'.fd → d = d'

/-- A connection that is there was there, with its descriptor and its byte order. -/
theorem conn_of_inputSide (h : (s'.conns.get d).map (·.inputSide) = (s.conns.get d).map (·.inputSide))
    (hc : s'.conn d = some conn') : ∃ conn, s.conn d = some conn ∧ conn.fd = conn'.fd ∧ conn.order = conn'.order := by
  obtain ⟨hget, hgone⟩ := conn_eq_some.1 hc
  rw [hget] at h
  obtain ⟨conn, hget', hside⟩ := Option.map_eq_some_iff.1 h.symm
  have hgone' : conn.clientGone = conn'.clientGone := congrArg (·.clientGone) hside
  exact ⟨conn, conn_eq_some.2 ⟨hget', hgone'.trans hgone⟩, congrArg (·.fd) hside, congrArg (·.order) hside⟩

theorem Right.congr (h : Right s c conn) (hfd : conn.fd = conn'.fd) (ho : conn.order = conn'.order)
    (hb : s'.clientsWithInput conn.fd = s.clientsWithInput conn.fd) (hp : pendingOf s' c = pendingOf s c) :
    Right s' c conn' := by
  rw [Right, ← hfd, ← ho, hb, hp]
  exact h

theorem Ready.same (h : Ready s) (hs : SameInput s s') (hb : s'.clientsWithInput = s.clientsWithInput) : Ready s' where
  buffers := h.buffers.same hs
  small c conn hc := by
    obtain ⟨conn₀, hc₀, hfd, -⟩ := conn_of_inputSide (hs.conns c) hc
    rw [← hfd]
    exact h.small c conn₀ hc₀
  own c d conn conn' hc hd hfd := by
    obtain ⟨conn₀, hc₀, hfd₀, -⟩ := conn_of_inputSide (hs.conns c) hc
    obtain ⟨conn₁, hd₁, hfd₁, -⟩ := conn_of_inputSide (hs.conns d) hd
    exact h.own c d conn₀ conn₁ hc₀ hd₁ (by rw [hfd₀, hfd₁, hfd])
  right c conn hc := by
    obtain ⟨conn₀, hc₀, hfd, horder⟩ := conn_of_inputSide (hs.conns c) hc
    exact (h.right c conn₀ hc₀).congr hfd horder (by rw [hb]) (hs.pending c)

theorem Ready.othersReady (h : Ready s) (hc : s.conn c = some conn) : OthersReady conn.fd c s where
  small := h.small c conn hc
  others d conn' hd hd' := ⟨h.small d conn' hd', fun hfd => hd (h.own d c conn' conn hd' hc hfd), h.right d conn' hd'⟩
  own d d' conn conn' _ _ := h.own d d' conn conn'

theorem OthersReady.step (h : OthersReady fd c s) (ho : Others c s s') (hb : OtherBits fd s s') :
    OthersReady fd c s' where
  small := h.small
  others d conn hd hd' := by
    obtain ⟨conn₀, hd₀, hfd, horder⟩ := conn_of_inputSide (ho.conns d hd) hd'
    obtain ⟨hsmall, hne, hright⟩ := h.others d conn₀ hd hd₀
    exact ⟨hfd ▸ hsmall, hfd ▸ hne, hright.congr hfd horder (hb _ hne) (ho.pending d hd)⟩
  own d d' conn conn' hd hd' hc hc' hfd := by
    obtain ⟨conn₀, hc₀, hfd₀, -⟩ := conn_of_inputSide (ho.conns d hd) hc
    obtain ⟨conn₁, hc₁, hfd₁, -⟩ := conn_of_inputSide (ho.conns d' hd') hc'
    exact h.own d d' conn₀ conn₁ hd hd' hc₀ hc₁ (by rw [hfd₀, hfd₁, hfd])

/-- All are ready if the client is, or if it is gone. -/
theorem OthersReady.ready (h : OthersReady fd c s) (hb : BuffersOk s)
    (hc : ∀ conn, s.conn c = some conn → conn.fd = fd ∧ Right s c conn) : Ready s where
  buffers := hb
  small d conn hd := by
    by_cases hdc : d = c
    · rw [hdc] at hd
      rw [(hc conn hd).1]
      exact h.small
    · exact (h.others d conn hdc hd).1
  own d d' conn conn' hd hd' hfd := by
    by_cases hdc : d = c
    · by_cases hdc' : d' = c
      · rw [hdc, hdc']
      · rw [hdc] at hd
        exact absurd (hfd.symm.trans (hc conn hd).1) (h.others d' conn' hdc' hd').2.1
    · by_cases hdc' : d' = c
      · rw [hdc'] at hd'
        exact absurd (hfd.trans (hc conn' hd').1) (h.others d conn hdc hd).2.1
      · exact h.own d d' conn conn' hdc hdc' hd hd' hfd
  right d conn hd := by
    by_cases hdc : d = c
    · rw [hdc] at hd ⊢
      exact (hc conn hd).2
    · exact (h.others d conn hdc hd).2.2

theorem OthersReady.ready_of_conn (h : OthersReady fd c s) (hb : BuffersOk s) (hc : s.conns.get c = some conn)
    (hfd : conn.fd = fd) (hr : Right s c conn) : Ready s := by
  refine h.ready hb fun conn' hc' => ?_
  cases hc.symm.trans (conn_eq_some.1 hc').1
  exact ⟨hfd, hr⟩

theorem closeDownConnection_ready {env : FlushEnv} (h : OthersReady fd c s) (hb : BuffersOk s)
    (hc : s.conn c = some conn) (hfd : conn.fd = fd) (he : closeDownConnection env c s = .ok s') : Ready s' := by
  subst hfd
  obtain ⟨hb', ho, hgone⟩ := closeDownConnection_spec hb he
  refine (h.step ho (closeDownConnection_bits hc he)).ready hb' fun conn' hc' => ?_
  obtain ⟨hget, hgone'⟩ := conn_eq_some.1 hc'
  rw [hget, (conn_eq_some.1 hc).1] at hgone
  have := congrArg (·.clientGone) (Option.some.inj hgone)
  exact absurd (hgone'.symm.trans this) (by simp [Connection.inputSide])

theorem react_ready {env : ServeEnv} (h : OthersReady fd c s) (hb : BuffersOk s) (hc : s.conn c = some conn)
    (hfd : conn.fd = fd) (hr : s.inputs.record c = some oci) (hright : Right s c conn)
    (he : react env c s = .ok s') : Ready s' := by
  subst hfd
  unfold react at he
  rw [hc, Exec.deref_some, Exec.ok_bind] at he
  rcases hreact : conn.origin.react conn.delivered with _ | data | ⟨start, order⟩
  · rw [hreact] at he
    cases he
    exact h.ready_of_conn hb (conn_eq_some.1 hc).1 rfl hright
  · rw [hreact] at he
    dsimp only at he
    obtain ⟨done, s₁, h₁, hb₁, ho₁, hget₁, -⟩ :=
      insertFakeRequest_spec hb hc env.read.alloc env.read.grow data
    obtain ⟨hbits, hright₁⟩ := insertFakeRequest_bits hb hc h₁
    rw [h₁, Exec.ok_bind] at he
    have hstep := h.step ho₁ hbits
    rcases done with _ | _
    · exact closeDownConnection_ready hstep hb₁ (conn_eq_some.2 ⟨hget₁, (conn_eq_some.1 hc).2⟩) rfl he
    · cases he
      exact hstep.ready_of_conn hb₁ hget₁ rfl (hright₁ rfl)
  · rw [hreact] at he
    dsimp only at he
    obtain ⟨s₁, h₁, hb₁, ho₁, hget₁, -⟩ := rewriteRequest_spec hb hc hr start order
    cases h₁.symm.trans he
    obtain ⟨hbits, hright₁⟩ := rewriteRequest_bits hb hc he
    exact (h.step ho₁ hbits).ready_of_conn hb₁ hget₁ rfl hright₁

theorem serve_ready {env : ServeEnv} (h : Ready s) (he : serve env c s = .ok s') : Ready s' := by
  unfold serve at he
  obtain ⟨⟨status, s₁⟩, h₁, he⟩ := Exec.bind_eq_ok.1 he
  obtain ⟨conn, hc, -⟩ := Exec.bind_eq_ok.1 h₁
  rw [Exec.deref_eq_ok] at hc
  obtain ⟨hget, hgone⟩ := conn_eq_some.1 hc
  obtain ⟨status', s₂, h₂, hb₁, ho₁, hserved⟩ := readRequestFromClient_spec h.buffers hc env.read
  cases h₂.symm.trans h₁
  obtain ⟨hbits, hright⟩ := readRequestFromClient_bits h.buffers hc h₁
  have hothers := (h.othersReady hc).step ho₁ hbits
  dsimp only at he
  rcases hserved with ⟨n, oci, socket, hend, hget₁, hrec, hoci, hn, hall⟩ | ⟨socket, hget₁, hall, hend⟩ | ⟨socket, hget₁⟩
  · have hc₁ : s₁.conn c = some (conn.receive socket [(pendingOf s c ++ conn.socket).take n]) :=
      conn_eq_some.2 ⟨hget₁, hgone⟩
    exact react_ready hothers hb₁ hc₁ rfl hrec (hright (by simp)) he
  · cases he
    exact hothers.ready_of_conn hb₁ hget₁ rfl (hright (by simp))
  · have hc₁ : s₁.conn c = some (conn.receive socket []) := conn_eq_some.2 ⟨hget₁, hgone⟩
    exact closeDownConnection_ready hothers hb₁ hc₁ rfl he

theorem connect_ready {env : ServeEnv} {origin : Origin} (h : Ready s) (hsmall : fd < maxSocks)
    (hown : ∀ c conn, s.conn c = some conn → conn.fd ≠ fd) (he : connect env fd origin s = .ok s') : Ready s' := by
  unfold connect at he
  dsimp only at he
  generalize hs₁ : ({ s with
    conns := s.conns.alloc { fd, origin, order := origin.order, socket := origin.stream }
    connectionTranslation := Function.update s.connectionTranslation fd (some s.conns.next) } : IoState) = s₁ at he
  obtain ⟨hget, hb₁, ho₁, -⟩ := opened_spec h.buffers hs₁
  have hbits₁ : OtherBits fd s s₁ := .of_eq (by rw [← hs₁])
  have hstart : OthersReady fd s.conns.next s :=
    ⟨hsmall, fun d conn _ hd => ⟨h.small d conn hd, hown d conn hd, h.right d conn hd⟩,
      fun d d' conn conn' _ _ => h.own d d' conn conn'⟩
  have hc₁ := conn_eq_some.2 ⟨hget, rfl⟩
  obtain ⟨done, s₂, h₂, hb₂, ho₂, hget₂, -⟩ :=
    insertFakeRequest_spec hb₁ hc₁ env.read.alloc env.read.grow origin.fake
  obtain ⟨hbits₂, hright⟩ := insertFakeRequest_bits hb₁ hc₁ h₂
  have hothers := (hstart.step ho₁ hbits₁).step ho₂ hbits₂
  rw [h₂, Exec.ok_bind] at he
  rcases done with _ | _
  · exact closeDownConnection_ready hothers hb₂ (conn_eq_some.2 ⟨hget₂, rfl⟩) rfl he
  · cases he
    exact hothers.ready_of_conn hb₂ hget₂ rfl (hright rfl)

theorem ioStep_ready {r : IoInput} (h : Ready s) (hr : OwnDescriptor s r) (he : ioStep s r = .ok s') : Ready s' := by
  cases r with
  | connect env fd origin => exact connect_ready h hr.1 hr.2 he
  | serve env c => exact serve_ready h he
  | write alloc env c buf =>
    obtain ⟨⟨n, s₁⟩, h₁, rfl⟩ := Exec.map_eq_ok.1 he
    exact h.same (writeToClient_same h₁) (writeToClient_bits h₁)
  | flush env c =>
    obtain ⟨⟨n, s₁⟩, h₁, rfl⟩ := Exec.map_eq_ok.1 he
    exact h.same (flushClient_same h₁) (flushClient_bits h₁)
  | flushAll env => exact h.same (flushAllOutput_same he) (flushAllOutput_bits he)
  | writable clientsWritable =>
    cases he
    exact h.same (becomeWritable_same clientsWritable s) (becomeWritable_bits clientsWritable s)
  | close env c =>
    obtain ⟨conn, hc, -⟩ := Exec.bind_eq_ok.1 he
    rw [Exec.deref_eq_ok] at hc
    exact closeDownConnection_ready (h.othersReady hc) h.buffers hc rfl he

theorem ready_init : Ready {} where
  buffers := inputInv_init.buffers
  small c conn h := by cases h
  own c d conn conn' h := by cases h
  right c conn h := by cases h

theorem reach_ready (h : Reach ioStep OwnDescriptor {} s) : Ready s :=
  h.inv ready_init fun _ _ _ hs hr he => ioStep_ready hs hr he

theorem anySet_of_bit {mask : Nat → Bool} (hsmall : fd < maxSocks) (h : mask fd = true) : anySet mask = true :=
  List.any_eq_true.2 ⟨fd, List.mem_range.2 hsmall, h⟩

/-- No request is left waiting, and no partial one is waited for in a loop: a connected client's bit is set exactly
if a whole request is in its buffer. Such a client is returned without `select`, and given the request whatever the
socket does; any other client only if `select` finds it. -/
theorem reach_right (h : Reach ioStep OwnDescriptor {} s) (hc : s.conn c = some conn) :
    Right s c conn ∧
      (∀ n, requestEnd conn.order (pendingOf s c) = some n →
        (∀ selected, clientsReadable selected s conn.fd = true) ∧
        ∀ env, ∃ s', readRequestFromClient env c s = .ok (.request ((pendingOf s c).take n), s') ∧
          s'.conns.get c = some (conn.receive conn.socket [(pendingOf s c).take n])) ∧
      (requestEnd conn.order (pendingOf s c) = none →
        ∀ selected, clientsReadable selected s conn.fd = true → selected conn.fd = true) := by
  have hready := reach_ready h
  have hright := hready.right c conn hc
  refine ⟨hright, fun n hn => ⟨fun selected => ?_, readRequestFromClient_whole hready.buffers hc hn⟩,
    fun hn selected hsel => ?_⟩
  · have hbit : s.clientsWithInput conn.fd = true := hright.2 (by rw [hn]; rfl)
    rw [clientsReadable, if_pos (anySet_of_bit (hready.small c conn hc) hbit), hbit]
  · rw [clientsReadable] at hsel
    split at hsel
    · have hwhole := hright.1 hsel
      rw [hn] at hwhole
      cases hwhole
    · exact hsel

/-- A client has sent two requests. -/
def sendsTwo (env : ServeEnv) : IoInput :=
  .connect env 3 { order := .little, fake := [1, 0], stream := [1, 0, 2, 0, 1, 0], react := fun _ => .done }

/-- All of a client's stream is read at once. -/
def readAll : ServeEnv where
  read := { read := .upTo 8, alloc := true, grow := true, shrink := true }
  flush := { writes := [], grow := true, padBuffer := fun _ => 0 }

/-- Of two requests one was delivered, and the other one waits. -/
theorem right_sendsTwo :
    ∃ s conn, Reach ioStep OwnDescriptor {} s ∧ s.conn 0 = some conn ∧ s.clientsWithInput 3 = true ∧
      Right s 0 conn ∧ ∀ selected, clientsReadable selected s 3 = true := by
  have hrun : ([sendsTwo readAll, .serve readAll 0].foldlM ioStep {}).toOption.any (fun s =>
      (s.conn 0).any fun conn => decide (conn.fd = 3) && s.clientsWithInput 3) = true := by decide +kernel
  obtain ⟨s, hs, hrun⟩ := (Option.any_eq_true ..).1 hrun
  obtain ⟨conn, hc, hd⟩ := (Option.any_eq_true ..).1 hrun
  obtain ⟨hfd, hbit⟩ := Bool.and_eq_true_iff.1 hd
  have hown : OwnDescriptor {} (sendsTwo readAll) := ⟨by decide, fun c conn hc => by cases hc⟩
  have hreach : Reach ioStep OwnDescriptor {} s := by
    rcases hr : [sendsTwo readAll, .serve readAll 0].foldlM ioStep {} with e | t
    · rw [hr] at hs
      cases hs
    · rw [hr] at hs
      cases hs
      obtain ⟨s₁, h₁, hr⟩ := Exec.bind_eq_ok.1 hr
      obtain ⟨s₂, h₂, hr⟩ := Exec.bind_eq_ok.1 hr
      cases hr
      exact .step (.serve readAll 0) (.step (sendsTwo readAll) .init hown h₁) trivial h₂
  obtain ⟨hright, hwhole, -⟩ := reach_right hreach hc
  rw [of_decide_eq_true hfd] at hwhole
  obtain ⟨n, hn⟩ := Option.isSome_iff_exists.1 (hright.1 (by rw [of_decide_eq_true hfd]; exact hbit))
  exact ⟨s, conn, hreach, hc, hbit, hright, (hwhole n hn).1⟩

end Nas.Io
