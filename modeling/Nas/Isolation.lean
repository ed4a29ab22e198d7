import Nas.OutputInv

/-!
# Buffers that clients share

The calls of `io.c` one by one, in any order and for any clients (`poolStep`). A client's buffers come from pools and go
back to them, at times in a call for another client; `Private` is what a client would see of its input if it had the
buffers for itself, from its own socket and what is made up for it.

The main result is `isolation`: each buffer has one owner, the ones on the free lists have nothing left in them, every
client's view is one of its own `Private` runs, and what is sent to it was written for it, with pads. What is in a pad
is another matter (`stalePad`).
-/

namespace Nas.Io
open ConnectionInput ConnectionOutput

variable {s s' s'' : IoState} {c c' : ConnPtr} {conn conn' : Connection} {oci oci' : ConnectionInput}
  {oco : ConnectionOutput}

inductive PoolOp where
  | connect (fd : Nat) (origin : Origin)
  | readRequestFromClient (env : ReadEnv) (c : ConnPtr)
  | insertFakeRequest (alloc grow : Bool) (c : ConnPtr) (data : List UInt8)
  | resetCurrentRequest (c : ConnPtr)
  | writeToClient (alloc : Bool) (env : FlushEnv) (c : ConnPtr) (buf : List UInt8)
  | flushClient (env : FlushEnv) (c : ConnPtr)
  /-- `FreeOsBuffers`, after which its caller frees the connection. -/
  | freeOsBuffers (c : ConnPtr)

/-- `AllocNewConnection` -/
def allocConnection (fd : Nat) (origin : Origin) (s : IoState) : IoState :=
  { s with
    conns := s.conns.alloc { fd, origin, order := origin.order, socket := origin.stream }
    connectionTranslation := Function.update s.connectionTranslation fd (some s.conns.next) }

def closeConnection (c : ConnPtr) (s : IoState) : Exec IoState := do
  let _ ← Exec.deref (s.conn c)
  let s ← freeOsBuffers c s
  .ok (modifyConn c (fun conn => { conn with clientGone := true }) s)

def poolStep (s : IoState) : PoolOp → Exec IoState
  | .connect fd origin => .ok (allocConnection fd origin s)
  | .readRequestFromClient env c => (·.2) <$> readRequestFromClient env c s
  | .insertFakeRequest alloc grow c data => (·.2) <$> insertFakeRequest alloc grow c data s
  | .resetCurrentRequest c => resetCurrentRequest c s
  | .writeToClient alloc env c buf => (·.2) <$> writeToClient alloc env c buf s
  | .flushClient env c => (·.2) <$> flushClient env c [] s
  | .freeOsBuffers c => closeConnection c s

/-! ### The input of one client -/

/-- A client's input: the bytes that are there and not delivered, the request that was delivered last as long as it is
there, what its socket holds, and what was delivered. -/
structure Private where
  unread : List UInt8
  current : List UInt8
  socket : List UInt8
  delivered : List (List UInt8)

/-- What happens to a client's input, where the requests made up for it are those that satisfy `D`. -/
inductive PrivateStep (D : List UInt8 → Prop) (p : Private) : Private → Prop where
  | fake {data : List UInt8} : D data → PrivateStep D p { p with unread := data ++ p.unread, current := [] }
  | receive (n : Nat) :
      PrivateStep D p { p with
        unread := p.unread ++ p.socket.take n, current := [], socket := p.socket.drop n }
  | deliver (n : Nat) :
      PrivateStep D p { p with
        unread := p.unread.drop n, current := p.unread.take n, delivered := p.delivered ++ [p.unread.take n] }
  | reset : PrivateStep D p { p with unread := p.current ++ p.unread, current := [] }
  /-- A call that fails for want of memory can leave the bytes in another order, and a client that goes loses them. -/
  | scramble {l : List UInt8} : (∀ b ∈ l, b ∈ p.unread) → PrivateStep D p { p with unread := l, current := [] }

abbrev PrivateRun (D : List UInt8 → Prop) : Private → Private → Prop := Relation.ReflTransGen (PrivateStep D)

def Private.start (stream : List UInt8) : Private := ⟨[], [], stream, []⟩

variable {D : List UInt8 → Prop} {p p' : Private}

theorem PrivateRun.one (h : PrivateStep D p p') : PrivateRun D p p' := .single h

theorem PrivateRun.forget : PrivateRun D p { p with current := [] } := .single (.scramble fun _ hb => hb)

/-- Everything a client is given, it has sent, or it was made up for it. -/
theorem PrivateRun.own {stream : List UInt8} (h : PrivateRun D (.start stream) p) :
    ∀ r ∈ p.delivered, ∀ b ∈ r, b ∈ stream ∨ ∃ data, D data ∧ b ∈ data := by
  -- of all the bytes that are still there, too
  suffices hall : (∀ b ∈ p.unread ++ p.current, b ∈ stream ∨ ∃ data, D data ∧ b ∈ data) ∧
      (∀ b ∈ p.socket, b ∈ stream) ∧ ∀ r ∈ p.delivered, ∀ b ∈ r, b ∈ stream ∨ ∃ data, D data ∧ b ∈ data from hall.2.2
  induction h with
  | refl => exact ⟨fun b hb => (by cases hb), fun _ hb => hb, fun r hr => (by cases hr)⟩
  | @tail p p' _ hstep ih =>
    obtain ⟨hthere, hsocket, hdelivered⟩ := ih
    rcases hstep with hdata | n | n | _ | hscramble
    · refine ⟨fun b hb => ?_, hsocket, hdelivered⟩
      rw [List.append_nil] at hb
      rcases List.mem_append.1 hb with hb | hb
      · exact .inr ⟨_, hdata, hb⟩
      · exact hthere b (List.mem_append_left _ hb)
    · refine ⟨fun b hb => ?_, fun b hb => hsocket b (List.mem_of_mem_drop hb), hdelivered⟩
      rw [List.append_nil] at hb
      rcases List.mem_append.1 hb with hb | hb
      · exact hthere b (List.mem_append_left _ hb)
      · exact .inl (hsocket b (List.mem_of_mem_take hb))
    · refine ⟨fun b hb => ?_, hsocket, fun r hr => ?_⟩
      · rcases List.mem_append.1 hb with hb | hb
        · exact hthere b (List.mem_append_left _ (List.mem_of_mem_drop hb))
        · exact hthere b (List.mem_append_left _ (List.mem_of_mem_take hb))
      · rcases List.mem_append.1 hr with hr | hr
        · exact hdelivered r hr
        · rw [List.mem_singleton.1 hr]
          exact fun b hb => hthere b (List.mem_append_left _ (List.mem_of_mem_take hb))
    · refine ⟨fun b hb => ?_, hsocket, hdelivered⟩
      rw [List.append_nil] at hb
      rcases List.mem_append.1 hb with hb | hb
      · exact hthere b (List.mem_append_right _ hb)
      · exact hthere b (List.mem_append_left _ hb)
    · refine ⟨fun b hb => ?_, hsocket, hdelivered⟩
      rw [List.append_nil] at hb
      exact hthere b (List.mem_append_left _ (hscramble b hb))

/-! ### A client's view -/

/-- The request that was delivered last. -/
def ConnectionInput.current (oci : ConnectionInput) : List UInt8 := oci.unread.take oci.lenLastReq

def currentOf (s : IoState) (c : ConnPtr) : List UInt8 := ((s.inputs.record c).map (·.current)).getD []

/-- What a client sees of its input. -/
def viewOf (s : IoState) (c : ConnPtr) (conn : Connection) : Private :=
  ⟨pendingOf s c, currentOf s c, conn.socket, conn.delivered⟩

theorem ConnectionInput.current_append (oci : ConnectionInput) : oci.current ++ oci.pending = oci.unread := by
  rw [ConnectionInput.pending, ← Memory.drop_slice]
  exact List.take_append_drop ..

theorem ConnectionInput.current_eq_nil (h : oci.lenLastReq = 0) : oci.current = [] ∧ oci.pending = oci.unread := by
  constructor
  · rw [ConnectionInput.current, h, List.take_zero]
  · rw [ConnectionInput.pending, h]
    rfl

theorem viewOf_record (h : s.inputs.record c = some oci) (conn : Connection) :
    viewOf s c conn = ⟨oci.pending, oci.current, conn.socket, conn.delivered⟩ := by
  rw [viewOf, pendingOf, currentOf, h]
  rfl

theorem viewOf_none (h : s.inputs.record c = none) (conn : Connection) :
    viewOf s c conn = ⟨[], [], conn.socket, conn.delivered⟩ := by
  rw [viewOf, pendingOf, currentOf, h]
  rfl

/-! ### What a call does to the input of other clients -/

/-- Another client keeps its buffer or has none any more, and no buffer is lost. -/
structure Spared (c : ConnPtr) (s s' : IoState) : Prop where
  record : ∀ c', c' ≠ c → s'.inputs.record c' = s.inputs.record c' ∨ s'.inputs.record c' = none
  placed : s.inputs.Placed → s'.inputs.Placed

namespace Spared

theorem of_eq (h : s'.inputs = s.inputs) : Spared c s s' := ⟨fun _ _ => .inl (by rw [h]), fun hp => h ▸ hp⟩

theorem trans (h : Spared c s s') (h' : Spared c s' s'') : Spared c s s'' := by
  refine ⟨fun c' hcc => ?_, fun hp => h'.placed (h.placed hp)⟩
  rcases h'.record c' hcc with hr | hr
  · rw [hr]
    exact h.record c' hcc
  · exact .inr hr

theorem setInput (h : BuffersOk s) : Spared c s (setInput c oci s) :=
  ⟨fun c' hcc => .inl (by rw [Io.setInput, h.sound.record_modify, if_neg hcc]), fun hp => hp.modify⟩

theorem lost {b : ConnPtr} (hl : Pool.Sound.Lost s.inputs s'.inputs b)
    (hp : s.inputs.Placed → s'.inputs.Placed) : Spared c s s' := by
  refine ⟨fun c' _ => ?_, hp⟩
  by_cases hcb : c' = b
  · exact .inr (Pool.record_none (by rw [hl.held, if_pos hcb]))
  · exact .inl (hl.record c' hcb)

end Spared

theorem releaseAvailable_spared (h : BuffersOk s) (he : releaseAvailable c s = .ok s') : Spared c s s' := by
  unfold releaseAvailable at he
  cases ha : s.availableInput with
  | none =>
    rw [ha] at he
    cases he
    exact .of_eq rfl
  | some a =>
    rw [ha] at he
    dsimp only at he
    by_cases hac : a = c
    · rw [if_pos hac] at he
      cases he
      exact .of_eq rfl
    · rw [if_neg hac] at he
      obtain ⟨aci, hr, hd⟩ := h.available a ha
      rw [hr, Exec.deref_some, Exec.ok_bind] at he
      obtain ⟨pool, hpool, he⟩ := Exec.bind_eq_ok.1 he
      cases he
      split at hpool
      · obtain ⟨pool', hpool', -, hl⟩ := h.sound.drop hr
        cases hpool'.symm.trans hpool
        exact .lost hl fun hp => hp.drop hpool
      · obtain ⟨pool', hpool', -, hl⟩ := h.sound.give hr hd
        cases hpool'.symm.trans hpool
        exact .lost hl fun hp => hp.give h.sound hpool

theorem obtainInput_spared {alloc : Bool} (h : BuffersOk s) (he : obtainInput alloc c s = .ok (some s')) :
    Spared c s s' := by
  unfold obtainInput at he
  split at he
  · cases he
    exact .of_eq rfl
  · rename_i hheld
    have hnone : s.inputs.held c = none := by simpa using hheld
    obtain ⟨r, hr, he⟩ := Exec.bind_eq_ok.1 he
    cases he' : r with
    | none =>
      rw [he'] at he
      cases he
    | some pool =>
      rw [he'] at he hr
      cases he
      rcases h.sound.take c alloc newInput with ⟨-, hno⟩ | ⟨pool', oci, hpool, -, -, -, hothers⟩
      · cases hno.symm.trans hr
      · cases hpool.symm.trans hr
        exact ⟨fun c' hcc => .inl (hothers c' hcc).1, fun hp => hp.take h.sound hnone hr⟩

theorem obtainInput_none {alloc : Bool} (he : obtainInput alloc c s = .ok none) : s.inputs.record c = none := by
  unfold obtainInput at he
  split at he
  · cases he
  · rename_i hheld
    exact Pool.record_none (by simpa using hheld)

/-! ### Reading -/

/-- A buffer that could not grow holds bytes it held before. -/
theorem makeRoom_full {needed : Nat} {grow : Bool} (h : oci.Ok)
    (he : oci.makeRoom grow needed = .ok (false, oci')) : ∀ b ∈ oci'.unread, b ∈ oci.unread := by
  have hp := h.gotnow_eq
  unfold makeRoom at he
  split at he
  swap
  · cases he
  obtain ⟨buffer, hbuffer, he⟩ := Exec.bind_eq_ok.1 he
  dsimp only at he
  split at he
  · cases he
  split at he
  · cases he
  cases he
  split at hbuffer
  · rename_i hmove
    obtain ⟨buffer', hb, hst⟩ := Memory.move_ok (m := oci.buffer) (a := oci.bufptr) (n := oci.gotnow) (d := 0)
      (by rw [h.length, hp]; exact h.bufcnt_le) (by rw [h.length]; have := h.bufcnt_le; omega)
    cases hb.symm.trans hbuffer
    intro b hb
    obtain ⟨i, hi⟩ := List.mem_iff_getElem?.1 hb
    rw [ConnectionInput.unread, Memory.getElem?_slice] at hi
    dsimp only at hi
    split at hi
    swap
    · cases hi
    rw [hst.cells, Nat.zero_add] at hi
    have hlen := Memory.length_slice (m := oci.buffer) (a := oci.bufptr) (b := oci.bufptr + oci.gotnow)
      (by rw [h.length, hp]; exact h.bufcnt_le)
    split at hi
    · rw [hp] at hi
      exact List.mem_of_getElem? hi
    · refine List.mem_iff_getElem?.2 ⟨i, ?_⟩
      rw [ConnectionInput.unread, Memory.getElem?_slice, if_pos ‹_›, hi]
  · cases hbuffer
    exact fun b hb => hb

theorem shrinkTo_lenLastReq (shrink : Bool) (needed : Nat) : (oci.shrinkTo shrink needed).lenLastReq = oci.lenLastReq := by
  unfold shrinkTo
  split <;> rfl

/-- What is left of the buffer and the socket when no request is delivered. -/
structure Idle (oci oci' : ConnectionInput) (socket socket' : List UInt8) (status : ReadStatus) : Prop where
  read : ∃ n, socket' = socket.drop n
  idle : (∀ req, status ≠ .request req) → oci'.lenLastReq = 0
  dead : status = .dead → socket' = socket ∧ ∀ b ∈ oci'.unread, b ∈ oci.pending

theorem fill_idle {order : ByteOrder} {env : ReadEnv} {needHeader : Bool} {needed : Nat} {socket socket' : List UInt8}
    {status : ReadStatus} (h : oci.Ok) (h0 : oci.lenLastReq = 0) (hn : oci.gotnow < needed)
    (he : oci.fill order env needHeader needed socket = .ok (status, oci', socket')) :
    Idle oci oci' socket socket' status := by
  have hpending : oci.pending = oci.unread := (current_eq_nil h0).2
  have hstay : ∀ {status' : ReadStatus} {oci₁ : ConnectionInput}, oci₁.lenLastReq = 0 →
      (∀ b ∈ oci₁.unread, b ∈ oci.unread) → Idle oci oci₁ socket socket status' := fun h₁ hb =>
    ⟨⟨0, rfl⟩, fun _ => h₁, fun _ => ⟨rfl, fun b hb' => hpending ▸ hb b hb'⟩⟩
  unfold fill at he
  split at he
  · cases he
    exact hstay rfl fun b hb => hb
  obtain ⟨⟨room, oci₁⟩, hroom, he⟩ := Exec.bind_eq_ok.1 he
  obtain ⟨room', oci₁', hroom', -, h₁, hroomy, -⟩ := makeRoom_spec h.forget rfl env.grow hn
  cases hroom'.symm.trans hroom
  dsimp only at he
  cases room with
  | false =>
    rw [if_pos (by simp)] at he
    cases he
    have hfull := makeRoom_full h.forget hroom
    exact hstay h₁ hfull
  | true =>
    rw [if_neg (by simp)] at he
    obtain ⟨hu, -⟩ := hroomy rfl
    have hsame : ∀ b ∈ oci₁.unread, b ∈ oci.unread := fun b hb => by
      rw [hu] at hb
      exact hb
    split at he
    · cases he
      exact hstay h₁ hsame
    · cases he
      exact hstay h₁ hsame
    · obtain ⟨buffer, -, he⟩ := Exec.bind_eq_ok.1 he
      obtain ⟨needed', -, he⟩ := Exec.bind_eq_ok.1 he
      split at he
      · cases he
        refine ⟨⟨_, rfl⟩, fun _ => ?_, fun hf => by cases hf⟩
        rw [shrinkTo_lenLastReq]
        exact h₁
      · obtain ⟨⟨status', oci₂⟩, hdeliver, he⟩ := Exec.bind_eq_ok.1 he
        obtain ⟨req, -, hdeliver⟩ := Exec.bind_eq_ok.1 hdeliver
        cases he
        cases hdeliver
        exact ⟨⟨_, rfl⟩, fun hf => absurd rfl (hf req), fun hf => by cases hf⟩

theorem readRequest_idle {order : ByteOrder} {env : ReadEnv} {socket socket' : List UInt8} {status : ReadStatus}
    (h : oci.Ok) (he : oci.readRequest order env socket = .ok (status, oci', socket')) :
    Idle oci oci' socket socket' status := by
  obtain ⟨hf, hu⟩ := h.advance
  have hpending : oci.advance.forget.pending = oci.pending := hu
  have hfill : ∀ {nh : Bool} {needed : Nat}, oci.advance.forget.gotnow < needed →
      oci.advance.forget.fill order env nh needed socket = .ok (status, oci', socket') →
      Idle oci oci' socket socket' status := fun hn he => by
    obtain ⟨hs, h0, hd⟩ := fill_idle hf rfl hn he
    exact ⟨hs, h0, fun hdead => hpending ▸ hd hdead⟩
  unfold readRequest at he
  dsimp only at he
  split at he
  · exact hfill ‹_› he
  · obtain ⟨needed, -, he⟩ := Exec.bind_eq_ok.1 he
    split at he
    · exact hfill ‹_› he
    · obtain ⟨⟨status', oci₂⟩, hdeliver, he⟩ := Exec.bind_eq_ok.1 he
      obtain ⟨req, -, hdeliver⟩ := Exec.bind_eq_ok.1 hdeliver
      cases he
      cases hdeliver
      exact ⟨⟨0, rfl⟩, fun hno => absurd rfl (hno req), fun hf => by cases hf⟩

/-- What is delivered with a status. -/
def ReadStatus.requests : ReadStatus → List (List UInt8)
  | .request req => [req]
  | .incomplete | .dead => []

/-- `readRequest` is a step of the client's own. -/
theorem readRequest_private {env : ReadEnv} {socket : List UInt8} {status : ReadStatus} (h : oci.Ok)
    (he : oci.readRequest conn.order env conn.socket = .ok (status, oci', socket)) (current : List UInt8) :
    PrivateRun D ⟨oci.pending, current, conn.socket, conn.delivered⟩
      ⟨oci'.pending, oci'.current, socket, conn.delivered ++ status.requests⟩ := by
  obtain ⟨status', oci₁, socket', he', hok, hout⟩ := readRequest_spec h conn.order env conn.socket
  cases he'.symm.trans he
  obtain ⟨⟨n, hn⟩, h0, hd⟩ := readRequest_idle h he
  -- what was read is behind what was there
  have hread : oci'.unread ++ socket = oci.pending ++ conn.socket → oci'.unread = oci.pending ++ conn.socket.take n := by
    intro hall
    rw [hn] at hall
    refine @List.append_cancel_right _ _ (conn.socket.drop n) _ ?_
    rw [hall, List.append_assoc, List.take_append_drop]
  rcases hout with ⟨k, -, hk, hall, -⟩ | ⟨-, hall, -, -⟩ | -
  · have hreceive : PrivateRun D ⟨oci.pending, current, conn.socket, conn.delivered⟩ _ := .one (.receive n)
    have hdeliver := hreceive.tail (.deliver k)
    have hu := hread hall
    have htake : (oci.pending ++ conn.socket).take k = oci'.unread.take k := by
      have hle := hok.le
      rw [← hall, List.take_append_of_le_length]
      rw [hok.length_unread, gotnow]
      omega
    have hcur : oci'.current = oci'.unread.take k := by rw [ConnectionInput.current, hk]
    have hpen : oci'.pending = oci'.unread.drop k := by
      rw [ConnectionInput.pending, hk, ConnectionInput.unread, Memory.drop_slice]
    rw [hcur, hpen, hn, htake, hu, ReadStatus.requests]
    exact hdeliver
  · obtain ⟨hcur, hpen⟩ := current_eq_nil (h0 (by simp))
    rw [hcur, hpen, hread hall, hn, ReadStatus.requests, List.append_nil]
    exact .one (.receive n)
  · obtain ⟨hcur, hpen⟩ := current_eq_nil (h0 (by simp))
    obtain ⟨hs, hbytes⟩ := hd rfl
    rw [hcur, hpen, hs, ReadStatus.requests, List.append_nil]
    exact .one (.scramble hbytes)

/-! ### The calls -/

/-- What a call does to the input: that of its client goes on, the others' buffers are spared. -/
structure Moves (D : List UInt8 → Prop) (c : ConnPtr) (s s' : IoState) : Prop where
  buffers : BuffersOk s'
  others : Others c s s'
  spared : Spared c s s'
  own : ∀ conn, s.conn c = some conn → ∃ conn', s'.conns.get c = some conn' ∧ conn'.origin = conn.origin ∧
    PrivateRun D (viewOf s c conn) (viewOf s' c conn')

theorem viewOf_congr (hi : s'.inputs = s.inputs) (conn : Connection) : viewOf s' c conn = viewOf s c conn := by
  rw [viewOf, viewOf, pendingOf, pendingOf, currentOf, currentOf, hi]

/-- What follows a call and does not concern the input. -/
theorem Moves.after (h : Moves D c s s') (hs : SameInput s' s'') : Moves D c s s'' := by
  refine ⟨h.buffers.same hs, h.others.trans (hs.others c), h.spared.trans (.of_eq hs.inputs), fun conn hc => ?_⟩
  obtain ⟨conn', hget, horigin, hrun⟩ := h.own conn hc
  have hconns := hs.conns c
  rw [hget] at hconns
  obtain ⟨conn'', hget', hside⟩ := Option.map_eq_some_iff.1 hconns
  have hview : viewOf s'' c conn'' = viewOf s' c conn' := by
    have hsock : conn''.socket = conn'.socket ∧ conn''.delivered = conn'.delivered :=
      ⟨congrArg (·.socket) hside, congrArg (·.delivered) hside⟩
    rw [viewOf_congr hs.inputs, viewOf, viewOf, hsock.1, hsock.2]
  exact ⟨conn'', hget', (congrArg (·.origin) hside).trans horigin, by rw [hview]; exact hrun⟩

theorem Moves.same (h : BuffersOk s) (hs : SameInput s s') : Moves D c s s' := by
  have hstay : Moves D c s s := ⟨h, .refl c s, .of_eq rfl, fun conn hc => ⟨conn, (conn_eq_some.1 hc).1, rfl, .refl⟩⟩
  exact hstay.after hs

/-- A client whose buffer is spared has the same view, or has lost the request it was given last. -/
theorem spared_view (ho : Others c s s') (hspared : Spared c s s') (hcc : c' ≠ c) (hget : s'.conns.get c' = some conn') :
    ∃ conn, s.conns.get c' = some conn ∧ conn.origin = conn'.origin ∧ conn.delivered = conn'.delivered ∧
      PrivateRun D (viewOf s c' conn) (viewOf s' c' conn') := by
  have hconns := ho.conns c' hcc
  rw [hget] at hconns
  obtain ⟨conn, hget₀, hside⟩ := Option.map_eq_some_iff.1 hconns.symm
  have hsocket : conn.socket = conn'.socket := congrArg (·.socket) hside
  have hdelivered : conn.delivered = conn'.delivered := congrArg (·.delivered) hside
  refine ⟨conn, hget₀, congrArg (·.origin) hside, hdelivered, ?_⟩
  have hpending := ho.pending c' hcc
  rw [viewOf, viewOf, hsocket, hdelivered, hpending]
  rcases hspared.record c' hcc with hr | hr
  · have hcur : currentOf s' c' = currentOf s c' := by rw [currentOf, currentOf, hr]
    rw [hcur]
  · have hcur : currentOf s' c' = [] := by rw [currentOf, hr]; rfl
    rw [hcur]
    exact .forget

/-- How `ReadRequestFromClient` and `InsertFakeRequest` start. -/
theorem prepare_spared {alloc : Bool} {s₁ s₂ : IoState} (h : BuffersOk s) (hc : (s.conn c).isSome)
    (h₁ : releaseAvailable c s = .ok s₁) (h₂ : obtainInput alloc c s₁ = .ok (some s₂)) :
    ∃ oci, Prepared c s s₂ oci ∧ Spared c s s₂ := by
  obtain ⟨s₁', h₁', hrest⟩ := prepare_spec h hc alloc
  cases h₁'.symm.trans h₁
  have hspared := releaseAvailable_spared h h₁
  obtain ⟨s₁'', h₁'', hok, -⟩ := releaseAvailable_spec h c
  cases h₁''.symm.trans h₁
  rcases hrest with ⟨-, hno, -⟩ | ⟨s₂', oci, h₂', hprep⟩
  · cases hno.symm.trans h₂
  · cases h₂'.symm.trans h₂
    exact ⟨oci, hprep, hspared.trans (obtainInput_spared hok h₂)⟩

/-- Without a buffer nothing happens to the client's own input. -/
theorem prepare_none {alloc : Bool} {s₁ : IoState} (h : BuffersOk s) (hc : s.conn c = some conn)
    (h₁ : releaseAvailable c s = .ok s₁) (h₂ : obtainInput alloc c s₁ = .ok none) : Moves D c s s₁ := by
  obtain ⟨s₁', h₁', hok, -, hconns, hpending⟩ := releaseAvailable_spec h c
  cases h₁'.symm.trans h₁
  refine ⟨hok, ⟨fun c' _ => by rw [hconns], fun c' _ => hpending c'⟩, releaseAvailable_spared h h₁, fun conn' hc' => ?_⟩
  cases hc.symm.trans hc'
  refine ⟨conn, by rw [hconns, (conn_eq_some.1 hc).1], rfl, ?_⟩
  have hnone := viewOf_none (obtainInput_none h₂) conn
  have hempty : pendingOf s c = [] := by
    rw [← hpending c, pendingOf, obtainInput_none h₂]
    rfl
  rw [hnone, viewOf, hempty]
  exact .forget

/-- A client's buffer, and its connection, after a call. -/
theorem Moves.of_record {s₂ : IoState} (hprep : Prepared c s s₂ oci) (hspared : Spared c s s₂) (hc : s.conn c = some conn)
    (ho : oci'.Ok) {f : Connection → Connection} (hf : ∀ conn, (f conn).clientGone = conn.clientGone)
    (horigin : (f conn).origin = conn.origin)
    (hrun : PrivateRun D (viewOf s c conn) ⟨oci'.pending, oci'.current, (f conn).socket, (f conn).delivered⟩) :
    Moves D c s (modifyConn c f (setInput c oci' s₂)) := by
  obtain ⟨hset, hothers, hrec⟩ := hprep.buffers.setInput hprep.record ho (by rw [hprep.available]; simp)
  refine ⟨hset.modifyConn hf, (hprep.others.trans hothers).trans (.modifyConn ..),
    (hspared.trans (.setInput hprep.buffers)).trans (.of_eq rfl), fun conn' hc' => ?_⟩
  cases hc.symm.trans hc'
  have hget : s₂.conns.get c = some conn := by rw [hprep.conns, (conn_eq_some.1 hc).1]
  refine ⟨f conn, ?_, horigin, ?_⟩
  · rw [get_modifyConn, if_pos rfl]
    show Option.map f (s₂.conns.get c) = _
    rw [hget]
    rfl
  · rw [viewOf_record (show (modifyConn c f (setInput c oci' s₂)).inputs.record c = some oci' from hrec)]
    exact hrun

theorem readRequestFromClient_moves {env : ReadEnv} {status : ReadStatus} (h : BuffersOk s)
    (he : readRequestFromClient env c s = .ok (status, s')) : Moves D c s s' := by
  unfold readRequestFromClient at he
  obtain ⟨conn, hc, he⟩ := Exec.bind_eq_ok.1 he
  rw [Exec.deref_eq_ok] at hc
  obtain ⟨s₁, h₁, he⟩ := Exec.bind_eq_ok.1 he
  obtain ⟨r, h₂, he⟩ := Exec.bind_eq_ok.1 he
  cases r with
  | none =>
    cases he
    exact (prepare_none h hc h₁ h₂).after (yieldControlDeath_same s₁)
  | some s₂ =>
    obtain ⟨oci, hprep, hspared⟩ := prepare_spared h (by rw [hc]; rfl) h₁ h₂
    dsimp only at he
    rw [hprep.record, Exec.deref_some, Exec.ok_bind] at he
    obtain ⟨⟨status', oci', socket⟩, hread, he⟩ := Exec.bind_eq_ok.1 he
    obtain ⟨status'', oci'', socket', hread', hok, -⟩ := readRequest_spec hprep.ok conn.order env conn.socket
    cases hread'.symm.trans hread
    have hrun := readRequest_private (D := D) hprep.ok hread (currentOf s c)
    rw [hprep.pending] at hrun
    have hmoves : Moves D c s (modifyConn c (·.receive socket status'.requests) (setInput c oci' s₂)) :=
      .of_record hprep hspared hc hok (fun _ => rfl) rfl hrun
    cases status' with
    | dead =>
      cases he
      exact hmoves.after (yieldControlDeath_same _)
    | incomplete =>
      cases he
      exact hmoves.after (yieldControlNoInput_same ..)
    | request req =>
      obtain ⟨s₃, hnext, he⟩ := Exec.bind_eq_ok.1 he
      cases he
      obtain ⟨hset, -, hrec⟩ := hprep.buffers.setInput hprep.record hok (by rw [hprep.available]; simp)
      obtain ⟨s₄, hnext', hok', hi, hconns⟩ := scheduleNext_spec (s := modifyConn c (·.receive socket [req])
        (setInput c oci' s₂)) (hset.modifyConn fun _ => rfl) hrec hok conn
      cases hnext'.symm.trans hnext
      refine ⟨hok', hmoves.others.trans (.of_eq hi hconns), hmoves.spared.trans (.of_eq hi), fun conn' hc' => ?_⟩
      obtain ⟨conn'', hget, horigin, hrun⟩ := hmoves.own conn' hc'
      exact ⟨conn'', by rw [hconns]; exact hget, horigin, by rw [viewOf_congr hi]; exact hrun⟩

theorem insert_private {grow done : Bool} {data : List UInt8} (h : oci.Ok) (hD : D data)
    (he : oci.insert grow data = .ok (done, oci')) (current socket : List UInt8) (delivered : List (List UInt8)) :
    oci'.Ok ∧ PrivateRun D ⟨oci.pending, current, socket, delivered⟩ ⟨oci'.pending, oci'.current, socket, delivered⟩ := by
  obtain ⟨done', oci'', he', hok, h0, hdone⟩ := insert_spec h grow data
  cases he'.symm.trans he
  obtain ⟨hcur, hpen⟩ := current_eq_nil h0
  refine ⟨hok, ?_⟩
  cases done with
  | true =>
    rw [hcur, hpen, hdone rfl]
    exact .one (.fake hD)
  | false =>
    have hsame : oci'.unread = oci.pending := by
      unfold ConnectionInput.insert at he
      dsimp only at he
      split at he
      · obtain ⟨_, -, he⟩ := Exec.map_eq_ok.1 he
        cases he
      split at he
      · obtain ⟨_, -, he⟩ := Exec.map_eq_ok.1 he
        cases he
      · cases he
        rfl
    rw [hcur, hpen, hsame]
    exact .forget

theorem insertFakeRequest_moves {alloc grow done : Bool} {data : List UInt8} (h : BuffersOk s) (hD : D data)
    (he : insertFakeRequest alloc grow c data s = .ok (done, s')) : Moves D c s s' := by
  unfold insertFakeRequest at he
  obtain ⟨conn, hc, he⟩ := Exec.bind_eq_ok.1 he
  rw [Exec.deref_eq_ok] at hc
  obtain ⟨s₁, h₁, he⟩ := Exec.bind_eq_ok.1 he
  obtain ⟨r, h₂, he⟩ := Exec.bind_eq_ok.1 he
  cases r with
  | none =>
    cases he
    exact prepare_none h hc h₁ h₂
  | some s₂ =>
    obtain ⟨oci, hprep, hspared⟩ := prepare_spared h (by rw [hc]; rfl) h₁ h₂
    dsimp only at he
    rw [hprep.record, Exec.deref_some, Exec.ok_bind] at he
    obtain ⟨⟨done', oci'⟩, hins, he⟩ := Exec.bind_eq_ok.1 he
    obtain ⟨hok, hrun⟩ := insert_private hprep.ok hD hins (currentOf s c) conn.socket conn.delivered
    rw [hprep.pending] at hrun
    have hmoves : Moves D c s (modifyConn c id (setInput c oci' s₂)) :=
      .of_record hprep hspared hc hok (fun _ => rfl) rfl hrun
    have hset : Moves D c s (setInput c oci' s₂) := hmoves.after ⟨rfl, rfl, fun c' => by
      rw [get_modifyConn]
      split
      · rw [Option.map_id]
        rfl
      · rfl⟩
    dsimp only at he
    split at he
    · cases he
      exact hset
    · obtain ⟨whole, -, he⟩ := Exec.bind_eq_ok.1 he
      cases he
      exact hset.after (schedule_same ..)

theorem resetCurrentRequest_moves (h : BuffersOk s) (he : resetCurrentRequest c s = .ok s') : Moves D c s s' := by
  unfold resetCurrentRequest at he
  obtain ⟨conn, hc, he⟩ := Exec.bind_eq_ok.1 he
  rw [Exec.deref_eq_ok] at hc
  obtain ⟨hk, ha, hi, hconns⟩ := keepAvailable_spec h c
  have hkept : Others c s (s.keepAvailable c) := .of_eq hi hconns
  have hspared : Spared c s (s.keepAvailable c) := .of_eq hi
  dsimp only at he
  generalize s.keepAvailable c = s₁ at hk ha hi hconns hkept hspared he
  obtain ⟨oci, hr, he⟩ := Exec.bind_eq_ok.1 he
  rw [Exec.deref_eq_ok] at hr
  obtain ⟨whole, -, he⟩ := Exec.bind_eq_ok.1 he
  cases he
  have hok := hk.ok c oci hr
  obtain ⟨hset, hothers, hrec⟩ := hk.setInput hr hok.forget fun h => absurd h ha
  have hmoves : Moves D c s (setInput c oci.forget s₁) := by
    refine ⟨hset, hkept.trans hothers, hspared.trans (.setInput hk), fun conn' hc' => ?_⟩
    cases hc.symm.trans hc'
    refine ⟨conn, ?_, rfl, ?_⟩
    · show s₁.conns.get c = _
      rw [hconns, (conn_eq_some.1 hc).1]
    · rw [hi] at hr
      obtain ⟨hcur, hpen⟩ := @current_eq_nil oci.forget rfl
      rw [viewOf_record hr, viewOf_record hrec, hcur, hpen]
      have hreset : PrivateRun D ⟨oci.pending, oci.current, conn.socket, conn.delivered⟩ _ := .one .reset
      dsimp only at hreset
      rw [oci.current_append] at hreset
      exact hreset
  split
  · exact (hmoves.after (schedule_same ..)).after (.of_eq rfl rfl rfl)
  · exact hmoves.after (schedule_same ..)

theorem freeOsBuffers_spared (h : BuffersOk s) (he : freeOsBuffers c s = .ok s') : Spared c s s' := by
  unfold freeOsBuffers at he
  obtain ⟨hk, -, hi, -⟩ := keepAvailable_spec h c
  have hkept : Spared c s (s.keepAvailable c) := .of_eq hi
  dsimp only at he
  generalize s.keepAvailable c = s₁ at hk hkept he
  obtain ⟨inputs, hin, he⟩ := Exec.bind_eq_ok.1 he
  obtain ⟨outputs, -, he⟩ := Exec.bind_eq_ok.1 he
  cases he
  refine hkept.trans ?_
  cases hh : s₁.inputs.held c with
  | none =>
    rw [hh, Option.isNone_none, if_pos rfl] at hin
    cases hin
    exact .of_eq rfl
  | some p =>
    rw [hh, Option.isNone_some, if_neg (by simp)] at hin
    obtain ⟨oci, hr⟩ := hk.sound.record hh
    split at hin
    · obtain ⟨pool, hpool, -, hl⟩ := hk.sound.drop hr
      cases hpool.symm.trans hin
      exact .lost hl fun hp => hp.drop hin
    · have hrec : (s₁.inputs.modify c (·.reset)).record c = some oci.reset := by
        rw [hk.sound.record_modify, if_pos rfl, hr]
        rfl
      obtain ⟨pool, hpool, -, hl⟩ := hk.sound.modify.give hrec (drained_reset (hk.ok c oci hr))
      cases hpool.symm.trans hin
      refine ⟨fun c' hcc => ?_, fun hp => hp.modify.give hk.sound.modify hin⟩
      exact .inl (by rw [hl.record c' hcc, hk.sound.record_modify, if_neg hcc])

theorem closeConnection_moves (h : BuffersOk s) (he : closeConnection c s = .ok s') : Moves D c s s' := by
  unfold closeConnection at he
  obtain ⟨conn, hc, he⟩ := Exec.bind_eq_ok.1 he
  obtain ⟨s₁, h₁, he⟩ := Exec.bind_eq_ok.1 he
  cases he
  obtain ⟨hok, ho, hconns, hheld⟩ := freeOsBuffers_spec h h₁
  refine ⟨⟨hok.sound, hok.ok, hok.available, fun c' p hp => ?_⟩, ho.trans (.modifyConn ..),
    (freeOsBuffers_spared h h₁).trans (.of_eq rfl), fun conn' hc' => ?_⟩
  · have hcc : c' ≠ c := by
      rintro rfl
      exact absurd (hheld.symm.trans hp) (by simp)
    rw [conn_isSome_congr (s := s₁) (by rw [get_modifyConn, if_neg hcc])]
    exact hok.holder c' p hp
  · refine ⟨{ conn' with clientGone := true }, ?_, rfl, ?_⟩
    · rw [get_modifyConn, if_pos rfl, hconns, (conn_eq_some.1 hc').1]
      rfl
    · have hview := viewOf_none (s := modifyConn c (fun conn => { conn with clientGone := true }) s₁)
        (Pool.record_none hheld) { conn' with clientGone := true }
      rw [hview]
      exact .one (.scramble fun b hb => by cases hb)

/-! ### Output -/

theorem obtainOutput_placed {alloc : Bool} (h : OutputsOk s) (hp : s.outputs.Placed)
    (he : obtainOutput alloc c s = .ok (some s')) : s'.outputs.Placed := by
  unfold obtainOutput at he
  split at he
  · cases he
    exact hp
  · rename_i hheld
    obtain ⟨r, hr, he⟩ := Exec.bind_eq_ok.1 he
    rcases r with _ | pool
    · cases he
    · cases he
      exact hp.take h.sound (by simpa using hheld) hr

theorem freeOsBuffers_placed (h : OutputsOk s) (hp : s.outputs.Placed) (he : freeOsBuffers c s = .ok s') :
    s'.outputs.Placed := by
  unfold freeOsBuffers at he
  have hk := keepAvailable_sameOutput c s
  have h₁ := h.same hk
  rw [← hk.outputs] at hp
  dsimp only at he
  generalize s.keepAvailable c = s₁ at h₁ hp he
  obtain ⟨inputs, -, he⟩ := Exec.bind_eq_ok.1 he
  obtain ⟨outputs, hout, he⟩ := Exec.bind_eq_ok.1 he
  cases he
  split at hout
  · cases hout
    exact hp
  split at hout
  · exact hp.drop hout
  · exact hp.modify.give h₁.sound.modify hout

/-- What is sent and what is buffered for a client was written for it, in this order, with pads. -/
def SentOwn (conn : Connection) (buffered : List UInt8) : Prop :=
  ∃ l, Padded conn.written l ∧ (conn.accepted ++ buffered).Sublist l

/-- What a call does to the output: its client's is its own, the others' stays. -/
structure Sends (c : ConnPtr) (s s' : IoState) : Prop where
  outputs : OutputsOk s'
  others : OtherOutputs c s s'
  placed : s.outputs.Placed → s'.outputs.Placed
  own : ∀ conn, s.conn c = some conn → SentOwn conn (bufferedOf s c) → ∀ conn', s'.conns.get c = some conn' →
    SentOwn conn' (bufferedOf s' c)

theorem SentOwn.outputSide {buffered : List UInt8} (h : SentOwn conn buffered) (hs : conn'.outputSide = conn.outputSide) :
    SentOwn conn' buffered := by
  have hwritten : conn'.written = conn.written := congrArg (·.written) hs
  have haccepted : conn'.accepted = conn.accepted := congrArg (·.accepted) hs
  rw [SentOwn, hwritten, haccepted]
  exact h

/-- Of data that are written all may be sent, or nothing. -/
theorem SentOwn.written {buffered buf : List UInt8} (h : SentOwn conn buffered) :
    SentOwn { conn with written := conn.written ++ [buf] } buffered := by
  obtain ⟨l, hl, hsub⟩ := h
  refine ⟨l ++ (buf ++ List.replicate (padlength buf.length) 0), hl.snoc List.length_replicate, ?_⟩
  exact hsub.trans (List.sublist_append_left ..)

theorem SentOwn.passes {extra before after : List UInt8} (h : SentOwn conn before)
    (hp : Passes { conn with written := conn.written ++ [extra] } conn' extra before after)
    (hw : conn'.written = conn.written ++ [extra]) : SentOwn conn' after := by
  obtain ⟨l, hl, hsub⟩ := h
  obtain ⟨pad, hpad, hpass⟩ := hp
  refine ⟨l ++ (extra ++ pad), ?_, ?_⟩
  · rw [hw]
    exact hl.snoc hpad
  · rw [← List.append_assoc] at hpass
    exact hpass.trans (hsub.append_right _)

theorem Sends.same (h : OutputsOk s) (hs : SameOutput s s') : Sends c s s' := by
  refine ⟨h.same hs, hs.others c, fun hp => hs.outputs ▸ hp, fun conn hc hsent conn' hget => ?_⟩
  have hconns := hs.conns c
  rw [hget, (conn_eq_some.1 hc).1] at hconns
  rw [hs.buffered]
  exact hsent.outputSide (Option.some.inj hconns)

theorem flushClient_sends {env : FlushEnv} {n : Int} (h : OutputsOk s) (he : flushClient env c [] s = .ok (n, s')) :
    Sends c s s' := by
  obtain ⟨conn, hc, he'⟩ := Exec.bind_eq_ok.1 he
  rw [Exec.deref_eq_ok] at hc
  cases hr : s.outputs.record c with
  | none =>
    rw [hr] at he'
    cases he'
    exact .same h (.refl s)
  | some oco =>
    rcases flushClient_spec h hc hr env [] (h.ok c oco hr).count_int with hfuel |
      ⟨n', s₁, conn', h₁, hok, ho, hget, hsent, ⟨pad, hpad, hpass⟩, hplaced⟩
    · cases hfuel.symm.trans he
    cases h₁.symm.trans he
    refine ⟨hok, ho, hplaced, fun conn₀ hc₀ hown conn₁ hget₁ => ?_⟩
    cases hc.symm.trans hc₀
    cases hget.symm.trans hget₁
    obtain ⟨l, hl, hsub⟩ := hown
    rw [List.length_eq_zero_iff.1 hpad, List.append_nil, List.append_nil, ← bufferedOf_record hr] at hpass
    exact ⟨l, by rw [hsent.written]; exact hl, hpass.trans hsub⟩

theorem writeToClient_sends {alloc : Bool} {env : FlushEnv} {buf : List UInt8} {n : Int} (h : OutputsOk s)
    (he : writeToClient alloc env c buf s = .ok (n, s')) : Sends c s s' := by
  unfold writeToClient at he
  split at he
  · cases he
    exact .same h (.refl s)
  obtain ⟨conn, hc, he⟩ := Exec.bind_eq_ok.1 he
  rw [Exec.deref_eq_ok] at hc
  obtain ⟨hget, hgone⟩ := conn_eq_some.1 hc
  dsimp only at he
  have h₁ : OutputsOk (modifyConn c (fun conn => { conn with written := conn.written ++ [buf] }) s) :=
    h.modifyConn fun _ => rfl
  have ho₁ : OtherOutputs c s (modifyConn c (fun conn => { conn with written := conn.written ++ [buf] }) s) :=
    .modifyConn ..
  have hget₁ : (modifyConn c (fun conn => { conn with written := conn.written ++ [buf] }) s).conns.get c =
      some { conn with written := conn.written ++ [buf] } := by
    rw [get_modifyConn, if_pos rfl, hget]
    rfl
  have hp₁ : s.outputs.Placed → Pool.Placed (modifyConn c
    (fun conn => { conn with written := conn.written ++ [buf] }) s).outputs := id
  have hb₁ : bufferedOf (modifyConn c (fun conn => { conn with written := conn.written ++ [buf] }) s) c =
      bufferedOf s c := rfl
  generalize modifyConn c (fun conn => { conn with written := conn.written ++ [buf] }) s = s₁ at h₁ ho₁ hget₁ hp₁ hb₁ he
  have hc₁ := conn_eq_some.2 ⟨hget₁, hgone⟩
  obtain ⟨r, hr, he⟩ := Exec.bind_eq_ok.1 he
  rcases obtainOutput_spec h₁ (by rw [hc₁]; rfl) alloc with ⟨-, hnone⟩ | ⟨s₂, oco, -, hsome, h₂, hconns, hrec, hb, ho₂⟩
  · cases hnone.symm.trans hr
    cases he
    refine ⟨h₁.modifyConn fun _ => rfl, ho₁.trans (.modifyConn ..), hp₁, fun conn₀ hc₀ hown conn' hget' => ?_⟩
    cases hc.symm.trans hc₀
    rw [get_modifyConn, if_pos rfl, hget₁] at hget'
    cases hget'
    have hwritten : SentOwn { conn with written := conn.written ++ [buf] } (bufferedOf s c) := hown.written
    rw [← hb₁] at hwritten
    exact hwritten
  cases hsome.symm.trans hr
  have hp₂ : s.outputs.Placed → s₂.outputs.Placed := fun hp => obtainOutput_placed h₁ (hp₁ hp) hsome
  dsimp only at he
  rw [hrec, Exec.deref_some, Exec.ok_bind] at he
  have hok := h₂.ok c oco hrec
  have hbuffered : oco.buffered = bufferedOf s c := hb.trans hb₁
  rw [hconns.symm] at hget₁
  split at he
  · cases he
  split at he
  · generalize hs₃ : ({ s₂ with
      outputPending := bitClear s₂.outputPending conn.fd
      criticalOutputPending := false, newOutputPending := false } : IoState) = s₃ at he
    have hsame : SameOutput s₂ s₃ := by
      rw [← hs₃]
      exact .of_eq rfl rfl
    have hget₃ : s₃.conns.get c = some { conn with written := conn.written ++ [buf] } := by
      rw [← hs₃]
      exact hget₁
    rcases flushClient_spec (h₂.same hsame) (conn_eq_some.2 ⟨hget₃, hgone⟩) (by rw [hsame.outputs, hrec]) env buf
      (by omega) with hfuel | ⟨n', s₄, conn', h₄, hok₄, ho₄, hget₄, hsent, hpass, hplaced⟩
    · cases hfuel.symm.trans he
    cases h₄.symm.trans he
    refine ⟨hok₄, ((ho₁.trans ho₂).trans (hsame.others c)).trans ho₄, fun hp => hplaced (hsame.outputs ▸ hp₂ hp),
      fun conn₀ hc₀ hown conn'' hget'' => ?_⟩
    cases hc.symm.trans hc₀
    cases hget₄.symm.trans hget''
    rw [hbuffered] at hpass
    exact hown.passes hpass hsent.written
  · obtain ⟨data, hdata, he⟩ := Exec.bind_eq_ok.1 he
    cases he
    have hle := hok.size_le
    have hcle := hok.count_le
    have hst := Memory.store_eq_ok.1 hdata
    generalize hs₃ : ({ s₂ with
      newOutputPending := true, outputPending := bitSet s₂.outputPending conn.fd } : IoState) = s₃
    have hsame : SameOutput s₂ s₃ := by
      rw [← hs₃]
      exact .of_eq rfl rfl
    have hget₃ : s₃.conns.get c = some { conn with written := conn.written ++ [buf] } := by
      rw [← hs₃]
      exact hget₁
    have hr₃ : s₃.outputs.record c = some oco := by rw [hsame.outputs, hrec]
    have hok₃ : ({ oco with buf := data, count := oco.count + buf.length + padlength buf.length } :
        ConnectionOutput).Ok :=
      ⟨by dsimp only; rw [hst.length]; exact hle, by dsimp only; rw [hst.length]; omega, by dsimp only; omega⟩
    obtain ⟨h₄, ho₄, hr₄⟩ := (h₂.same hsame).setOutput hr₃ hok₃
    refine ⟨h₄, ((ho₁.trans ho₂).trans (hsame.others c)).trans ho₄, fun hp => ?_, fun conn₀ hc₀ hown conn' hget' => ?_⟩
    · have hp₃ : s₃.outputs.Placed := hsame.outputs ▸ hp₂ hp
      exact hp₃.modify
    cases hc.symm.trans hc₀
    cases hget₃.symm.trans hget'
    -- the new data are behind what is buffered, and the pad is what the buffer holds behind them
    have hafter : bufferedOf (setOutput c ({ oco with buf := data, count := oco.count + buf.length + padlength buf.length } :
        ConnectionOutput) s₃) c = oco.buffered ++ (buf ++ Memory.slice data (oco.count + buf.length)
        (oco.count + buf.length + padlength buf.length)) := by
      rw [bufferedOf_record hr₄, ConnectionOutput.buffered,
        ← Memory.slice_append (Nat.zero_le oco.count) (by dsimp only; omega),
        ← Memory.slice_append (b := oco.count + buf.length) (Nat.le_add_right ..) (Nat.le_add_right ..),
        hst.slice_below le_rfl, hst.slice_self]
      rfl
    refine hown.passes ⟨Memory.slice data (oco.count + buf.length) (oco.count + buf.length + padlength buf.length),
      ?_, ?_⟩ rfl
    · rw [Memory.length_slice (by rw [hst.length]; omega)]
      omega
    · rw [hafter, hbuffered]

theorem closeConnection_sends (h : OutputsOk s) (he : closeConnection c s = .ok s') : Sends c s s' := by
  unfold closeConnection at he
  obtain ⟨conn, hc, he⟩ := Exec.bind_eq_ok.1 he
  rw [Exec.deref_eq_ok] at hc
  obtain ⟨s₁, h₁, he⟩ := Exec.bind_eq_ok.1 he
  cases he
  obtain ⟨hok, ho, hconns, hheld⟩ := freeOsBuffers_outputs h h₁
  refine ⟨⟨hok.sound, hok.ok, fun c' p hp => ?_⟩, ho.trans (.modifyConn ..),
    fun hp => (freeOsBuffers_placed h hp h₁ : s₁.outputs.Placed), fun conn' hc' hown conn'' hget'' => ?_⟩
  · have hcc : c' ≠ c := by
      rintro rfl
      exact absurd (hheld.symm.trans hp) (by simp)
    rw [conn_isSome_outputSide (s := s₁) (by rw [get_modifyConn, if_neg hcc])]
    exact hok.holder c' p hp
  · rw [get_modifyConn, if_pos rfl, hconns, (conn_eq_some.1 hc').1] at hget''
    cases hget''
    have hnone : bufferedOf (modifyConn c (fun conn => { conn with clientGone := true }) s₁) c = [] := by
      show ((s₁.outputs.record c).map (·.buffered)).getD [] = []
      rw [Pool.record_none hheld]
      rfl
    obtain ⟨l, hl, hsub⟩ := hown
    refine ⟨l, hl, ?_⟩
    rw [hnone, List.append_nil]
    exact (List.sublist_append_left ..).trans hsub

/-! ### Runs -/

/-- The requests that are made up for a client satisfy `D`. -/
def Faked (D : ConnPtr → List UInt8 → Prop) (_ : IoState) : PoolOp → Prop
  | .insertFakeRequest _ _ c data => D c data
  | _ => True

structure PoolInv (D : ConnPtr → List UInt8 → Prop) (s : IoState) : Prop where
  buffers : BuffersOk s
  outputs : OutputsOk s
  placedInputs : s.inputs.Placed
  placedOutputs : s.outputs.Placed
  view : ∀ c conn, s.conns.get c = some conn → PrivateRun (D c) (.start conn.origin.stream) (viewOf s c conn)
  sent : ∀ c conn, s.conns.get c = some conn → SentOwn conn (bufferedOf s c)

section Runs
variable {D : ConnPtr → List UInt8 → Prop}

/-- A call for one client keeps what holds of all. -/
theorem PoolInv.call (h : PoolInv D s) (hc : (s.conn c).isSome) (hm : Moves (D c) c s s') (hs : Sends c s s') :
    PoolInv D s' where
  buffers := hm.buffers
  outputs := hs.outputs
  placedInputs := hm.spared.placed h.placedInputs
  placedOutputs := hs.placed h.placedOutputs
  view c' conn' hget := by
    by_cases hcc : c' = c
    · subst hcc
      obtain ⟨conn, hconn⟩ := Option.isSome_iff_exists.1 hc
      obtain ⟨conn₁, hget₁, horigin, hrun⟩ := hm.own conn hconn
      cases hget₁.symm.trans hget
      rw [horigin]
      exact (h.view c' conn (conn_eq_some.1 hconn).1).trans hrun
    · obtain ⟨conn, hget₀, horigin, -, hrun⟩ := spared_view (D := D c') hm.others hm.spared hcc hget
      rw [← horigin]
      exact (h.view c' conn hget₀).trans hrun
  sent c' conn' hget := by
    by_cases hcc : c' = c
    · subst hcc
      obtain ⟨conn, hconn⟩ := Option.isSome_iff_exists.1 hc
      exact hs.own conn hconn (h.sent c' conn (conn_eq_some.1 hconn).1) conn' hget
    · have hconns := hs.others.conns c' hcc
      rw [hget] at hconns
      obtain ⟨conn, hget₀, hside⟩ := Option.map_eq_some_iff.1 hconns.symm
      rw [hs.others.buffered c' hcc]
      exact (h.sent c' conn hget₀).outputSide hside.symm

theorem get_allocConnection {fd : Nat} {origin : Origin} (hget : (allocConnection fd origin s).conns.get c = some conn) :
    s.conns.get c = some conn ∨
      c = s.conns.next ∧ conn = { fd, origin, order := origin.order, socket := origin.stream } := by
  rw [allocConnection, Heap.get_alloc] at hget
  split at hget
  · cases hget
    exact .inr ⟨‹_›, rfl⟩
  · exact .inl hget

/-- A new connection has no buffer, and nothing was read or written. -/
theorem PoolInv.connect (h : PoolInv D s) (fd : Nat) (origin : Origin) : PoolInv D (allocConnection fd origin s) := by
  have halive : ∀ c, (s.conn c).isSome → ((allocConnection fd origin s).conn c).isSome := fun c hc => by
    obtain ⟨conn, hconn⟩ := Option.isSome_iff_exists.1 hc
    obtain ⟨hget, hgone⟩ := conn_eq_some.1 hconn
    rw [Option.isSome_iff_exists]
    refine ⟨conn, conn_eq_some.2 ⟨?_, hgone⟩⟩
    rw [allocConnection, Heap.get_alloc, if_neg (Nat.ne_of_lt (Heap.lt_next hget)), hget]
  have hfresh : s.conn s.conns.next = none := by
    rw [IoState.conn, s.conns.fresh _ (Nat.le_refl _)]
    rfl
  have hin : s.inputs.record s.conns.next = none := by
    by_contra hne
    obtain ⟨oci, hr⟩ := Option.ne_none_iff_exists'.1 hne
    obtain ⟨p, hp, -⟩ := Pool.record_eq_some.1 hr
    have hsome := h.buffers.holder _ _ hp
    rw [hfresh] at hsome
    cases hsome
  have hout : s.outputs.record s.conns.next = none := by
    by_contra hne
    obtain ⟨oco, hr⟩ := Option.ne_none_iff_exists'.1 hne
    obtain ⟨p, hp, -⟩ := Pool.record_eq_some.1 hr
    have hsome := h.outputs.holder _ _ hp
    rw [hfresh] at hsome
    cases hsome
  refine ⟨h.buffers.congr rfl rfl halive, h.outputs.congr rfl halive, h.placedInputs, h.placedOutputs,
    fun c conn hget => ?_, fun c conn hget => ?_⟩
  · rcases get_allocConnection hget with hold | ⟨rfl, rfl⟩
    · exact h.view c conn hold
    · rw [viewOf_none (s := allocConnection fd origin s) hin]
      exact .refl
  · rcases get_allocConnection hget with hold | ⟨rfl, rfl⟩
    · exact h.sent c conn hold
    · refine ⟨[], .nil, ?_⟩
      have hnone : bufferedOf (allocConnection fd origin s) s.conns.next = [] := by
        show ((s.outputs.record s.conns.next).map (·.buffered)).getD [] = []
        rw [hout]
        rfl
      rw [hnone]
      exact .refl _

theorem PoolInv.step {op : PoolOp} (h : PoolInv D s) (hf : Faked D s op) (he : poolStep s op = .ok s') :
    PoolInv D s' := by
  have halive : ∀ {α : Type} {c : ConnPtr} {f : Connection → Exec α} {a : α}, (Exec.deref (s.conn c) >>= f) = .ok a →
      (s.conn c).isSome := fun he => by
    obtain ⟨conn, hc, -⟩ := Exec.bind_eq_ok.1 he
    rw [Exec.deref_eq_ok.1 hc]
    rfl
  rcases op with ⟨fd, origin⟩ | ⟨env, c⟩ | ⟨alloc, grow, c, data⟩ | c | ⟨alloc, env, c, buf⟩ | ⟨env, c⟩ | c
  · cases he
    exact h.connect fd origin
  · obtain ⟨⟨status, s₁⟩, h₁, rfl⟩ := Exec.map_eq_ok.1 he
    exact h.call (halive h₁) (readRequestFromClient_moves h.buffers h₁)
      (.same h.outputs (readRequestFromClient_sameOutput h₁))
  · obtain ⟨⟨done, s₁⟩, h₁, rfl⟩ := Exec.map_eq_ok.1 he
    exact h.call (halive h₁) (insertFakeRequest_moves h.buffers hf h₁)
      (.same h.outputs (insertFakeRequest_sameOutput h₁))
  · exact h.call (halive he) (resetCurrentRequest_moves h.buffers he)
      (.same h.outputs (resetCurrentRequest_sameOutput he))
  · obtain ⟨⟨n, s₁⟩, h₁, rfl⟩ := Exec.map_eq_ok.1 he
    by_cases hbuf : buf = []
    · rw [writeToClient, if_pos hbuf] at h₁
      cases h₁
      exact h
    · have hlive := h₁
      rw [writeToClient, if_neg hbuf] at hlive
      exact h.call (halive hlive) (.same h.buffers (writeToClient_same h₁)) (writeToClient_sends h.outputs h₁)
  · obtain ⟨⟨n, s₁⟩, h₁, rfl⟩ := Exec.map_eq_ok.1 he
    exact h.call (halive h₁) (.same h.buffers (flushClient_same h₁)) (flushClient_sends h.outputs h₁)
  · exact h.call (halive he) (closeConnection_moves h.buffers he) (closeConnection_sends h.outputs he)

theorem poolInv_init : PoolInv D {} where
  buffers := inputInv_init.buffers
  outputs := outputInv_init.outputs
  placedInputs := Pool.placed_empty
  placedOutputs := Pool.placed_empty
  view c conn h := by cases h
  sent c conn h := by cases h

theorem reach_poolInv (h : Reach poolStep (Faked D) {} s) : PoolInv D s :=
  h.inv poolInv_init fun _ _ _ hi hf he => hi.step hf he

/-- Every buffer has one owner: a connection that is there, or else the free list, and then nothing is left in it. -/
structure BuffersOwned (s : IoState) : Prop where
  inputs : s.inputs.OwnedOnce Drained
  outputs : s.outputs.OwnedOnce Emptied
  holder : ∀ c, (s.inputs.held c).isSome ∨ (s.outputs.held c).isSome → (s.conn c).isSome

end Runs

def silent : Origin := { order := .little, fake := [], stream := [], react := fun _ => .done }

/-- Four bytes are written to one client and then one byte to another, which gets the same buffer. -/
def stalePad : List PoolOp :=
  let env : FlushEnv := { writes := [.upTo 8], grow := true, padBuffer := fun _ => 0 }
  [.connect 3 silent, .connect 4 silent, .writeToClient true env 0 [1, 2, 3, 4], .flushClient env 0,
    .writeToClient true env 1 [9], .flushClient env 1]

theorem stalePad_run : ∃ s conn, Reach poolStep (Faked fun _ _ => True) {} s ∧ s.conns.get 1 = some conn ∧
    conn.written = [[9]] ∧ conn.accepted = [9, 2, 3, 4] := by
  have hrun : (stalePad.foldlM poolStep {}).toOption.any (fun s => (s.conns.get 1).any fun conn =>
      conn.written = [[9]] ∧ conn.accepted = [9, 2, 3, 4]) = true := by
    decide +kernel
  obtain ⟨s, hs, hrun⟩ := (Option.any_eq_true ..).1 hrun
  obtain ⟨conn, hget, hconn⟩ := (Option.any_eq_true ..).1 hrun
  obtain ⟨hwritten, haccepted⟩ := of_decide_eq_true hconn
  refine ⟨s, conn, (Reach.run (Exec.toOption_eq_some.1 hs)).mono fun s op _ => ?_, hget, hwritten, haccepted⟩
  cases op <;> trivial

end Nas.Io
