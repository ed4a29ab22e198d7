import Nas.InputFraming

/-!
# The input of all connections

What one connection's buffer does is `InputFraming`; here the buffers are shared. `BuffersOk` says that
every buffer has one place, that nothing outside of it is used, and that a buffer another client may take
away has nothing left in it. `Follows` says of a connection that what has been delivered and what is left
are a state of the `Feed` of its stream, and `InputInv` that all of this holds of the whole state. Each
step keeps it (`ioStep_inv`), so that what a client has been given depends on its stream alone
(`delivered_of_stream`).
-/

namespace Nas.Io
open ConnectionInput

variable {s s' s'' : IoState} {c c' : ConnPtr} {conn conn' : Connection} {oci oci' : ConnectionInput}

/-! ### What a step leaves alone -/

/-- A connection without what concerns its output. -/
def Connection.inputSide (conn : Connection) : Connection :=
  { conn with noClientException := true, written := [], accepted := [] }

/-- The bytes of a client that were read and not delivered. -/
def pendingOf (s : IoState) (c : ConnPtr) : List UInt8 := ((s.inputs.record c).map (·.pending)).getD []

structure SameInput (s s' : IoState) : Prop where
  inputs : s'.inputs = s.inputs
  availableInput : s'.availableInput = s.availableInput
  conns : ∀ c, (s'.conns.get c).map (·.inputSide) = (s.conns.get c).map (·.inputSide)

namespace SameInput

theorem refl (s : IoState) : SameInput s s := ⟨rfl, rfl, fun _ => rfl⟩

theorem trans (h : SameInput s s') (h' : SameInput s' s'') : SameInput s s'' :=
  ⟨h'.inputs.trans h.inputs, h'.availableInput.trans h.availableInput, fun c => (h'.conns c).trans (h.conns c)⟩

theorem of_eq (hi : s'.inputs = s.inputs) (ha : s'.availableInput = s.availableInput) (hc : s'.conns = s.conns) :
    SameInput s s' :=
  ⟨hi, ha, fun c => by rw [hc]⟩

end SameInput

theorem get_modifyConn {f : Connection → Connection} :
    (modifyConn c f s).conns.get c' = if c' = c then (s.conns.get c').map f else s.conns.get c' :=
  Heap.get_modify

theorem modifyConn_same {f : Connection → Connection} (hf : ∀ conn, (f conn).inputSide = conn.inputSide) :
    SameInput s (modifyConn c f s) := by
  refine ⟨rfl, rfl, fun c' => ?_⟩
  rw [get_modifyConn]
  split
  · rw [Option.map_map]
    congr 1
    funext conn
    exact hf conn
  · rfl

/-- Only one client's input changes. -/
structure Others (c : ConnPtr) (s s' : IoState) : Prop where
  conns : ∀ c', c' ≠ c → (s'.conns.get c').map (·.inputSide) = (s.conns.get c').map (·.inputSide)
  pending : ∀ c', c' ≠ c → pendingOf s' c' = pendingOf s c'

namespace Others

theorem refl (c : ConnPtr) (s : IoState) : Others c s s := ⟨fun _ _ => rfl, fun _ _ => rfl⟩

theorem trans (h : Others c s s') (h' : Others c s' s'') : Others c s s'' :=
  ⟨fun c' hc => (h'.conns c' hc).trans (h.conns c' hc), fun c' hc => (h'.pending c' hc).trans (h.pending c' hc)⟩

theorem of_eq (hi : s'.inputs = s.inputs) (hc : s'.conns = s.conns) : Others c s s' :=
  ⟨fun c' _ => by rw [hc], fun c' _ => by rw [pendingOf, pendingOf, hi]⟩

theorem modifyConn (c : ConnPtr) (f : Connection → Connection) (s : IoState) : Others c s (modifyConn c f s) :=
  ⟨fun c' hc => by rw [get_modifyConn, if_neg hc], fun _ _ => rfl⟩

end Others

theorem SameInput.pending (h : SameInput s s') (c : ConnPtr) : pendingOf s' c = pendingOf s c := by
  rw [pendingOf, pendingOf, h.inputs]

theorem SameInput.others (h : SameInput s s') (c : ConnPtr) : Others c s s' :=
  ⟨fun c' _ => h.conns c', fun c' _ => h.pending c'⟩

theorem conn_eq_some : s.conn c = some conn ↔ s.conns.get c = some conn ∧ conn.clientGone = false := by
  rw [IoState.conn, Option.filter_eq_some_iff]
  simp

/-- Whether a connection is there is part of its input. -/
theorem conn_isSome_congr (h : (s'.conns.get c).map (·.inputSide) = (s.conns.get c).map (·.inputSide)) :
    (s'.conn c).isSome = (s.conn c).isSome := by
  have hany : ∀ t : IoState, (t.conn c).isSome =
      ((t.conns.get c).map (·.inputSide)).any (! ·.clientGone) := fun t => by
    rw [IoState.conn]
    cases t.conns.get c with
    | none => rfl
    | some conn => cases hg : conn.clientGone <;> simp [Option.filter, Connection.inputSide, hg]
  rw [hany, hany, h]

/-! ### Buffers -/

/-- Nothing is left in a buffer. -/
def Drained (oci : ConnectionInput) : Prop := oci.Ok ∧ oci.bufptr + oci.lenLastReq = oci.bufcnt

theorem Drained.pending (h : Drained oci) : oci.pending = [] := by
  rw [ConnectionInput.pending, h.2, Memory.slice_self]

theorem newInput_ok : newInput.Ok := ⟨List.length_replicate, Nat.zero_le _, Nat.zero_le _⟩

structure BuffersOk (s : IoState) : Prop where
  sound : s.inputs.Sound Drained
  ok : ∀ c oci, s.inputs.record c = some oci → oci.Ok
  available : ∀ c, s.availableInput = some c → ∃ oci, s.inputs.record c = some oci ∧ Drained oci
  holder : ∀ c p, s.inputs.held c = some p → (s.conn c).isSome

namespace BuffersOk

theorem congr (h : BuffersOk s) (hi : s'.inputs = s.inputs) (ha : s'.availableInput = s.availableInput)
    (hc : ∀ c, (s.conn c).isSome → (s'.conn c).isSome) : BuffersOk s' where
  sound := hi ▸ h.sound
  ok := hi ▸ h.ok
  available := by rw [ha, hi]; exact h.available
  holder c p hp := hc c (h.holder c p (hi ▸ hp))

theorem same (h : BuffersOk s) (hs : SameInput s s') : BuffersOk s' :=
  h.congr hs.inputs hs.availableInput fun c hc => by rwa [conn_isSome_congr (hs.conns c)]

theorem modifyConn (h : BuffersOk s) {f : Connection → Connection}
    (hf : ∀ conn, (f conn).clientGone = conn.clientGone) : BuffersOk (modifyConn c f s) := by
  refine h.congr rfl rfl fun c' hc => ?_
  obtain ⟨conn, hconn⟩ := Option.isSome_iff_exists.1 hc
  obtain ⟨hget, hgone⟩ := conn_eq_some.1 hconn
  rw [Option.isSome_iff_exists]
  by_cases hcc : c' = c
  · exact ⟨f conn, conn_eq_some.2 ⟨by rw [get_modifyConn, if_pos hcc, hget]; rfl, by rw [hf, hgone]⟩⟩
  · exact ⟨conn, conn_eq_some.2 ⟨by rw [get_modifyConn, if_neg hcc, hget], hgone⟩⟩

/-- A client loses its buffer. -/
theorem lost (h : BuffersOk s) {pool : Pool ConnPtr ConnectionInput} (hs : pool.Sound Drained)
    (hl : Pool.Sound.Lost s.inputs pool c) {a : Option ConnPtr} (ha : a = none ∨ a = s.availableInput ∧ a ≠ some c) :
    BuffersOk { s with inputs := pool, availableInput := a } ∧
      Others c s { s with inputs := pool, availableInput := a } ∧
      pendingOf { s with inputs := pool, availableInput := a } c = [] := by
  have hgone : pool.record c = none := Pool.record_none (by rw [hl.held, if_pos rfl])
  refine ⟨⟨hs, fun c' oci hr => ?_, fun c' hc => ?_, fun c' p hp => ?_⟩, ⟨fun _ _ => rfl, fun c' hc => ?_⟩, ?_⟩
  · by_cases hcc : c' = c
    · rw [hcc] at hr
      exact absurd (hgone.symm.trans hr) (by simp)
    · exact h.ok c' oci ((hl.record c' hcc) ▸ hr)
  · rcases ha with rfl | ⟨rfl, ha⟩
    · cases hc
    · have hcc : c' ≠ c := by
        intro hcc
        exact ha (hcc ▸ hc)
      rw [show IoState.inputs { s with inputs := pool } = pool from rfl, hl.record c' hcc]
      exact h.available c' hc
  · rw [hl.held] at hp
    split at hp
    · cases hp
    · exact h.holder c' p hp
  · rw [pendingOf, pendingOf, hl.record c' hc]
  · rw [pendingOf, hgone]
    rfl

/-- A client's buffer changes. -/
theorem setInput (h : BuffersOk s) (hr : s.inputs.record c = some oci) (ho : oci'.Ok)
    (ha : s.availableInput = some c → Drained oci') :
    BuffersOk (setInput c oci' s) ∧ Others c s (setInput c oci' s) ∧
      (setInput c oci' s).inputs.record c = some oci' := by
  have hrec : ∀ c', (Io.setInput c oci' s).inputs.record c' =
      if c' = c then some oci' else s.inputs.record c' := fun c' => by
    rw [Io.setInput, h.sound.record_modify, hr]
    rfl
  refine ⟨⟨h.sound.modify, fun c' oci hc => ?_, fun c' hc => ?_, fun c' p hp => ?_⟩,
    ⟨fun _ _ => rfl, fun c' hc => ?_⟩, by rw [hrec, if_pos rfl]⟩
  · rw [hrec] at hc
    split at hc
    · cases hc; exact ho
    · exact h.ok c' oci hc
  · by_cases hcc : c' = c
    · rw [hcc] at hc ⊢
      exact ⟨oci', by rw [hrec, if_pos rfl], ha hc⟩
    · rw [hrec, if_neg hcc]
      exact h.available c' hc
  · rw [Io.setInput, Pool.modify_held] at hp
    exact h.holder c' p hp
  · rw [pendingOf, pendingOf, hrec, if_neg hc]

end BuffersOk

/-! ### Input operations -/

/-- A client has its buffer, and nobody else may take it away. -/
structure Prepared (c : ConnPtr) (s s' : IoState) (oci : ConnectionInput) : Prop where
  buffers : BuffersOk s'
  available : s'.availableInput = none
  conns : s'.conns = s.conns
  record : s'.inputs.record c = some oci
  ok : oci.Ok
  pending : oci.pending = pendingOf s c
  others : Others c s s'

theorem releaseAvailable_spec (h : BuffersOk s) (c : ConnPtr) :
    ∃ s', releaseAvailable c s = .ok s' ∧ BuffersOk s' ∧ s'.availableInput = none ∧ s'.conns = s.conns ∧
      ∀ c', pendingOf s' c' = pendingOf s c' := by
  have hnone : BuffersOk { s with availableInput := none } :=
    ⟨h.sound, h.ok, fun _ hc => (by cases hc), h.holder⟩
  unfold releaseAvailable
  cases ha : s.availableInput with
  | none => exact ⟨s, rfl, h, ha, rfl, fun _ => rfl⟩
  | some a =>
    dsimp only
    by_cases hac : a = c
    · rw [if_pos hac]
      exact ⟨_, rfl, hnone, rfl, rfl, fun _ => rfl⟩
    rw [if_neg hac]
    obtain ⟨aci, hr, hd⟩ := h.available a ha
    rw [hr, Exec.deref_some, Exec.ok_bind]
    obtain ⟨pool, hpool, hs, hl⟩ : ∃ pool, (if aci.size > bufWatermark then s.inputs.drop a
        else s.inputs.give a : Exec _) = .ok pool ∧ pool.Sound Drained ∧ Pool.Sound.Lost s.inputs pool a := by
      split
      · exact h.sound.drop hr
      · exact h.sound.give hr hd
    obtain ⟨hok, ho, hp⟩ := h.lost hs hl (.inl rfl)
    refine ⟨_, by rw [hpool, Exec.ok_bind], hok, rfl, rfl, fun c' => ?_⟩
    by_cases hc' : c' = a
    · have hpa : pendingOf s a = [] := by
        rw [pendingOf, hr]
        exact hd.pending
      rw [hc', hp, hpa]
    · exact ho.pending c' hc'

theorem obtainInput_spec (h : BuffersOk s) (ha : s.availableInput = none) (hc : (s.conn c).isSome) (alloc : Bool) :
    (alloc = false ∧ obtainInput alloc c s = .ok none) ∨
      ∃ s' oci, obtainInput alloc c s = .ok (some s') ∧ Prepared c s s' oci := by
  unfold obtainInput
  cases hh : s.inputs.held c with
  | some p =>
    obtain ⟨oci, hr⟩ := h.sound.record hh
    refine .inr ⟨s, oci, by simp, h, ha, rfl, hr, h.ok c oci hr, ?_, .refl c s⟩
    rw [pendingOf, hr]
    rfl
  | none =>
    rw [if_neg (by simp)]
    rcases h.sound.take c alloc newInput with ⟨hmem, hnone⟩ | ⟨pool, oci, hpool, hs, hr, hnew, hothers⟩
    · exact .inl ⟨hmem, by rw [hnone]; rfl⟩
    · have hd : oci.Ok ∧ oci.pending = [] := by
        rcases hnew with hd | rfl
        · exact ⟨hd.1, hd.pending⟩
        · exact ⟨newInput_ok, rfl⟩
      refine .inr ⟨{ s with inputs := pool }, oci, by rw [hpool]; rfl,
        ⟨hs, fun c' oci' hr' => ?_, fun c' hc' => ?_, fun c' p hp => ?_⟩, ha, rfl, hr, hd.1, ?_,
        ⟨fun _ _ => rfl, fun c' hc' => ?_⟩⟩
      · by_cases hcc : c' = c
        · rw [hcc] at hr'
          cases hr.symm.trans hr'
          exact hd.1
        · exact h.ok c' oci' ((hothers c' hcc).1 ▸ hr')
      · exact absurd (ha.symm.trans hc') (by simp)
      · by_cases hcc : c' = c
        · rw [hcc]
          exact hc
        · exact h.holder c' p ((hothers c' hcc).2 ▸ hp)
      · rw [hd.2, pendingOf, Pool.record_none hh]
        rfl
      · rw [pendingOf, pendingOf, (hothers c' hc').1]

/-- How `ReadRequestFromClient` and `InsertFakeRequest` start. -/
theorem prepare_spec (h : BuffersOk s) (hc : (s.conn c).isSome) (alloc : Bool) :
    ∃ s₁, releaseAvailable c s = .ok s₁ ∧
      ((alloc = false ∧ obtainInput alloc c s₁ = .ok none ∧ BuffersOk s₁ ∧ s₁.conns = s.conns ∧ Others c s s₁) ∨
        ∃ s₂ oci, obtainInput alloc c s₁ = .ok (some s₂) ∧ Prepared c s s₂ oci) := by
  obtain ⟨s₁, h₁, hok, ha, hconns, hp⟩ := releaseAvailable_spec h c
  have ho : Others c s s₁ := ⟨fun c' _ => by rw [hconns], fun c' _ => hp c'⟩
  have hc₁ : (s₁.conn c).isSome := by rwa [IoState.conn, hconns]
  refine ⟨s₁, h₁, ?_⟩
  rcases obtainInput_spec hok ha hc₁ alloc with ⟨hmem, hnone⟩ | ⟨s₂, oci, h₂, hprep⟩
  · exact .inl ⟨hmem, hnone, hok, hconns, ho⟩
  · exact .inr ⟨s₂, oci, h₂, hprep.buffers, hprep.available, hprep.conns.trans hconns, hprep.record, hprep.ok,
      hprep.pending.trans (hp c), ho.trans hprep.others⟩

@[simp] theorem schedule_conns {fd : Nat} {whole : Bool} : (schedule fd whole s).conns = s.conns := by
  unfold schedule
  split <;> rfl

@[simp] theorem countTimes_conns : (countTimes s).conns = s.conns := by
  unfold countTimes
  split <;> rfl

theorem schedule_same (fd : Nat) (whole : Bool) (s : IoState) : SameInput s (schedule fd whole s) := by
  unfold schedule
  split
  · exact .of_eq rfl rfl rfl
  · exact .of_eq rfl rfl rfl

theorem yieldControlDeath_same (s : IoState) : SameInput s (yieldControlDeath s) := .of_eq rfl rfl rfl

theorem yieldControlNoInput_same (fd : Nat) (s : IoState) : SameInput s (yieldControlNoInput fd s) :=
  .of_eq rfl rfl rfl

theorem countTimes_same (s : IoState) : SameInput s (countTimes s) := by
  unfold countTimes
  split
  · exact .of_eq rfl rfl rfl
  · exact .of_eq rfl rfl rfl

/-- A buffer nothing is left in may be taken away. -/
theorem BuffersOk.makeAvailable (h : BuffersOk s) (hr : s.inputs.record c = some oci) (hd : Drained oci) :
    BuffersOk { s with availableInput := some c } :=
  ⟨h.sound, h.ok, fun _ hc => by cases hc; exact ⟨oci, hr, hd⟩, h.holder⟩

theorem scheduleNext_spec (h : BuffersOk s) (hr : s.inputs.record c = some oci) (ho : oci.Ok) (conn : Connection) :
    ∃ s', scheduleNext c conn oci s = .ok s' ∧ BuffersOk s' ∧ s'.inputs = s.inputs ∧ s'.conns = s.conns := by
  have hle := ho.le
  have hgot := ho.gotnow_eq
  obtain ⟨whole, hw⟩ := whole_ok conn.order ho
    (show oci.bufptr + oci.lenLastReq + (oci.gotnow - oci.lenLastReq) = oci.bufcnt by omega)
  unfold scheduleNext
  dsimp only
  rw [hw, Exec.ok_bind]
  have hok : BuffersOk { s with
      availableInput := if oci.gotnow - oci.lenLastReq = 0 then some c else s.availableInput } := by
    by_cases hz : oci.gotnow - oci.lenLastReq = 0
    · rw [if_pos hz]
      exact h.makeAvailable hr ⟨ho, by omega⟩
    · rw [if_neg hz]
      exact h
  have hs := (schedule_same conn.fd whole _).trans (countTimes_same (schedule conn.fd whole { s with
    availableInput := if oci.gotnow - oci.lenLastReq = 0 then some c else s.availableInput }))
  exact ⟨_, rfl, hok.same hs, hs.inputs, by simp⟩

/-- What `ReadRequestFromClient` does, in the terms of `Outcome`. -/
inductive Served (env : ReadEnv) (c : ConnPtr) (conn : Connection) (pending : List UInt8) (s' : IoState) :
    ReadStatus → Prop where
  | request (n : Nat) (oci : ConnectionInput) (socket : List UInt8) :
      requestEnd conn.order (pending ++ conn.socket) = some n →
      s'.conns.get c = some (conn.receive socket [(pending ++ conn.socket).take n]) →
      s'.inputs.record c = some oci → oci.Ok → oci.lenLastReq = n →
      oci.unread ++ socket = pending ++ conn.socket →
      Served env c conn pending s' (.request ((pending ++ conn.socket).take n))
  | incomplete (socket : List UInt8) :
      s'.conns.get c = some (conn.receive socket []) → pendingOf s' c ++ socket = pending ++ conn.socket →
      (conn.socket = [] → requestEnd conn.order pending = none) →
      (env.read = .again ∨ conn.socket = [] ∨ socket.length < conn.socket.length) →
      Served env c conn pending s' .incomplete
  | dead (socket : List UInt8) : s'.conns.get c = some (conn.receive socket []) →
      (env.alloc = false ∨ env.read = .fails ∨ env.grow = false) → Served env c conn pending s' .dead

theorem readRequestFromClient_spec (h : BuffersOk s) (hc : s.conn c = some conn) (env : ReadEnv) :
    ∃ status s', readRequestFromClient env c s = .ok (status, s') ∧ BuffersOk s' ∧ Others c s s' ∧
      Served env c conn (pendingOf s c) s' status := by
  have hget := (conn_eq_some.1 hc).1
  have hreceive : ∀ socket reqs conn', (Connection.receive socket reqs conn').clientGone = conn'.clientGone :=
    fun _ _ _ => rfl
  unfold readRequestFromClient
  rw [hc, Exec.deref_some, Exec.ok_bind]
  obtain ⟨s₁, h₁, ⟨hmem, hnone, hok, hconns, ho⟩ | ⟨s₂, oci, h₂, hprep⟩⟩ :=
    prepare_spec h (c := c) (by simp [hc]) env.alloc
  · rw [h₁, Exec.ok_bind, hnone, Exec.ok_bind]
    have hsame := yieldControlDeath_same s₁
    refine ⟨.dead, _, rfl, hok.same hsame, ho.trans (hsame.others c), .dead conn.socket ?_ (.inl hmem)⟩
    show s₁.conns.get c = _
    rw [hconns, hget, Connection.receive, List.append_nil]
  rw [h₁, Exec.ok_bind, h₂, Exec.ok_bind]
  dsimp only
  rw [hprep.record, Exec.deref_some, Exec.ok_bind]
  obtain ⟨status, oci', socket, hread, hoci, hout⟩ :=
    readRequest_spec hprep.ok conn.order env conn.socket
  rw [hread, Exec.ok_bind]
  dsimp only
  obtain ⟨hset, hothers, hrec⟩ := hprep.buffers.setInput hprep.record hoci (by rw [hprep.available]; simp)
  have hget₂ : (setInput c oci' s₂).conns.get c = some conn := by
    show s₂.conns.get c = _
    rw [hprep.conns, hget]
  -- what the rest of the call does to the other clients
  have hrest : ∀ reqs, BuffersOk (modifyConn c (·.receive socket reqs) (setInput c oci' s₂)) ∧
      Others c s (modifyConn c (·.receive socket reqs) (setInput c oci' s₂)) ∧
      (modifyConn c (·.receive socket reqs) (setInput c oci' s₂)).conns.get c =
        some (conn.receive socket reqs) := fun reqs =>
    ⟨hset.modifyConn (hreceive socket reqs), (hprep.others.trans hothers).trans (.modifyConn ..), by
      rw [get_modifyConn, if_pos rfl, hget₂]; rfl⟩
  have hpending : pendingOf (setInput c oci' s₂) c = oci'.pending := by
    rw [pendingOf, hrec]
    rfl
  rw [← hprep.pending]
  cases hout with
  | dead hcause =>
    obtain ⟨hok, ho, hg⟩ := hrest []
    exact ⟨.dead, _, rfl, hok.same (yieldControlDeath_same _), ho.trans ((yieldControlDeath_same _).others c),
      .dead socket hg (.inr hcause)⟩
  | incomplete h0 hall hend hprogress =>
    obtain ⟨hok, ho, hg⟩ := hrest []
    refine ⟨.incomplete, _, rfl, hok.same (yieldControlNoInput_same ..),
      ho.trans ((yieldControlNoInput_same ..).others c), .incomplete socket hg ?_ hend hprogress⟩
    show pendingOf (setInput c oci' s₂) c ++ socket = _
    rw [hpending, ConnectionInput.pending, h0]
    exact hall
  | request n hend hn hall hle =>
    obtain ⟨hok, ho, hg⟩ := hrest [(oci.pending ++ conn.socket).take n]
    obtain ⟨s₃, h₃, hok₃, hi₃, hc₃⟩ := scheduleNext_spec hok hrec hoci conn
    have ho₃ : Others c (modifyConn c (·.receive socket [(oci.pending ++ conn.socket).take n])
        (setInput c oci' s₂)) s₃ := .of_eq hi₃ hc₃
    refine ⟨_, s₃, by dsimp only; rw [h₃]; rfl, hok₃, ho.trans ho₃, .request n oci' socket hend ?_ ?_ hoci hn hall⟩
    · rw [hc₃, hg]
    · rw [hi₃]
      exact hrec

theorem insertFakeRequest_spec (h : BuffersOk s) (hc : s.conn c = some conn) (alloc grow : Bool) (data : List UInt8) :
    ∃ done s', insertFakeRequest alloc grow c data s = .ok (done, s') ∧ BuffersOk s' ∧ Others c s s' ∧
      s'.conns.get c = some conn ∧ (done = true → pendingOf s' c = data ++ pendingOf s c) := by
  have hget := (conn_eq_some.1 hc).1
  unfold insertFakeRequest
  rw [hc, Exec.deref_some, Exec.ok_bind]
  obtain ⟨s₁, h₁, ⟨-, hnone, hok, hconns, ho⟩ | ⟨s₂, oci, h₂, hprep⟩⟩ :=
    prepare_spec h (c := c) (by simp [hc]) alloc
  · rw [h₁, Exec.ok_bind, hnone, Exec.ok_bind]
    exact ⟨false, s₁, rfl, hok, ho, by rw [hconns, hget], fun hf => by cases hf⟩
  rw [h₁, Exec.ok_bind, h₂, Exec.ok_bind]
  dsimp only
  rw [hprep.record, Exec.deref_some, Exec.ok_bind]
  obtain ⟨done, oci', hins, hoci, h0, hdone⟩ := insert_spec hprep.ok grow data
  rw [hins, Exec.ok_bind]
  dsimp only
  obtain ⟨hset, hothers, hrec⟩ := hprep.buffers.setInput hprep.record hoci (by rw [hprep.available]; simp)
  have hget₂ : (setInput c oci' s₂).conns.get c = some conn := by
    show s₂.conns.get c = _
    rw [hprep.conns, hget]
  cases done with
  | false =>
    exact ⟨false, _, by rw [if_pos (by simp)], hset, hprep.others.trans hothers, hget₂, fun hf => by cases hf⟩
  | true =>
    obtain ⟨whole, hw⟩ := whole_ok conn.order hoci hoci.gotnow_eq
    have hsame := schedule_same conn.fd whole (setInput c oci' s₂)
    refine ⟨true, _, by rw [if_neg (by simp), hw, Exec.ok_bind], hset.same hsame,
      (hprep.others.trans hothers).trans (hsame.others c), by rw [schedule_conns, hget₂], fun _ => ?_⟩
    · rw [hsame.pending, pendingOf, hrec, ← hprep.pending, ← hdone rfl]
      show Memory.slice oci'.buffer (oci'.bufptr + oci'.lenLastReq) oci'.bufcnt = oci'.unread
      rw [h0]
      rfl

theorem keepAvailable_spec (h : BuffersOk s) (c : ConnPtr) :
    BuffersOk (s.keepAvailable c) ∧ (s.keepAvailable c).availableInput ≠ some c ∧
      (s.keepAvailable c).inputs = s.inputs ∧ (s.keepAvailable c).conns = s.conns := by
  unfold IoState.keepAvailable
  split
  · exact ⟨⟨h.sound, h.ok, fun _ hc => (by cases hc), h.holder⟩, by simp, rfl, rfl⟩
  · exact ⟨h, ‹_›, rfl, rfl⟩

/-- A request that is put back is there again, with another beginning. -/
theorem rewriteRequest_spec (h : BuffersOk s) (hc : s.conn c = some conn) (hr : s.inputs.record c = some oci)
    (start : List UInt8) (order : ByteOrder) :
    ∃ s', rewriteRequest c start order s = .ok s' ∧ BuffersOk s' ∧ Others c s s' ∧
      s'.conns.get c = some { conn with order } ∧
      pendingOf s' c = overwrite start (oci.unread.take oci.lenLastReq) ++ oci.pending := by
  obtain ⟨hget, hgone⟩ := conn_eq_some.1 hc
  have ho := h.ok c oci hr
  have hle := ho.le
  have hcnt := ho.bufcnt_le
  have hlen := ho.length
  unfold rewriteRequest
  rw [hr, Exec.deref_some, Exec.ok_bind, Memory.load_ok (by omega), Exec.ok_bind]
  have hreq : Memory.slice oci.buffer oci.bufptr (oci.bufptr + oci.lenLastReq) = oci.unread.take oci.lenLastReq := by
    rw [ConnectionInput.unread, Memory.take_slice hle]
  have hreqlen : (oci.unread.take oci.lenLastReq).length = oci.lenLastReq := by
    rw [List.length_take, ho.length_unread, gotnow]
    omega
  rw [hreq]
  generalize hstart : overwrite start (oci.unread.take oci.lenLastReq) = req
  have hlenreq : req.length = oci.lenLastReq := by rw [← hstart, length_overwrite, hreqlen]
  obtain ⟨buffer, hstore, hst⟩ := Memory.store_ok (show oci.bufptr + req.length ≤ oci.buffer.length by omega)
  rw [hstore, Exec.ok_bind]
  -- the buffer may have been available
  obtain ⟨hk, ha, hi, hconns⟩ := keepAvailable_spec h c
  have ho₁ : ({ oci with buffer } : ConnectionInput).Ok := ⟨by rw [hst.length]; exact hlen, hle, hcnt⟩
  obtain ⟨h₁, hothers₁, hrec₁⟩ := hk.setInput (by rw [hi, hr]) ho₁ fun h => absurd h ha
  have h₂ := h₁.modifyConn (c := c) (f := fun conn => { conn with order }) fun _ => rfl
  obtain ⟨h₃, hothers₃, hrec₃⟩ := h₂.setInput hrec₁ ho₁.forget fun h => absurd h ha
  obtain ⟨whole, hw⟩ := whole_ok order ho₁.forget ho₁.forget.gotnow_eq
  have hkeep : IoState.keepAvailable c (modifyConn c (fun conn => { conn with order })
      (setInput c { oci with buffer } s)) = modifyConn c (fun conn => { conn with order })
      (setInput c { oci with buffer } (s.keepAvailable c)) := by
    unfold IoState.keepAvailable
    split <;> rename_i hav
    · rw [if_pos (show s.availableInput = some c from hav)]
      rfl
    · rw [if_neg (show ¬ s.availableInput = some c from hav)]
  have hconn : (modifyConn c (fun conn => { conn with order }) (setInput c { oci with buffer } s)).conn c =
      some { conn with order } := by
    refine conn_eq_some.2 ⟨?_, hgone⟩
    rw [get_modifyConn, if_pos rfl]
    show (s.conns.get c).map _ = _
    rw [hget]
    rfl
  unfold resetCurrentRequest
  rw [hconn, Exec.deref_some, Exec.ok_bind, hkeep]
  dsimp only
  rw [show (modifyConn c (fun conn => { conn with order }) (setInput c { oci with buffer }
    (s.keepAvailable c))).inputs.record c = _ from hrec₁, Exec.deref_some, Exec.ok_bind, hw, Exec.ok_bind]
  generalize hs₃ : setInput c ({ oci with buffer } : ConnectionInput).forget (modifyConn c
    (fun conn => { conn with order }) (setInput c { oci with buffer } (s.keepAvailable c))) = s₃ at h₃ hothers₃ hrec₃ ⊢
  have hsame : SameInput s₃ (if whole then yieldControl (schedule conn.fd whole s₃)
      else schedule conn.fd whole s₃) := by
    split
    · exact (schedule_same conn.fd whole s₃).trans (.of_eq rfl rfl rfl)
    · exact schedule_same conn.fd whole s₃
  have hothers : Others c s s₃ := by
    have hkept : Others c s (s.keepAvailable c) := .of_eq hi hconns
    exact ((hkept.trans hothers₁).trans (.modifyConn ..)).trans hothers₃
  have hget₃ : s₃.conns.get c = some { conn with order } := by
    rw [← hs₃]
    show (modifyConn c _ (s.keepAvailable c)).conns.get c = _
    rw [get_modifyConn, if_pos rfl, hconns, hget]
    rfl
  refine ⟨_, rfl, h₃.same hsame, hothers.trans (hsame.others c), ?_, ?_⟩
  · rw [← hget₃]
    unfold schedule
    cases whole <;> rfl
  · have hself := hst.slice_self
    rw [hlenreq] at hself
    rw [hsame.pending, pendingOf, hrec₃]
    show Memory.slice buffer oci.bufptr oci.bufcnt = _
    rw [← Memory.slice_append (Nat.le_add_right ..) hle, hself, hst.slice_above (by rw [hlenreq])]
    rfl

/-! ### Output -/

theorem setOutput_same (c : ConnPtr) (oco : ConnectionOutput) (s : IoState) : SameInput s (setOutput c oco s) :=
  .of_eq rfl rfl rfl

theorem unblock_same (fd : Nat) (s : IoState) : SameInput s (s.unblock fd) := by
  unfold IoState.unblock
  split
  · exact .of_eq rfl rfl rfl
  · exact .refl s

theorem failOutput_same (c : ConnPtr) (oco : ConnectionOutput) (s : IoState) : SameInput s (failOutput c oco s) :=
  (setOutput_same ..).trans (modifyConn_same fun _ => rfl)

theorem releaseOutput_same {oco : ConnectionOutput} (h : releaseOutput c conn oco s = .ok s') : SameInput s s' := by
  unfold releaseOutput at h
  obtain ⟨pool, -, h⟩ := Exec.bind_eq_ok.1 h
  cases h
  exact ((setOutput_same ..).trans (unblock_same ..)).trans (.of_eq rfl rfl rfl)

theorem flushClient_same {env : FlushEnv} {extra : List UInt8} {n : Int}
    (h : flushClient env c extra s = .ok (n, s')) : SameInput s s' := by
  unfold flushClient at h
  obtain ⟨conn, -, h⟩ := Exec.bind_eq_ok.1 h
  split at h
  · cases h
    exact .refl s
  dsimp only at h
  split at h
  · cases h
  obtain ⟨buffered, -, h⟩ := Exec.bind_eq_ok.1 h
  obtain ⟨⟨status, accepted⟩, -, h⟩ := Exec.bind_eq_ok.1 h
  have haccept : SameInput s (acceptOutput c accepted s) := modifyConn_same fun _ => rfl
  cases status with
  | flushed =>
    obtain ⟨s₁, h₁, h⟩ := Exec.bind_eq_ok.1 h
    cases h
    exact haccept.trans (releaseOutput_same h₁)
  | failed =>
    cases h
    exact haccept.trans (failOutput_same ..)
  | blocked written notWritten =>
    obtain ⟨saved, -, h⟩ := Exec.bind_eq_ok.1 h
    cases saved with
    | none =>
      cases h
      refine (haccept.trans ?_).trans (failOutput_same ..)
      exact .of_eq rfl rfl rfl
    | some oco =>
      cases h
      refine (haccept.trans ?_).trans (setOutput_same ..)
      exact .of_eq rfl rfl rfl

theorem obtainOutput_same {alloc : Bool} (h : obtainOutput alloc c s = .ok (some s')) : SameInput s s' := by
  unfold obtainOutput at h
  split at h
  · cases h
    exact .refl s
  · obtain ⟨r, -, h⟩ := Exec.bind_eq_ok.1 h
    cases r with
    | none => cases h
    | some outputs =>
      cases h
      exact .of_eq rfl rfl rfl

theorem writeToClient_same {alloc : Bool} {env : FlushEnv} {buf : List UInt8} {n : Int}
    (h : writeToClient alloc env c buf s = .ok (n, s')) : SameInput s s' := by
  unfold writeToClient at h
  split at h
  · cases h
    exact .refl s
  obtain ⟨conn, -, h⟩ := Exec.bind_eq_ok.1 h
  have hwritten : SameInput s (modifyConn c (fun conn => { conn with written := conn.written ++ [buf] }) s) :=
    modifyConn_same fun _ => rfl
  obtain ⟨r, hr, h⟩ := Exec.bind_eq_ok.1 h
  cases r with
  | none =>
    cases h
    exact hwritten.trans (modifyConn_same fun _ => rfl)
  | some s₁ =>
    obtain ⟨oco, -, h⟩ := Exec.bind_eq_ok.1 h
    have h₁ := hwritten.trans (obtainOutput_same hr)
    dsimp only at h
    split at h
    · cases h
    · split at h
      · refine (h₁.trans ?_).trans (flushClient_same h)
        exact .of_eq rfl rfl rfl
      · obtain ⟨data, -, h⟩ := Exec.bind_eq_ok.1 h
        cases h
        refine (h₁.trans ?_).trans (setOutput_same ..)
        exact .of_eq rfl rfl rfl

theorem flushPending_same {env : ConnPtr → FlushEnv} {fd : Nat} (h : flushPending env s fd = .ok s') :
    SameInput s s' := by
  unfold flushPending at h
  split at h
  · cases h
    exact .refl s
  obtain ⟨conn, -, h⟩ := Exec.bind_eq_ok.1 h
  split at h
  · cases h
    exact .refl s
  · split at h
    · cases h
      exact .of_eq rfl rfl rfl
    · obtain ⟨⟨n, s₁⟩, h₁, h⟩ := Exec.bind_eq_ok.1 h
      cases h
      exact flushClient_same h₁

theorem flushAllOutput_same {env : ConnPtr → FlushEnv} (h : flushAllOutput env s = .ok s') : SameInput s s' := by
  unfold flushAllOutput at h
  split at h
  · cases h
    exact .refl s
  · have hstart : SameInput s { s with
      criticalOutputPending := false, newOutputPending := false, outputPending := fun _ => false } :=
      .of_eq rfl rfl rfl
    exact hstart.trans (Exec.foldlM_rel SameInput.refl (fun _ _ _ => SameInput.trans)
      (fun _ _ _ _ he => flushPending_same he) h)

theorem becomeWritable_same (clientsWritable : Nat → Bool) (s : IoState) :
    SameInput s (becomeWritable clientsWritable s) := by
  unfold becomeWritable
  split
  · exact .of_eq rfl rfl rfl
  · exact .refl s

/-! ### Connections -/

/-- An empty buffer with nothing to deliver. -/
theorem drained_reset (h : oci.Ok) : Drained oci.reset := ⟨⟨h.length, Nat.zero_le _, Nat.zero_le _⟩, rfl⟩

theorem freeOsBuffers_spec (h : BuffersOk s) (he : freeOsBuffers c s = .ok s') :
    BuffersOk s' ∧ Others c s s' ∧ s'.conns = s.conns ∧ s'.inputs.held c = none := by
  unfold freeOsBuffers at he
  obtain ⟨hk, ha, hi, hconns⟩ := keepAvailable_spec h c
  have hkept : Others c s (s.keepAvailable c) := .of_eq hi hconns
  dsimp only at he
  generalize s.keepAvailable c = s₁ at hk ha hi hconns hkept he
  obtain ⟨inputs, hin, he⟩ := Exec.bind_eq_ok.1 he
  obtain ⟨outputs, -, he⟩ := Exec.bind_eq_ok.1 he
  cases he
  suffices hs : BuffersOk { s₁ with inputs } ∧ Others c s₁ { s₁ with inputs } ∧ inputs.held c = none from
    ⟨hs.1.same (.of_eq rfl rfl rfl), hkept.trans (hs.2.1.trans (.of_eq rfl rfl)), hconns, hs.2.2⟩
  cases hh : s₁.inputs.held c with
  | none =>
    rw [hh, Option.isNone_none, if_pos rfl] at hin
    cases hin
    exact ⟨hk, .refl c s₁, hh⟩
  | some p =>
    rw [hh, Option.isNone_some, if_neg (by simp)] at hin
    obtain ⟨oci, hr⟩ := hk.sound.record hh
    have hlost : inputs.Sound Drained ∧ Pool.Sound.Lost s₁.inputs inputs c := by
      by_cases hf : s₁.inputs.free.isSome
      · rw [if_pos hf] at hin
        obtain ⟨pool, hpool, hs, hl⟩ := hk.sound.drop hr
        cases hpool.symm.trans hin
        exact ⟨hs, hl⟩
      · rw [if_neg hf] at hin
        have hrec : (s₁.inputs.modify c (·.reset)).record c = some oci.reset := by
          rw [hk.sound.record_modify, if_pos rfl, hr]
          rfl
        obtain ⟨pool, hpool, hs, hl⟩ := hk.sound.modify.give hrec (drained_reset (hk.ok c oci hr))
        cases hpool.symm.trans hin
        refine ⟨hs, fun c' => ?_, fun c' hc => ?_⟩
        · rw [hl.held, Pool.modify_held]
        · rw [hl.record c' hc, hk.sound.record_modify, if_neg hc]
    obtain ⟨hs, hl⟩ := hlost
    obtain ⟨hok, ho, -⟩ := hk.lost hs hl (.inr ⟨rfl, ha⟩)
    exact ⟨hok, ho, by rw [hl.held, if_pos rfl]⟩

/-- A connection that is closed has no buffer, and is gone. -/
theorem closeDownConnection_spec {env : FlushEnv} (h : BuffersOk s) (he : closeDownConnection env c s = .ok s') :
    BuffersOk s' ∧ Others c s s' ∧
      (s'.conns.get c).map (·.inputSide) =
        (s.conns.get c).map fun conn => ({ conn with clientGone := true } : Connection).inputSide := by
  unfold closeDownConnection at he
  obtain ⟨conn, -, he⟩ := Exec.bind_eq_ok.1 he
  obtain ⟨s₁, h₁, he⟩ := Exec.bind_eq_ok.1 he
  obtain ⟨s₂, h₂, he⟩ := Exec.bind_eq_ok.1 he
  have hflush : SameInput s s₁ := by
    split at h₁
    · obtain ⟨⟨n, s₃⟩, h₃, rfl⟩ := Exec.map_eq_ok.1 h₁
      exact flushClient_same h₃
    · cases h₁
      exact .refl s
  obtain ⟨hok, ho, hconns, hheld⟩ := freeOsBuffers_spec (h.same hflush) h₂
  cases he
  refine ⟨⟨hok.sound, hok.ok, hok.available, fun c' p hp => ?_⟩, ((hflush.others c).trans ho).trans
    ⟨fun c' hc => ?_, fun _ _ => rfl⟩, ?_⟩
  · have hc : c' ≠ c := by
      rintro rfl
      exact absurd (hheld.symm.trans hp) (by simp)
    rw [conn_isSome_congr (s := s₂) (by rw [get_modifyConn, if_neg hc])]
    exact hok.holder c' p hp
  · rw [get_modifyConn, if_neg hc]
  · have hc := hflush.conns c
    rw [get_modifyConn, if_pos rfl]
    show Option.map _ (Option.map _ (s₂.conns.get c)) = _
    rw [hconns]
    cases hs₁ : s₁.conns.get c with
    | none =>
      rw [hs₁] at hc
      rw [Option.map_eq_none_iff.1 hc.symm]
      rfl
    | some conn₁ =>
      rw [hs₁] at hc
      obtain ⟨conn₀, h₀, hside⟩ := Option.map_eq_some_iff.1 hc.symm
      rw [h₀]
      exact congrArg some (congrArg (fun conn : Connection => { conn with clientGone := true }) hside.symm)

/-! ### Runs -/

/-- A client's stream, before anything is read. -/
def Origin.feed (o : Origin) : Feed ByteOrder UInt8 := ⟨o.order, o.fake ++ o.stream, []⟩

/-- What has been delivered to a client, and what is left, are the state `f` of its stream. -/
structure Follows (conn : Connection) (pending : List UInt8) (f : Feed ByteOrder UInt8) : Prop where
  after : conn.origin.feed.after requests conn.origin.react conn.delivered.length = some f
  delivered : f.delivered = conn.delivered
  left : conn.clientGone = false → f.mode = conn.order ∧ f.rest = pending ++ conn.socket

structure InputInv (s : IoState) : Prop where
  buffers : BuffersOk s
  follows : ∀ c conn, s.conns.get c = some conn → ∃ f, Follows conn (pendingOf s c) f

theorem Follows.inputSide {pending : List UInt8} {f : Feed ByteOrder UInt8} (h : Follows conn pending f)
    (hs : conn'.inputSide = conn.inputSide) : Follows conn' pending f := by
  have hside : Follows conn.inputSide pending f := ⟨h.after, h.delivered, h.left⟩
  rw [← hs] at hside
  exact ⟨hside.after, hside.delivered, hside.left⟩

theorem InputInv.same (h : InputInv s) (hs : SameInput s s') : InputInv s' where
  buffers := h.buffers.same hs
  follows c conn hc := by
    have hconn := hs.conns c
    rw [hc] at hconn
    obtain ⟨conn₀, h₀, hside⟩ := Option.map_eq_some_iff.1 hconn.symm
    obtain ⟨f, hf⟩ := h.follows c conn₀ h₀
    rw [hs.pending]
    exact ⟨f, hf.inputSide hside.symm⟩

/-- What `InputInv` says of the clients other than `c`. -/
def OthersFollow (c : ConnPtr) (s : IoState) : Prop :=
  ∀ c' conn, c' ≠ c → s.conns.get c' = some conn → ∃ f, Follows conn (pendingOf s c') f

theorem InputInv.othersFollow (h : InputInv s) (c : ConnPtr) : OthersFollow c s := fun c' conn _ => h.follows c' conn

theorem OthersFollow.step (h : OthersFollow c s) (ho : Others c s s') : OthersFollow c s' := by
  intro c' conn hcc hc'
  have hconn := ho.conns c' hcc
  rw [hc'] at hconn
  obtain ⟨conn₀, h₀, hside⟩ := Option.map_eq_some_iff.1 hconn.symm
  obtain ⟨f, hf⟩ := h c' conn₀ hcc h₀
  rw [ho.pending c' hcc]
  exact ⟨f, hf.inputSide hside.symm⟩

theorem OthersFollow.inputInv (h : OthersFollow c s) (hb : BuffersOk s) {f : Feed ByteOrder UInt8}
    (hget : s.conns.get c = some conn) (hf : Follows conn (pendingOf s c) f) : InputInv s where
  buffers := hb
  follows c' conn' hc' := by
    by_cases hcc : c' = c
    · rw [hcc] at hc' ⊢
      cases hget.symm.trans hc'
      exact ⟨f, hf⟩
    · exact h c' conn' hcc hc'

/-- Of a client whose connection is closed, only what was delivered matters. -/
theorem closeDownConnection_inv {env : FlushEnv} {f : Feed ByteOrder UInt8} (hb : BuffersOk s) (h : OthersFollow c s)
    (hget : s.conns.get c = some conn)
    (hafter : conn.origin.feed.after requests conn.origin.react conn.delivered.length = some f)
    (hd : f.delivered = conn.delivered) (he : closeDownConnection env c s = .ok s') : InputInv s' := by
  obtain ⟨hb', ho, hgone⟩ := closeDownConnection_spec hb he
  rw [hget] at hgone
  obtain ⟨conn', hget', hside⟩ := Option.map_eq_some_iff.1 hgone
  have hf : Follows { conn with clientGone := true } (pendingOf s' c) f := ⟨hafter, hd, fun hg => by cases hg⟩
  exact (h.step ho).inputInv hb' hget' (hf.inputSide hside)

/-- A client was given its next request: `f` is its stream without it, before the dispatcher reacts. -/
structure Given (s : IoState) (c : ConnPtr) (conn : Connection) (oci : ConnectionInput) (f : Feed ByteOrder UInt8)
    (n : Nat) : Prop where
  here : s.conn c = some conn
  record : s.inputs.record c = some oci
  length : oci.lenLastReq = n
  rest : oci.unread ++ conn.socket = f.rest
  mode : f.mode = conn.order
  delivered : conn.delivered = f.delivered ++ [f.rest.take n]
  after : conn.origin.feed.after requests conn.origin.react conn.delivered.length = some (f.take conn.origin.react n)

theorem take_done {f : Feed ByteOrder UInt8} {n : Nat} {r : List (List UInt8) → Reaction ByteOrder UInt8}
    (h : r (f.delivered ++ [f.rest.take n]) = .done) :
    f.take r n = ⟨f.mode, f.rest.drop n, f.delivered ++ [f.rest.take n]⟩ := by
  rw [Feed.take, h]

theorem take_insertFake {f : Feed ByteOrder UInt8} {n : Nat} {r : List (List UInt8) → Reaction ByteOrder UInt8}
    {data : List UInt8} (h : r (f.delivered ++ [f.rest.take n]) = .insertFake data) :
    f.take r n = ⟨f.mode, data ++ f.rest.drop n, f.delivered ++ [f.rest.take n]⟩ := by
  rw [Feed.take, h]

theorem take_resetCurrent {f : Feed ByteOrder UInt8} {n : Nat} {r : List (List UInt8) → Reaction ByteOrder UInt8}
    {start : List UInt8} {order : ByteOrder} (h : r (f.delivered ++ [f.rest.take n]) = .resetCurrent start order) :
    f.take r n = ⟨order, overwrite start (f.rest.take n) ++ f.rest.drop n, f.delivered ++ [f.rest.take n]⟩ := by
  rw [Feed.take, h]

theorem react_inv {env : ServeEnv} {f : Feed ByteOrder UInt8} {n : Nat} (hb : BuffersOk s) (h : OthersFollow c s)
    (hg : Given s c conn oci f n) (he : react env c s = .ok s') : InputInv s' := by
  have hget := (conn_eq_some.1 hg.here).1
  have ho := hb.ok c oci hg.record
  have hpending : pendingOf s c = oci.pending := by
    rw [pendingOf, hg.record]
    rfl
  have hn : n ≤ oci.unread.length := by
    have := ho.le
    rw [ho.length_unread, gotnow, ← hg.length]
    omega
  have htake : f.rest.take n = oci.unread.take n := by rw [← hg.rest, List.take_append_of_le_length hn]
  have hdrop : f.rest.drop n = oci.pending ++ conn.socket := by
    rw [← hg.rest, List.drop_append_of_le_length hn, ConnectionInput.unread, Memory.drop_slice, ← hg.length]
    rfl
  have hafter := hg.after
  have hd := hg.delivered
  unfold react at he
  rw [hg.here, Exec.deref_some, Exec.ok_bind, hd] at he
  cases hreact : conn.origin.react (f.delivered ++ [f.rest.take n]) with
  | done =>
    rw [hreact] at he
    cases he
    rw [take_done hreact, hdrop] at hafter
    exact h.inputInv hb hget ⟨hafter, hd.symm, fun _ => ⟨hg.mode, by rw [hpending]⟩⟩
  | insertFake data =>
    rw [hreact] at he
    rw [take_insertFake hreact, hdrop] at hafter
    obtain ⟨done, s₁, h₁, hb₁, ho₁, hget₁, hdone⟩ :=
      insertFakeRequest_spec hb hg.here env.read.alloc env.read.grow data
    dsimp only at he
    rw [h₁, Exec.ok_bind] at he
    dsimp only at he
    cases done with
    | true =>
      rw [if_pos rfl] at he
      cases he
      refine (h.step ho₁).inputInv hb₁ hget₁ ⟨hafter, hd.symm, fun _ => ⟨hg.mode, ?_⟩⟩
      rw [hdone rfl, hpending, List.append_assoc]
    | false =>
      rw [if_neg (by simp)] at he
      exact closeDownConnection_inv hb₁ (h.step ho₁) hget₁ hafter hd.symm he
  | resetCurrent start order =>
    rw [hreact] at he
    rw [take_resetCurrent hreact, hdrop, htake] at hafter
    obtain ⟨s₁, h₁, hb₁, ho₁, hget₁, hp₁⟩ := rewriteRequest_spec hb hg.here hg.record start order
    cases h₁.symm.trans he
    rw [htake] at hd
    refine (h.step ho₁).inputInv hb₁ hget₁ ⟨hafter, hd.symm, fun _ => ⟨rfl, ?_⟩⟩
    rw [hp₁, hg.length, List.append_assoc]

theorem serve_inv {env : ServeEnv} (h : InputInv s) (he : serve env c s = .ok s') : InputInv s' := by
  unfold serve at he
  obtain ⟨⟨status, s₁⟩, h₁, he⟩ := Exec.bind_eq_ok.1 he
  obtain ⟨conn, hc, -⟩ := Exec.bind_eq_ok.1 h₁
  rw [Exec.deref_eq_ok] at hc
  obtain ⟨hget, hgone⟩ := conn_eq_some.1 hc
  obtain ⟨f, hf⟩ := h.follows c conn hget
  obtain ⟨hmode, hrest⟩ := hf.left hgone
  obtain ⟨status', s₂, h₂, hb₁, ho₁, hserved⟩ := readRequestFromClient_spec h.buffers hc env.read
  cases h₂.symm.trans h₁
  have hothers := (h.othersFollow c).step ho₁
  dsimp only at he
  cases hserved with
  | dead socket hget₁ =>
    refine closeDownConnection_inv (f := f) hb₁ hothers hget₁ ?_ ?_ he
    · show conn.origin.feed.after requests conn.origin.react (conn.delivered ++ []).length = some f
      rw [List.append_nil]
      exact hf.after
    · show f.delivered = conn.delivered ++ []
      rw [List.append_nil]
      exact hf.delivered
  | incomplete socket hget₁ hall hend =>
    cases he
    refine hothers.inputInv hb₁ hget₁ (f := f) ⟨?_, ?_, fun _ => ⟨hmode, hrest.trans hall.symm⟩⟩
    · show conn.origin.feed.after requests conn.origin.react (conn.delivered ++ []).length = some f
      rw [List.append_nil]
      exact hf.after
    · show f.delivered = conn.delivered ++ []
      rw [List.append_nil]
      exact hf.delivered
  | request n oci socket hend hget₁ hrec hoci hn hall =>
    rw [← hrest] at hget₁ hall
    rw [← hrest, ← hmode] at hend
    refine react_inv (f := f) hb₁ hothers ⟨conn_eq_some.2 ⟨hget₁, hgone⟩, hrec, hn, hall, hmode, ?_, ?_⟩ he
    · rw [hf.delivered]
      rfl
    · show Feed.after requests conn.origin.react (conn.delivered ++ [f.rest.take n]).length conn.origin.feed = _
      rw [List.length_append, List.length_singleton, Feed.after, hf.after, Option.bind_some, Feed.next]
      show (requestEnd f.mode f.rest).map _ = _
      rw [hend]
      rfl

/-- A connection that is new has no buffer. -/
theorem opened_spec (h : BuffersOk s) {fd : Nat} {origin : Origin} {s₁ : IoState} (hs₁ : ({ s with
    conns := s.conns.alloc { fd, origin, order := origin.order, socket := origin.stream }
    connectionTranslation := Function.update s.connectionTranslation fd (some s.conns.next) } : IoState) = s₁) :
    s₁.conns.get s.conns.next = some { fd, origin, order := origin.order, socket := origin.stream } ∧
      BuffersOk s₁ ∧ Others s.conns.next s s₁ ∧ pendingOf s₁ s.conns.next = [] := by
  have hconns : ∀ c, s₁.conns.get c = if c = s.conns.next then
      some { fd, origin, order := origin.order, socket := origin.stream } else s.conns.get c := fun c => by
    rw [← hs₁]
    exact Heap.get_alloc
  have hinputs : s₁.inputs = s.inputs := by rw [← hs₁]
  have hav : s₁.availableInput = s.availableInput := by rw [← hs₁]
  have hne : ∀ c, (s.conn c).isSome → c ≠ s.conns.next := fun c hc hcn => by
    obtain ⟨conn, hconn⟩ := Option.isSome_iff_exists.1 hc
    have hlt := Heap.lt_next (conn_eq_some.1 hconn).1
    exact absurd hcn (Nat.ne_of_lt hlt)
  refine ⟨(hconns s.conns.next).trans (if_pos rfl), h.congr hinputs hav fun c hc => ?_,
    ⟨fun c hc => by rw [hconns, if_neg hc], fun c _ => by rw [pendingOf, pendingOf, hinputs]⟩, ?_⟩
  · rw [conn_isSome_congr (s := s) (by rw [hconns, if_neg (hne c hc)])]
    exact hc
  · have hheld : s₁.inputs.held s.conns.next = none := by
      rw [hinputs]
      cases hh : s.inputs.held s.conns.next with
      | none => rfl
      | some p => exact absurd rfl (hne _ (h.holder _ p hh))
    rw [pendingOf, Pool.record_none hheld]
    rfl

theorem connect_inv {env : ServeEnv} {fd : Nat} {origin : Origin} (h : InputInv s)
    (he : connect env fd origin s = .ok s') : InputInv s' := by
  unfold connect at he
  dsimp only at he
  generalize hs₁ : ({ s with
    conns := s.conns.alloc { fd, origin, order := origin.order, socket := origin.stream }
    connectionTranslation := Function.update s.connectionTranslation fd (some s.conns.next) } : IoState) = s₁ at he
  obtain ⟨hget, hb₁, ho₁, hp₁⟩ := opened_spec h.buffers hs₁
  obtain ⟨done, s₂, h₂, hb₂, ho₂, hget₂, hdone⟩ :=
    insertFakeRequest_spec hb₁ (conn_eq_some.2 ⟨hget, rfl⟩) env.read.alloc env.read.grow origin.fake
  rw [h₂, Exec.ok_bind] at he
  have hothers := (h.othersFollow s.conns.next).step (ho₁.trans ho₂)
  cases done with
  | true =>
    cases he
    refine hothers.inputInv hb₂ hget₂ (f := origin.feed) ⟨rfl, rfl, fun _ => ⟨rfl, ?_⟩⟩
    rw [hdone rfl, hp₁, List.append_nil]
    rfl
  | false => exact closeDownConnection_inv (f := origin.feed) hb₂ hothers hget₂ rfl rfl he

theorem ioStep_inv {r : IoInput} (h : InputInv s) (he : ioStep s r = .ok s') : InputInv s' := by
  cases r with
  | connect env fd origin => exact connect_inv h he
  | serve env c => exact serve_inv h he
  | write alloc env c buf =>
    obtain ⟨⟨n, s₁⟩, h₁, rfl⟩ := Exec.map_eq_ok.1 he
    exact h.same (writeToClient_same h₁)
  | flush env c =>
    obtain ⟨⟨n, s₁⟩, h₁, rfl⟩ := Exec.map_eq_ok.1 he
    exact h.same (flushClient_same h₁)
  | flushAll env => exact h.same (flushAllOutput_same he)
  | writable clientsWritable =>
    cases he
    exact h.same (becomeWritable_same clientsWritable s)
  | close env c =>
    obtain ⟨conn, hc, -⟩ := Exec.bind_eq_ok.1 he
    rw [Exec.deref_eq_ok] at hc
    obtain ⟨f, hf⟩ := h.follows c conn (conn_eq_some.1 hc).1
    exact closeDownConnection_inv h.buffers (h.othersFollow c) (conn_eq_some.1 hc).1 hf.after hf.delivered he

theorem inputInv_init : InputInv {} where
  buffers := ⟨Pool.sound_empty, fun c oci h => (by cases h), fun c h => (by cases h), fun c p h => (by cases h)⟩
  follows c conn h := by cases h

theorem reach_inputInv (h : Reach ioStep (fun _ _ => True) {} s) : InputInv s :=
  h.inv inputInv_init fun _ _ _ hi _ he => ioStep_inv hi he

/-! ### Fragmentation -/

/-- Every buffer keeps to its bounds. -/
def InBounds (s : IoState) : Prop :=
  ∀ c oci, s.inputs.record c = some oci →
    oci.bufptr + oci.lenLastReq ≤ oci.bufcnt ∧ oci.bufcnt ≤ oci.size ∧ oci.buffer.length = oci.size

theorem BuffersOk.inBounds (h : BuffersOk s) : InBounds s := fun c oci hr =>
  ⟨(h.ok c oci hr).le, (h.ok c oci hr).bufcnt_le, (h.ok c oci hr).length⟩

/-- A call of `ReadRequestFromClient` with memory and a working socket delivers a request, or reads
something, or finds nothing to read. -/
def Advances (s : IoState) (c : ConnPtr) (conn : Connection) : Prop :=
  ∀ env, env.alloc = true → env.grow = true → (∃ n, env.read = .upTo n) →
    ∃ status s', readRequestFromClient env c s = .ok (status, s') ∧ InBounds s' ∧
      ((∃ req, status = .request req) ∨
        status = .incomplete ∧ (conn.socket = [] ∨
          ∃ conn', s'.conns.get c = some conn' ∧ conn'.socket.length < conn.socket.length))

theorem advances (h : BuffersOk s) (hc : s.conn c = some conn) : Advances s c conn := by
  intro env halloc hgrow ⟨n, hread⟩
  obtain ⟨status, s', he, hb, -, hserved⟩ := readRequestFromClient_spec h hc env
  refine ⟨status, s', he, hb.inBounds, ?_⟩
  cases hserved with
  | request n oci socket => exact .inl ⟨_, rfl⟩
  | incomplete socket hget _ _ hprogress =>
    refine .inr ⟨rfl, ?_⟩
    rcases hprogress with hagain | hempty | hlt
    · rw [hread] at hagain
      cases hagain
    · exact .inl hempty
    · exact .inr ⟨_, hget, hlt⟩
  | dead socket _ hcause => simp [halloc, hgrow, hread] at hcause

/-- The client's stream was read to its end: a call finds the socket empty and no request in the buffer. -/
def AtEnd (s : IoState) (c : ConnPtr) : Prop :=
  ∃ conn env s', s.conn c = some conn ∧ conn.socket = [] ∧
    readRequestFromClient env c s = .ok (.incomplete, s')

/-- At the end, the rest of the stream is not a request. -/
theorem InputInv.next_none (h : InputInv s) (hend : AtEnd s c) (hget : s.conns.get c = some conn) :
    ∃ f, Follows conn (pendingOf s c) f ∧ f.next requests conn.origin.react = none := by
  obtain ⟨conn', env, s', hc, hempty, he⟩ := hend
  obtain ⟨hget', hgone⟩ := conn_eq_some.1 hc
  cases hget.symm.trans hget'
  obtain ⟨f, hf⟩ := h.follows c conn hget
  obtain ⟨hmode, hrest⟩ := hf.left hgone
  obtain ⟨status, s'', h₂, -, -, hserved⟩ := readRequestFromClient_spec h.buffers hc env
  cases h₂.symm.trans he
  refine ⟨f, hf, ?_⟩
  cases hserved with
  | incomplete socket _ _ hnone =>
    rw [Feed.next]
    show (requestEnd f.mode f.rest).map _ = none
    rw [hrest, hempty, List.append_nil, hmode, hnone hempty]
    rfl

theorem Follows.prefix_of_le {f₁ f₂ : Feed ByteOrder UInt8} {conn₁ conn₂ : Connection} {p₁ p₂ : List UInt8}
    (hf₁ : Follows conn₁ p₁ f₁) (hf₂ : Follows conn₂ p₂ f₂) (ho : conn₁.origin = conn₂.origin)
    (hle : conn₁.delivered.length ≤ conn₂.delivered.length) : conn₁.delivered <+: conn₂.delivered := by
  have ha₂ := hf₂.after
  rw [← ho] at ha₂
  rw [← hf₁.delivered, ← hf₂.delivered]
  exact Feed.after_prefix hle hf₁.after ha₂

section
variable {s₁ s₂ : IoState} {c₁ c₂ : ConnPtr} {conn₁ conn₂ : Connection}

/-- A client that has come to the end of the stream has been given all of its requests. -/
theorem InputInv.prefix_of_atEnd (h₁ : InputInv s₁) (h₂ : InputInv s₂) (hc₁ : s₁.conns.get c₁ = some conn₁)
    (hc₂ : s₂.conns.get c₂ = some conn₂) (ho : conn₁.origin = conn₂.origin) (hend : AtEnd s₁ c₁) :
    conn₂.delivered <+: conn₁.delivered := by
  obtain ⟨f₁, hf₁, hnone⟩ := h₁.next_none hend hc₁
  obtain ⟨f₂, hf₂⟩ := h₂.follows c₂ conn₂ hc₂
  have ha₂ := hf₂.after
  rw [← ho] at ha₂
  exact hf₂.prefix_of_le hf₁ ho.symm (Feed.after_le hf₁.after hnone ha₂)

/-- Which requests a client is given depends on its stream alone: where two clients, in any two runs, send
the same, one has been given the first of the requests of the other, and if both have come to the end the
same ones. No call leaves a buffer, or fails to come further. -/
theorem delivered_of_stream (h₁ : Reach ioStep (fun _ _ => True) {} s₁) (h₂ : Reach ioStep (fun _ _ => True) {} s₂)
    (hc₁ : s₁.conns.get c₁ = some conn₁) (hc₂ : s₂.conns.get c₂ = some conn₂) (ho : conn₁.origin = conn₂.origin) :
    (conn₁.delivered <+: conn₂.delivered ∨ conn₂.delivered <+: conn₁.delivered) ∧
      (AtEnd s₁ c₁ → conn₂.delivered <+: conn₁.delivered) ∧
      (AtEnd s₁ c₁ → AtEnd s₂ c₂ → conn₁.delivered = conn₂.delivered) ∧
      InBounds s₁ ∧ (conn₁.clientGone = false → Advances s₁ c₁ conn₁) := by
  have hi₁ := reach_inputInv h₁
  have hi₂ := reach_inputInv h₂
  obtain ⟨f₁, hf₁⟩ := hi₁.follows c₁ conn₁ hc₁
  obtain ⟨f₂, hf₂⟩ := hi₂.follows c₂ conn₂ hc₂
  refine ⟨?_, hi₁.prefix_of_atEnd hi₂ hc₁ hc₂ ho, fun he₁ he₂ => ?_, hi₁.buffers.inBounds, fun hgone =>
    advances hi₁.buffers (conn_eq_some.2 ⟨hc₁, hgone⟩)⟩
  · rcases Nat.le_total conn₁.delivered.length conn₂.delivered.length with hle | hle
    · exact .inl (hf₁.prefix_of_le hf₂ ho hle)
    · exact .inr (hf₂.prefix_of_le hf₁ ho.symm hle)
  · have hle₂ := hi₁.prefix_of_atEnd hi₂ hc₁ hc₂ ho he₁
    have hle₁ := hi₂.prefix_of_atEnd hi₁ hc₂ hc₁ ho.symm he₂
    exact hle₁.eq_of_length (le_antisymm hle₁.length_le hle₂.length_le)

end

/-- A client that is read a byte at a time: two requests of four bytes, of which the beginning is made up. -/
def bytewise : List IoInput :=
  let env : ServeEnv :=
    { read := { read := .upTo 0, alloc := true, grow := true, shrink := true }
      flush := { writes := [], grow := true, padBuffer := fun _ => 0 } }
  let origin : Origin := { order := .little, fake := [1, 0], stream := [1, 0, 2, 0, 1, 0], react := fun _ => .done }
  .connect env 3 origin :: List.replicate 6 (.serve env 0)

theorem delivered_bytewise :
    ∃ s conn, Reach ioStep (fun _ _ => True) {} s ∧ s.conns.get 0 = some conn ∧
      conn.delivered = [[1, 0, 1, 0], [2, 0, 1, 0]] ∧ InBounds s ∧ Advances s 0 conn := by
  have hrun : (bytewise.foldlM ioStep {}).toOption.any (fun s => (s.conn 0).any fun conn =>
      decide (conn.delivered = [[1, 0, 1, 0], [2, 0, 1, 0]])) = true := by decide +kernel
  obtain ⟨s, hs, hrun⟩ := (Option.any_eq_true ..).1 hrun
  obtain ⟨conn, hc, hd⟩ := (Option.any_eq_true ..).1 hrun
  obtain ⟨hget, hgone⟩ := conn_eq_some.1 hc
  have hreach : Reach ioStep (fun _ _ => True) {} s := by
    cases hr : bytewise.foldlM ioStep {} with
    | ok t =>
      rw [hr] at hs
      cases hs
      exact .run hr
    | error e =>
      rw [hr] at hs
      cases hs
  obtain ⟨-, -, -, hbounds, hadvances⟩ := delivered_of_stream hreach hreach hget hget rfl
  exact ⟨s, conn, hreach, hget, of_decide_eq_true hd, hbounds, hadvances hgone⟩

end Nas.Io
