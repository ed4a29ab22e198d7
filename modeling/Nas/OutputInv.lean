import Nas.InputInv
import Nas.OutputStream

/-!
# The output of all connections

`OutputsOk` is what holds of the output buffers that the connections share, and `Stream` says of one
connection that the bytes the socket took, and behind them the ones that are buffered, are the buffers
that were written to it, each with its pad. All steps keep this (`OutputInv.step`), as long as no write
takes the count of a buffer past the `int`s (`Fits`).
-/

namespace Nas.Io
open ConnectionOutput

variable {s s' s'' : IoState} {c c' : ConnPtr} {conn conn' : Connection} {oco oco' : ConnectionOutput}

/-! ### What a step leaves alone -/

/-- A connection without what concerns its input. -/
def Connection.outputSide (conn : Connection) : Connection :=
  { conn with order := .little, socket := [], delivered := [] }

/-- The bytes that wait for a client's socket. -/
def bufferedOf (s : IoState) (c : ConnPtr) : List UInt8 := ((s.outputs.record c).map (·.buffered)).getD []

structure SameOutput (s s' : IoState) : Prop where
  outputs : s'.outputs = s.outputs
  conns : ∀ c, (s'.conns.get c).map (·.outputSide) = (s.conns.get c).map (·.outputSide)

namespace SameOutput

theorem refl (s : IoState) : SameOutput s s := ⟨rfl, fun _ => rfl⟩

theorem trans (h : SameOutput s s') (h' : SameOutput s' s'') : SameOutput s s'' :=
  ⟨h'.outputs.trans h.outputs, fun c => (h'.conns c).trans (h.conns c)⟩

theorem of_eq (ho : s'.outputs = s.outputs) (hc : s'.conns = s.conns) : SameOutput s s' :=
  ⟨ho, fun c => by rw [hc]⟩

theorem modifyConn {f : Connection → Connection} (hf : ∀ conn, (f conn).outputSide = conn.outputSide) :
    SameOutput s (modifyConn c f s) := by
  refine ⟨rfl, fun c' => ?_⟩
  rw [get_modifyConn]
  split
  · rw [Option.map_map]
    congr 1
    funext conn
    exact hf conn
  · rfl

end SameOutput

/-- Only one client's output changes. -/
structure OtherOutputs (c : ConnPtr) (s s' : IoState) : Prop where
  conns : ∀ c', c' ≠ c → (s'.conns.get c').map (·.outputSide) = (s.conns.get c').map (·.outputSide)
  buffered : ∀ c', c' ≠ c → bufferedOf s' c' = bufferedOf s c'

namespace OtherOutputs

theorem refl (c : ConnPtr) (s : IoState) : OtherOutputs c s s := ⟨fun _ _ => rfl, fun _ _ => rfl⟩

theorem trans (h : OtherOutputs c s s') (h' : OtherOutputs c s' s'') : OtherOutputs c s s'' :=
  ⟨fun c' hc => (h'.conns c' hc).trans (h.conns c' hc), fun c' hc => (h'.buffered c' hc).trans (h.buffered c' hc)⟩

theorem modifyConn (c : ConnPtr) (f : Connection → Connection) (s : IoState) :
    OtherOutputs c s (modifyConn c f s) :=
  ⟨fun c' hc => by rw [get_modifyConn, if_neg hc], fun _ _ => rfl⟩

end OtherOutputs

theorem SameOutput.buffered (h : SameOutput s s') (c : ConnPtr) : bufferedOf s' c = bufferedOf s c := by
  rw [bufferedOf, bufferedOf, h.outputs]

theorem SameOutput.others (h : SameOutput s s') (c : ConnPtr) : OtherOutputs c s s' :=
  ⟨fun c' _ => h.conns c', fun c' _ => h.buffered c'⟩

/-- Whether a connection is there is part of its output too. -/
theorem conn_isSome_outputSide
    (h : (s'.conns.get c).map (·.outputSide) = (s.conns.get c).map (·.outputSide)) :
    (s'.conn c).isSome = (s.conn c).isSome := by
  have hany : ∀ t : IoState, (t.conn c).isSome =
      ((t.conns.get c).map (·.outputSide)).any (! ·.clientGone) := fun t => by
    rw [IoState.conn]
    cases t.conns.get c with
    | none => rfl
    | some conn => cases hg : conn.clientGone <;> simp [Option.filter, Connection.outputSide, hg]
  rw [hany, hany, h]

/-! ### Buffers -/

/-- A buffer with nothing in it. -/
def Emptied (oco : ConnectionOutput) : Prop := oco.Ok ∧ oco.buffered = []

theorem Emptied.clear (h : oco.Ok) : Emptied oco.clear := ⟨h.clear, buffered_clear⟩

structure OutputsOk (s : IoState) : Prop where
  sound : s.outputs.Sound Emptied
  ok : ∀ c oco, s.outputs.record c = some oco → oco.Ok
  holder : ∀ c p, s.outputs.held c = some p → (s.conn c).isSome

namespace OutputsOk

theorem congr (h : OutputsOk s) (ho : s'.outputs = s.outputs) (hc : ∀ c, (s.conn c).isSome → (s'.conn c).isSome) :
    OutputsOk s' where
  sound := ho ▸ h.sound
  ok := ho ▸ h.ok
  holder c p hp := hc c (h.holder c p (ho ▸ hp))

theorem same (h : OutputsOk s) (hs : SameOutput s s') : OutputsOk s' :=
  h.congr hs.outputs fun c hc => by rwa [conn_isSome_outputSide (hs.conns c)]

theorem modifyConn (h : OutputsOk s) {f : Connection → Connection}
    (hf : ∀ conn, (f conn).clientGone = conn.clientGone) : OutputsOk (modifyConn c f s) := by
  refine h.congr rfl fun c' hc => ?_
  obtain ⟨conn, hconn⟩ := Option.isSome_iff_exists.1 hc
  obtain ⟨hget, hgone⟩ := conn_eq_some.1 hconn
  rw [Option.isSome_iff_exists]
  by_cases hcc : c' = c
  · exact ⟨f conn, conn_eq_some.2 ⟨by rw [get_modifyConn, if_pos hcc, hget]; rfl, by rw [hf, hgone]⟩⟩
  · exact ⟨conn, conn_eq_some.2 ⟨by rw [get_modifyConn, if_neg hcc, hget], hgone⟩⟩

/-- A client loses its buffer. -/
theorem lost (h : OutputsOk s) {pool : Pool ConnPtr ConnectionOutput} (hs : pool.Sound Emptied)
    (hl : Pool.Sound.Lost s.outputs pool c) :
    OutputsOk { s with outputs := pool } ∧ OtherOutputs c s { s with outputs := pool } ∧
      bufferedOf { s with outputs := pool } c = [] := by
  have hgone : pool.record c = none := Pool.record_none (by rw [hl.held, if_pos rfl])
  refine ⟨⟨hs, fun c' oco hr => ?_, fun c' p hp => ?_⟩, ⟨fun _ _ => rfl, fun c' hc => ?_⟩, ?_⟩
  · by_cases hcc : c' = c
    · rw [hcc] at hr
      exact absurd (hgone.symm.trans hr) (by simp)
    · exact h.ok c' oco ((hl.record c' hcc) ▸ hr)
  · rw [hl.held] at hp
    split at hp
    · cases hp
    · exact h.holder c' p hp
  · rw [bufferedOf, bufferedOf, hl.record c' hc]
  · rw [bufferedOf, hgone]
    rfl

/-- A client's buffer changes. -/
theorem setOutput (h : OutputsOk s) (hr : s.outputs.record c = some oco) (ho : oco'.Ok) :
    OutputsOk (setOutput c oco' s) ∧ OtherOutputs c s (setOutput c oco' s) ∧
      (setOutput c oco' s).outputs.record c = some oco' := by
  have hrec : ∀ c', (Io.setOutput c oco' s).outputs.record c' =
      if c' = c then some oco' else s.outputs.record c' := fun c' => by
    rw [Io.setOutput, h.sound.record_modify, hr]
    rfl
  refine ⟨⟨h.sound.modify, fun c' oco hc => ?_, fun c' p hp => ?_⟩, ⟨fun _ _ => rfl, fun c' hc => ?_⟩,
    by rw [hrec, if_pos rfl]⟩
  · rw [hrec] at hc
    split at hc
    · cases hc; exact ho
    · exact h.ok c' oco hc
  · rw [Io.setOutput, Pool.modify_held] at hp
    exact h.holder c' p hp
  · rw [bufferedOf, bufferedOf, hrec, if_neg hc]

end OutputsOk

theorem bufferedOf_record (h : s.outputs.record c = some oco) : bufferedOf s c = oco.buffered := by
  rw [bufferedOf, h]
  rfl

/-! ### Output operations -/

/-- Whether a client has a buffer or gets one. -/
def CanBuffer (alloc : Bool) (c : ConnPtr) (s : IoState) : Prop :=
  (s.outputs.held c).isSome ∨ s.outputs.free.isSome ∨ alloc = true

theorem obtainOutput_spec (h : OutputsOk s) (hc : (s.conn c).isSome) (alloc : Bool) :
    (¬ CanBuffer alloc c s ∧ obtainOutput alloc c s = .ok none) ∨
      ∃ s' oco, CanBuffer alloc c s ∧ obtainOutput alloc c s = .ok (some s') ∧ OutputsOk s' ∧ s'.conns = s.conns ∧
        s'.outputs.record c = some oco ∧ oco.buffered = bufferedOf s c ∧ OtherOutputs c s s' := by
  unfold obtainOutput
  cases hh : s.outputs.held c with
  | some p =>
    obtain ⟨oco, hr⟩ := h.sound.record hh
    exact .inr ⟨s, oco, .inl (by simp [hh]), by simp, h, rfl, hr, (bufferedOf_record hr).symm, .refl c s⟩
  | none =>
    rw [if_neg (by simp)]
    rcases h.sound.take c alloc newOutput with ⟨-, hnone⟩ | ⟨pool, oco, hpool, hs, hr, hnew, hothers⟩
    · refine .inl ⟨fun hcan => ?_, by rw [hnone]; rfl⟩
      obtain ⟨hfree, rfl⟩ := Pool.take_eq_none.1 hnone
      rw [CanBuffer, hh, hfree] at hcan
      simp at hcan
    · have hd : oco.Ok ∧ oco.buffered = [] := by
        rcases hnew with hd | rfl
        · exact hd
        · exact newOutput_ok
      have hcan : CanBuffer alloc c s := by
        by_contra hcan
        simp only [CanBuffer, not_or, Bool.not_eq_true, Option.isSome_eq_false_iff, Option.isNone_iff_eq_none] at hcan
        have hnone : s.outputs.take c alloc newOutput = .ok none := Pool.take_eq_none.2 hcan.2
        rw [hpool] at hnone
        cases hnone
      refine .inr ⟨{ s with outputs := pool }, oco, hcan, by rw [hpool]; rfl,
        ⟨hs, fun c' oco' hr' => ?_, fun c' p hp => ?_⟩, rfl, hr, ?_, ⟨fun _ _ => rfl, fun c' hc' => ?_⟩⟩
      · by_cases hcc : c' = c
        · rw [hcc] at hr'
          cases hr.symm.trans hr'
          exact hd.1
        · exact h.ok c' oco' ((hothers c' hcc).1 ▸ hr')
      · by_cases hcc : c' = c
        · rw [hcc]
          exact hc
        · exact h.holder c' p ((hothers c' hcc).2 ▸ hp)
      · rw [hd.2, bufferedOf, Pool.record_none hh]
        rfl
      · rw [bufferedOf, bufferedOf, (hothers c' hc').1]

theorem unblock_sameOutput (fd : Nat) (s : IoState) : SameOutput s (s.unblock fd) := by
  unfold IoState.unblock
  split
  · exact .of_eq rfl rfl
  · exact .refl s

/-- `conn'` is `conn` after `FlushClient` with some new data, what was buffered before and what is now. -/
structure Sent (conn conn' : Connection) (extra before after : List UInt8) : Prop where
  written : conn'.written = conn.written
  clientGone : conn'.clientGone = conn.clientGone
  stream : conn'.noClientException = true → conn.noClientException = true ∧
    ∃ pad, pad.length = padlength extra.length ∧ conn'.accepted ++ after = conn.accepted ++ (before ++ (extra ++ pad))

theorem acceptOutput_get (hget : s.conns.get c = some conn) (bytes : List UInt8) :
    (acceptOutput c bytes s).conns.get c = some { conn with accepted := conn.accepted ++ bytes } := by
  rw [acceptOutput, get_modifyConn, if_pos rfl, hget]
  rfl

/-- What was flushed out is given up. -/
theorem releaseOutput_spec (h : OutputsOk s) (hr : s.outputs.record c = some oco) (conn : Connection) :
    ∃ s', releaseOutput c conn oco s = .ok s' ∧ OutputsOk s' ∧ OtherOutputs c s s' ∧ s'.conns = s.conns ∧
      bufferedOf s' c = [] := by
  obtain ⟨h₁, ho₁, hr₁⟩ := h.setOutput hr (Emptied.clear (h.ok c oco hr)).1
  have hsame := unblock_sameOutput conn.fd (setOutput c oco.clear s)
  have h₂ := h₁.same hsame
  have hr₂ : ((setOutput c oco.clear s).unblock conn.fd).outputs.record c = some oco.clear := by
    rw [hsame.outputs, hr₁]
  have hconns : ((setOutput c oco.clear s).unblock conn.fd).conns = s.conns := by
    unfold IoState.unblock
    split <;> rfl
  unfold releaseOutput
  generalize (setOutput c oco.clear s).unblock conn.fd = s₂ at hsame h₂ hr₂ hconns ⊢
  obtain ⟨pool, hpool, hs, hl⟩ : ∃ pool, (if oco.size > bufWatermark then s₂.outputs.drop c
      else s₂.outputs.give c : Exec _) = .ok pool ∧ pool.Sound Emptied ∧ Pool.Sound.Lost s₂.outputs pool c := by
    split
    · exact h₂.sound.drop hr₂
    · exact h₂.sound.give hr₂ (.clear (h.ok c oco hr))
  obtain ⟨h₃, ho₃, hb₃⟩ := h₂.lost hs hl
  exact ⟨_, by dsimp only; rw [hpool]; rfl, h₃, (ho₁.trans (hsame.others c)).trans ho₃, hconns, hb₃⟩

/-- A client whose output failed is marked with an exception. -/
theorem failOutput_spec (h : OutputsOk s) (hget : s.conns.get c = some conn) (hr : s.outputs.record c = some oco) :
    OutputsOk (failOutput c oco s) ∧ OtherOutputs c s (failOutput c oco s) ∧
      (failOutput c oco s).conns.get c = some { conn with noClientException := false } ∧
      bufferedOf (failOutput c oco s) c = [] := by
  obtain ⟨h₁, ho₁, hr₁⟩ := h.setOutput hr (Emptied.clear (h.ok c oco hr)).1
  refine ⟨h₁.modifyConn fun _ => rfl, ho₁.trans (.modifyConn ..), ?_, ?_⟩
  · rw [failOutput, get_modifyConn, if_pos rfl]
    show Option.map _ (s.conns.get c) = _
    rw [hget]
    rfl
  · rw [bufferedOf_record (s := failOutput c oco s) hr₁, buffered_clear]

theorem releaseOutput_placed (h : OutputsOk s) (hp : s.outputs.Placed) (hr : s.outputs.record c = some oco)
    (he : releaseOutput c conn oco s = .ok s') : s'.outputs.Placed := by
  unfold releaseOutput at he
  obtain ⟨h₁, -, -⟩ := h.setOutput hr (Emptied.clear (h.ok c oco hr)).1
  have hp₁ : (setOutput c oco.clear s).outputs.Placed := hp.modify
  have hsame := unblock_sameOutput conn.fd (setOutput c oco.clear s)
  dsimp only at he
  obtain ⟨pool, hpool, he⟩ := Exec.bind_eq_ok.1 he
  cases he
  rw [hsame.outputs] at hpool
  split at hpool
  · exact hp₁.drop hpool
  · exact hp₁.give h₁.sound hpool

/-- What is sent and buffered after `FlushClient` was buffered before, or is new, in this order. -/
def Passes (conn conn' : Connection) (extra before after : List UInt8) : Prop :=
  ∃ pad, pad.length = padlength extra.length ∧
    (conn'.accepted ++ after).Sublist (conn.accepted ++ (before ++ (extra ++ pad)))

theorem flushClient_spec (h : OutputsOk s) (hc : s.conn c = some conn) (hr : s.outputs.record c = some oco)
    (env : FlushEnv) (extra : List UInt8) (hi : oco.count + (extra.length + padlength extra.length) ≤ intMax) :
    flushClient env c extra s = .error .fuel ∨
      ∃ n s' conn', flushClient env c extra s = .ok (n, s') ∧ OutputsOk s' ∧ OtherOutputs c s s' ∧
        s'.conns.get c = some conn' ∧ Sent conn conn' extra oco.buffered (bufferedOf s' c) ∧
        Passes conn conn' extra oco.buffered (bufferedOf s' c) ∧ (s.outputs.Placed → s'.outputs.Placed) := by
  obtain ⟨hget, hgone⟩ := conn_eq_some.1 hc
  have hok := h.ok c oco hr
  unfold flushClient
  rw [hc, Exec.deref_some, Exec.ok_bind, hr]
  dsimp only
  rw [if_neg (by omega), Memory.load_ok (by have := hok.count_le; omega), Exec.ok_bind, Nat.zero_add]
  generalize hpad : (List.range (padlength extra.length)).map env.padBuffer = pad
  have hpadlen : pad.length = padlength extra.length := by rw [← hpad]; simp
  have hall : ([oco.buffered, extra, pad] : List (List UInt8)).flatten = oco.buffered ++ (extra ++ pad) := by simp
  have hlen : (oco.buffered ++ (extra ++ pad)).length = oco.count + extra.length + padlength extra.length := by
    rw [List.length_append, List.length_append, hok.length_buffered, hpadlen, Nat.add_assoc]
  have hloop := flushLoop_spec [oco.buffered, extra, pad] env.writes (Nat.zero_le _) le_rfl
  rw [hall, Nat.sub_zero, hlen] at hloop
  rw [show Memory.slice oco.buf 0 oco.count = oco.buffered from rfl]
  rcases hloop with hfuel | ⟨status, accepted, he, hf⟩
  · exact .inl (by rw [hfuel]; rfl)
  right
  have hprefix := flushLoop_prefix he
  rw [hall, List.drop_zero] at hprefix
  -- what a client whose output fails was sent before
  have hfails : (conn.accepted ++ accepted).Sublist (conn.accepted ++ (oco.buffered ++ (extra ++ pad))) :=
    (List.append_sublist_append_left _).2 hprefix.sublist
  rw [he, Exec.ok_bind]
  dsimp only
  have haccept := acceptOutput_get hget accepted
  have h₁ : OutputsOk (acceptOutput c accepted s) := h.modifyConn fun _ => rfl
  have ho₁ : OtherOutputs c s (acceptOutput c accepted s) := .modifyConn ..
  have hr₁ : (acceptOutput c accepted s).outputs.record c = some oco := hr
  have hp₁ : s.outputs.Placed → (acceptOutput c accepted s).outputs.Placed := id
  generalize acceptOutput c accepted s = s₁ at haccept h₁ ho₁ hr₁ hp₁ ⊢
  cases hf with
  | flushed =>
    obtain ⟨s₂, h₂, hok₂, ho₂, hconns, hb₂⟩ := releaseOutput_spec h₁ hr₁ conn
    rw [← hconns] at haccept
    have hall : conn.accepted ++ (oco.buffered ++ (extra ++ pad)).drop 0 ++ bufferedOf s₂ c =
        conn.accepted ++ (oco.buffered ++ (extra ++ pad)) := by rw [hb₂, List.append_nil, List.drop_zero]
    refine ⟨extra.length, s₂, _, by rw [h₂]; rfl, hok₂, ho₁.trans ho₂, haccept, ⟨rfl, rfl, fun hex =>
      ⟨hex, pad, hpadlen, hall⟩⟩, ⟨pad, hpadlen, ?_⟩, fun hp => releaseOutput_placed h₁ (hp₁ hp) hr₁ h₂⟩
    dsimp only
    rw [hall]
  | failed =>
    obtain ⟨h₂, ho₂, hget₂, hb₂⟩ := failOutput_spec h₁ haccept hr₁
    refine ⟨-1, _, _, rfl, h₂, ho₁.trans ho₂, hget₂, ⟨rfl, rfl, fun hex => by cases hex⟩, ⟨pad, hpadlen, ?_⟩,
      fun hp => (hp₁ hp).modify⟩
    rw [hb₂, List.append_nil]
    exact hfails
  | blocked written hle hlt =>
    generalize hs₂ : ({ s₁ with
      clientsWriteBlocked := bitSet s₁.clientsWriteBlocked conn.fd, anyClientsWriteBlocked := true } : IoState) = s₂
    have hsame : SameOutput s₁ s₂ := by
      rw [← hs₂]
      exact .of_eq rfl rfl
    have hget₂ := haccept
    rw [show s₁.conns = s₂.conns by rw [← hs₂]] at hget₂
    have hr₂ : s₂.outputs.record c = some oco := by rw [hsame.outputs, hr₁]
    have ho₂ := ho₁.trans (hsame.others c)
    have hp₂ : s.outputs.Placed → s₂.outputs.Placed := fun hp => hsame.outputs ▸ hp₁ hp
    show ∃ n s' conn', (oco.save env.grow extra written ((oco.buffered ++ (extra ++ pad)).length - written) >>= _) =
      _ ∧ _
    rcases save_spec hok env.grow hlt (by omega) with ⟨-, hsave⟩ | ⟨oco', pad', hsave, hok', hpad', hstream⟩
    · obtain ⟨h₃, ho₃, hget₃, hb₃⟩ := failOutput_spec (h₁.same hsame) hget₂ hr₂
      rw [hsave]
      refine ⟨-1, _, _, rfl, h₃, ho₂.trans ho₃, hget₃, ⟨rfl, rfl, fun hex => by cases hex⟩, ⟨pad, hpadlen, ?_⟩,
        fun hp => (hp₂ hp).modify⟩
      rw [hb₃, List.append_nil]
      exact hfails
    · obtain ⟨h₃, ho₃, hr₃⟩ := (h₁.same hsame).setOutput hr₂ hok'
      rw [hsave]
      have hall : conn.accepted ++ Memory.slice (oco.buffered ++ (extra ++ pad)) 0 written ++
          bufferedOf (setOutput c oco' s₂) c = conn.accepted ++ (oco.buffered ++ (extra ++ pad')) := by
        rw [bufferedOf_record hr₃, ← hstream, List.append_assoc]
      refine ⟨extra.length, _, _, rfl, h₃, ho₂.trans ho₃, hget₂, ⟨rfl, rfl, fun hex =>
        ⟨hex, pad', by rw [hpad', hpadlen], hall⟩⟩, ⟨pad', by rw [hpad', hpadlen], ?_⟩, fun hp => (hp₂ hp).modify⟩
      dsimp only
      rw [hall]

/-! ### Streams -/

/-- What the socket took and what is buffered is what was written. Of a client that is gone, what the socket
took is the beginning of it. -/
def Stream (conn : Connection) (buffered : List UInt8) : Prop :=
  conn.noClientException = true →
    if conn.clientGone then ∃ rest, Padded conn.written (conn.accepted ++ rest)
    else Padded conn.written (conn.accepted ++ buffered)

structure OutputInv (s : IoState) : Prop where
  outputs : OutputsOk s
  stream : ∀ c conn, s.conns.get c = some conn → Stream conn (bufferedOf s c)

theorem Stream.outputSide {buffered : List UInt8} (h : Stream conn buffered) (hs : conn'.outputSide = conn.outputSide) :
    Stream conn' buffered := by
  have hside : Stream conn.outputSide buffered := h
  rw [← hs] at hside
  exact hside

def OthersStream (c : ConnPtr) (s : IoState) : Prop :=
  ∀ c' conn, c' ≠ c → s.conns.get c' = some conn → Stream conn (bufferedOf s c')

theorem OutputInv.othersStream (h : OutputInv s) (c : ConnPtr) : OthersStream c s := fun c' conn _ => h.stream c' conn

theorem OthersStream.step (h : OthersStream c s) (ho : OtherOutputs c s s') : OthersStream c s' := by
  intro c' conn hcc hc'
  have hconn := ho.conns c' hcc
  rw [hc'] at hconn
  obtain ⟨conn₀, h₀, hside⟩ := Option.map_eq_some_iff.1 hconn.symm
  rw [ho.buffered c' hcc]
  exact (h c' conn₀ hcc h₀).outputSide hside.symm

theorem OthersStream.outputInv (h : OthersStream c s) (hok : OutputsOk s) (hget : s.conns.get c = some conn)
    (hs : Stream conn (bufferedOf s c)) : OutputInv s where
  outputs := hok
  stream c' conn' hc' := by
    by_cases hcc : c' = c
    · rw [hcc] at hc' ⊢
      cases hget.symm.trans hc'
      exact hs
    · exact h c' conn' hcc hc'

theorem OutputInv.same (h : OutputInv s) (hs : SameOutput s s') : OutputInv s' where
  outputs := h.outputs.same hs
  stream c conn hc := by
    have hconn := hs.conns c
    rw [hc] at hconn
    obtain ⟨conn₀, h₀, hside⟩ := Option.map_eq_some_iff.1 hconn.symm
    rw [hs.buffered]
    exact (h.stream c conn₀ h₀).outputSide hside.symm

/-- Flushing does not change the stream. -/
theorem Sent.stream_nil {before after : List UInt8} (h : Sent conn conn' [] before after) (hgone : conn.clientGone = false)
    (hs : Stream conn before) : Stream conn' after := by
  intro hex
  obtain ⟨hex', pad, hpad, hstream⟩ := h.stream hex
  have hnil : pad = [] := List.length_eq_zero_iff.1 hpad
  have hs' := hs hex'
  rw [hgone] at hs'
  rw [h.clientGone, hgone, h.written, hstream, hnil, List.append_nil, List.append_nil]
  exact hs'

/-- New data are added to the stream, with their pad. -/
theorem Sent.stream_write {before after buf : List UInt8} (h : Sent { conn with written := conn.written ++ [buf] } conn'
    buf before after) (hgone : conn.clientGone = false) (hs : Stream conn before) : Stream conn' after := by
  intro hex
  obtain ⟨hex', pad, hpad, hstream⟩ := h.stream hex
  have hs' := hs hex'
  rw [hgone, if_neg (by simp)] at hs'
  rw [h.clientGone, hgone, if_neg (by simp), h.written, hstream, ← List.append_assoc]
  exact hs'.snoc hpad

/-- What a client that does not write more to a buffer than an `int` counts does. -/
def Fits (s : IoState) : IoInput → Prop
  | .write _ _ c buf => (bufferedOf s c).length + (buf.length + padlength buf.length) ≤ intMax
  | _ => True

theorem flushClient_inv (h : OutputInv s) (hc : s.conn c = some conn) (env : FlushEnv) :
    flushClient env c [] s = .error .fuel ∨
      ∃ n s', flushClient env c [] s = .ok (n, s') ∧ OutputInv s' := by
  obtain ⟨hget, hgone⟩ := conn_eq_some.1 hc
  cases hr : s.outputs.record c with
  | none =>
    refine .inr ⟨0, s, ?_, h⟩
    unfold flushClient
    rw [hc, Exec.deref_some, Exec.ok_bind, hr]
  | some oco =>
    have hstream := h.stream c conn hget
    rw [bufferedOf_record hr] at hstream
    rcases flushClient_spec h.outputs hc hr env [] (h.outputs.ok c oco hr).count_int with hfuel |
      ⟨n, s', conn', he, hok, ho, hget', hsent, -⟩
    · exact .inl hfuel
    · exact .inr ⟨n, s', he, ((h.othersStream c).step ho).outputInv hok hget' (hsent.stream_nil hgone hstream)⟩

theorem writeToClient_spec (h : OutputInv s) (hc : s.conn c = some conn) (alloc : Bool) (env : FlushEnv)
    {buf : List UInt8} (hbuf : buf ≠ []) :
    (¬ CanBuffer alloc c s ∧ ∃ s', writeToClient alloc env c buf s = .ok (-1, s') ∧ OutputInv s') ∨
      CanBuffer alloc c s ∧ ((¬ Fits s (.write alloc env c buf) ∧ writeToClient alloc env c buf s = .error .fault) ∨
        Fits s (.write alloc env c buf) ∧ (writeToClient alloc env c buf s = .error .fuel ∨
          ∃ n s', writeToClient alloc env c buf s = .ok (n, s') ∧ OutputInv s')) := by
  obtain ⟨hget, hgone⟩ := conn_eq_some.1 hc
  unfold writeToClient
  rw [if_neg hbuf, hc, Exec.deref_some, Exec.ok_bind]
  dsimp only
  have h₁ : OutputsOk (modifyConn c (fun conn => { conn with written := conn.written ++ [buf] }) s) :=
    h.outputs.modifyConn fun _ => rfl
  have ho₁ : OtherOutputs c s (modifyConn c (fun conn => { conn with written := conn.written ++ [buf] }) s) :=
    .modifyConn ..
  have hget₁ : (modifyConn c (fun conn => { conn with written := conn.written ++ [buf] }) s).conns.get c =
      some { conn with written := conn.written ++ [buf] } := by
    rw [get_modifyConn, if_pos rfl, hget]
    rfl
  have hcan₁ : CanBuffer alloc c (modifyConn c (fun conn => { conn with written := conn.written ++ [buf] }) s) ↔
      CanBuffer alloc c s := Iff.rfl
  have hb₁ : bufferedOf (modifyConn c (fun conn => { conn with written := conn.written ++ [buf] }) s) c =
      bufferedOf s c := rfl
  generalize modifyConn c (fun conn => { conn with written := conn.written ++ [buf] }) s = s₁ at h₁ ho₁ hget₁ hcan₁ hb₁ ⊢
  have hc₁ := conn_eq_some.2 ⟨hget₁, hgone⟩
  rcases obtainOutput_spec h₁ (by rw [hc₁]; rfl) alloc with ⟨hcan, hnone⟩ |
    ⟨s₂, oco, hcan, hsome, h₂, hconns, hr, hb, ho₂⟩
  · rw [hnone, Exec.ok_bind]
    refine .inl ⟨fun h => hcan (hcan₁.2 h), _, rfl, ?_⟩
    have ho := ho₁.trans (.modifyConn c (fun conn => { conn with noClientException := false }) s₁)
    have hget₂ : (modifyConn c (fun conn => { conn with noClientException := false }) s₁).conns.get c =
        some { conn with written := conn.written ++ [buf], noClientException := false } := by
      rw [get_modifyConn, if_pos rfl, hget₁]
      rfl
    exact ((h.othersStream c).step ho).outputInv (h₁.modifyConn fun _ => rfl) hget₂ fun hex => by cases hex
  right
  refine ⟨hcan₁.1 hcan, ?_⟩
  rw [hsome, Exec.ok_bind]
  dsimp only
  rw [hr, Exec.deref_some, Exec.ok_bind]
  have hok := h₂.ok c oco hr
  have hcount : oco.count = (bufferedOf s c).length := by rw [← hok.length_buffered, hb, hb₁]
  have hget₂ : s₂.conns.get c = some { conn with written := conn.written ++ [buf] } := by rw [hconns, hget₁]
  have hstream := h.stream c conn hget
  rw [← hb₁, ← hb] at hstream
  by_cases hfit : oco.count + buf.length + padlength buf.length > intMax
  · rw [if_pos hfit]
    refine .inl ⟨fun hf => ?_, rfl⟩
    have : (bufferedOf s c).length + (buf.length + padlength buf.length) ≤ intMax := hf
    omega
  rw [if_neg hfit]
  refine .inr ⟨show (bufferedOf s c).length + (buf.length + padlength buf.length) ≤ intMax by omega, ?_⟩
  by_cases hsize : ((oco.count + buf.length + padlength buf.length : Nat) : Int) > oco.size
  · rw [if_pos hsize]
    generalize hs₃ : ({ s₂ with
      outputPending := bitClear s₂.outputPending conn.fd
      criticalOutputPending := false, newOutputPending := false } : IoState) = s₃
    have hsame : SameOutput s₂ s₃ := by
      rw [← hs₃]
      exact .of_eq rfl rfl
    have hget₃ : s₃.conns.get c = some { conn with written := conn.written ++ [buf] } := by
      rw [← hs₃]
      exact hget₂
    have hr₃ : s₃.outputs.record c = some oco := by rw [hsame.outputs, hr]
    rcases flushClient_spec (h₂.same hsame) (conn_eq_some.2 ⟨hget₃, hgone⟩) hr₃ env buf (by omega) with
      hfuel | ⟨n, s', conn', he, hok', ho', hget', hsent, -⟩
    · exact .inl hfuel
    · have ho := ((ho₁.trans ho₂).trans (hsame.others c)).trans ho'
      exact .inr ⟨n, s', he, ((h.othersStream c).step ho).outputInv hok' hget'
        (hsent.stream_write hgone hstream)⟩
  · rw [if_neg hsize]
    have hle := hok.size_le
    have hcle := hok.count_le
    obtain ⟨data, hdata, hst⟩ := Memory.store_ok (show oco.count + buf.length ≤ oco.buf.length by omega)
    rw [hdata, Exec.ok_bind]
    generalize hs₃ : ({ s₂ with
      newOutputPending := true, outputPending := bitSet s₂.outputPending conn.fd } : IoState) = s₃
    have hsame : SameOutput s₂ s₃ := by
      rw [← hs₃]
      exact .of_eq rfl rfl
    have hget₃ : s₃.conns.get c = some { conn with written := conn.written ++ [buf] } := by
      rw [← hs₃]
      exact hget₂
    have hr₃ : s₃.outputs.record c = some oco := by rw [hsame.outputs, hr]
    have hok₃ : ({ oco with buf := data, count := oco.count + buf.length + padlength buf.length } :
        ConnectionOutput).Ok :=
      ⟨by dsimp only; rw [hst.length]; exact hle, by dsimp only; rw [hst.length]; omega, by dsimp only; omega⟩
    obtain ⟨h₄, ho₄, hr₄⟩ := (h₂.same hsame).setOutput hr₃ hok₃
    refine .inr ⟨buf.length, _, rfl, ((h.othersStream c).step
      (((ho₁.trans ho₂).trans (hsame.others c)).trans ho₄)).outputInv h₄ hget₃ fun hex => ?_⟩
    have hs := hstream hex
    rw [hgone, if_neg (by simp)] at hs
    dsimp only
    rw [hgone, if_neg (by simp), bufferedOf_record hr₄, buffered,
      ← Memory.slice_append (Nat.zero_le oco.count) (by dsimp only; omega),
      ← Memory.slice_append (b := oco.count + buf.length) (Nat.le_add_right ..) (Nat.le_add_right ..),
      hst.slice_below le_rfl, hst.slice_self, ← List.append_assoc]
    refine hs.snoc ?_
    rw [Memory.length_slice (by rw [hst.length]; omega)]
    omega

theorem flushPending_inv {env : ConnPtr → FlushEnv} {fd : Nat} (h : OutputInv s) (he : flushPending env s fd = .ok s') :
    OutputInv s' := by
  unfold flushPending at he
  split at he
  · cases he
    exact h
  rename_i c _
  obtain ⟨conn, hget, he⟩ := Exec.bind_eq_ok.1 he
  rw [Exec.deref_eq_ok] at hget
  split at he
  · cases he
    exact h
  · split at he
    · cases he
      exact h.same (.of_eq rfl rfl)
    · obtain ⟨⟨n, s₁⟩, h₁, he⟩ := Exec.bind_eq_ok.1 he
      cases he
      have hc : s.conn c = some conn := conn_eq_some.2 ⟨hget, by simpa using ‹¬ conn.clientGone = true›⟩
      rcases flushClient_inv h hc (env c) with hfuel | ⟨n', s₂, h₂, hinv⟩
      · cases hfuel.symm.trans h₁
      · cases h₂.symm.trans h₁
        exact hinv

theorem flushAllOutput_inv {env : ConnPtr → FlushEnv} (h : OutputInv s) (he : flushAllOutput env s = .ok s') :
    OutputInv s' := by
  unfold flushAllOutput at he
  split at he
  · cases he
    exact h
  · refine Exec.foldlM_inv (I := OutputInv) (fun _ _ _ _ hi he => flushPending_inv hi he) ?_ he
    exact h.same (.of_eq rfl rfl)

/-! ### Input -/

theorem releaseAvailable_sameOutput (h : releaseAvailable c s = .ok s') : SameOutput s s' := by
  unfold releaseAvailable at h
  split at h
  · cases h
    exact .refl s
  · split at h
    · cases h
      exact .of_eq rfl rfl
    · obtain ⟨aci, -, h⟩ := Exec.bind_eq_ok.1 h
      obtain ⟨inputs, -, h⟩ := Exec.bind_eq_ok.1 h
      cases h
      exact .of_eq rfl rfl

theorem obtainInput_sameOutput {alloc : Bool} (h : obtainInput alloc c s = .ok (some s')) : SameOutput s s' := by
  unfold obtainInput at h
  split at h
  · cases h
    exact .refl s
  · obtain ⟨r, -, h⟩ := Exec.bind_eq_ok.1 h
    cases r with
    | none => cases h
    | some inputs =>
      cases h
      exact .of_eq rfl rfl

theorem schedule_sameOutput (fd : Nat) (whole : Bool) (s : IoState) : SameOutput s (schedule fd whole s) := by
  unfold schedule
  split
  · exact .of_eq rfl rfl
  · exact .of_eq rfl rfl

theorem countTimes_sameOutput (s : IoState) : SameOutput s (countTimes s) := by
  unfold countTimes
  split
  · exact .of_eq rfl rfl
  · exact .of_eq rfl rfl

theorem receive_sameOutput (c : ConnPtr) (socket : List UInt8) (reqs : List (List UInt8)) (s : IoState) :
    SameOutput s (modifyConn c (·.receive socket reqs) s) := .modifyConn fun _ => rfl

theorem setInput_sameOutput (c : ConnPtr) (oci : ConnectionInput) (s : IoState) : SameOutput s (setInput c oci s) :=
  .of_eq rfl rfl

theorem readRequestFromClient_sameOutput {env : ReadEnv} {status : ReadStatus}
    (h : readRequestFromClient env c s = .ok (status, s')) : SameOutput s s' := by
  unfold readRequestFromClient at h
  obtain ⟨conn, -, h⟩ := Exec.bind_eq_ok.1 h
  obtain ⟨s₁, h₁, h⟩ := Exec.bind_eq_ok.1 h
  obtain ⟨r, h₂, h⟩ := Exec.bind_eq_ok.1 h
  have hs₁ := releaseAvailable_sameOutput h₁
  cases r with
  | none =>
    cases h
    exact hs₁.trans (.of_eq rfl rfl)
  | some s₂ =>
    have hs₂ := hs₁.trans (obtainInput_sameOutput h₂)
    obtain ⟨oci, -, h⟩ := Exec.bind_eq_ok.1 h
    obtain ⟨⟨status', oci', socket⟩, -, h⟩ := Exec.bind_eq_ok.1 h
    have hs₃ : SameOutput s (setInput c oci' s₂) := hs₂.trans (setInput_sameOutput ..)
    cases status' with
    | dead =>
      cases h
      exact (hs₃.trans (receive_sameOutput c socket [] _)).trans (.of_eq rfl rfl)
    | incomplete =>
      cases h
      exact (hs₃.trans (receive_sameOutput c socket [] _)).trans (.of_eq rfl rfl)
    | request req =>
      obtain ⟨s₄, h₄, h⟩ := Exec.bind_eq_ok.1 h
      cases h
      obtain ⟨whole, -, h₄⟩ := Exec.bind_eq_ok.1 h₄
      cases h₄
      refine (SameOutput.trans ?_ (schedule_sameOutput ..)).trans (countTimes_sameOutput _)
      exact (hs₃.trans (receive_sameOutput c socket [req] _)).trans (.of_eq rfl rfl)

theorem insertFakeRequest_sameOutput {alloc grow done : Bool} {data : List UInt8}
    (h : insertFakeRequest alloc grow c data s = .ok (done, s')) : SameOutput s s' := by
  unfold insertFakeRequest at h
  obtain ⟨conn, -, h⟩ := Exec.bind_eq_ok.1 h
  obtain ⟨s₁, h₁, h⟩ := Exec.bind_eq_ok.1 h
  obtain ⟨r, h₂, h⟩ := Exec.bind_eq_ok.1 h
  have hs₁ := releaseAvailable_sameOutput h₁
  cases r with
  | none =>
    cases h
    exact hs₁
  | some s₂ =>
    have hs₂ := hs₁.trans (obtainInput_sameOutput h₂)
    obtain ⟨oci, -, h⟩ := Exec.bind_eq_ok.1 h
    obtain ⟨⟨done', oci'⟩, -, h⟩ := Exec.bind_eq_ok.1 h
    have hs₃ : SameOutput s (setInput c oci' s₂) := hs₂.trans (setInput_sameOutput ..)
    dsimp only at h
    split at h
    · cases h
      exact hs₃
    · obtain ⟨whole, -, h⟩ := Exec.bind_eq_ok.1 h
      cases h
      exact hs₃.trans (schedule_sameOutput ..)

theorem keepAvailable_sameOutput (c : ConnPtr) (s : IoState) : SameOutput s (s.keepAvailable c) := by
  unfold IoState.keepAvailable
  split
  · exact .of_eq rfl rfl
  · exact .refl s

theorem resetCurrentRequest_sameOutput (h : resetCurrentRequest c s = .ok s') : SameOutput s s' := by
  unfold resetCurrentRequest at h
  obtain ⟨conn, -, h⟩ := Exec.bind_eq_ok.1 h
  obtain ⟨oci, -, h⟩ := Exec.bind_eq_ok.1 h
  obtain ⟨whole, -, h⟩ := Exec.bind_eq_ok.1 h
  cases h
  have hs : SameOutput s (schedule conn.fd whole (setInput c oci.forget (s.keepAvailable c))) :=
    ((keepAvailable_sameOutput c s).trans (setInput_sameOutput ..)).trans (schedule_sameOutput ..)
  split
  · exact hs.trans (.of_eq rfl rfl)
  · exact hs

theorem rewriteRequest_sameOutput {start : List UInt8} {order : ByteOrder}
    (h : rewriteRequest c start order s = .ok s') : SameOutput s s' := by
  unfold rewriteRequest at h
  obtain ⟨oci, -, h⟩ := Exec.bind_eq_ok.1 h
  obtain ⟨req, -, h⟩ := Exec.bind_eq_ok.1 h
  obtain ⟨buffer, -, h⟩ := Exec.bind_eq_ok.1 h
  refine SameOutput.trans ?_ (resetCurrentRequest_sameOutput h)
  exact (setInput_sameOutput ..).trans (.modifyConn fun _ => rfl)

/-! ### Connections -/

theorem freeOsBuffers_outputs (h : OutputsOk s) (he : freeOsBuffers c s = .ok s') :
    OutputsOk s' ∧ OtherOutputs c s s' ∧ s'.conns = s.conns ∧ s'.outputs.held c = none := by
  unfold freeOsBuffers at he
  have hk := keepAvailable_sameOutput c s
  have hconns : (s.keepAvailable c).conns = s.conns := by
    unfold IoState.keepAvailable
    split <;> rfl
  have h₁ := h.same hk
  dsimp only at he
  generalize s.keepAvailable c = s₁ at hk hconns h₁ he
  obtain ⟨inputs, -, he⟩ := Exec.bind_eq_ok.1 he
  obtain ⟨outputs, hout, he⟩ := Exec.bind_eq_ok.1 he
  cases he
  suffices hs : OutputsOk { s₁ with outputs } ∧ OtherOutputs c s₁ { s₁ with outputs } ∧ outputs.held c = none by
    refine ⟨hs.1.same (.of_eq rfl rfl), (hk.others c).trans (hs.2.1.trans ?_), hconns, hs.2.2⟩
    exact ⟨fun _ _ => rfl, fun _ _ => rfl⟩
  cases hh : s₁.outputs.held c with
  | none =>
    rw [hh, Option.isNone_none, if_pos rfl] at hout
    cases hout
    exact ⟨h₁, .refl c s₁, hh⟩
  | some p =>
    rw [hh, Option.isNone_some, if_neg (by simp)] at hout
    obtain ⟨oco, hr⟩ := h₁.sound.record hh
    have hlost : outputs.Sound Emptied ∧ Pool.Sound.Lost s₁.outputs outputs c := by
      by_cases hf : s₁.outputs.free.isSome
      · rw [if_pos hf] at hout
        obtain ⟨pool, hpool, hs, hl⟩ := h₁.sound.drop hr
        cases hpool.symm.trans hout
        exact ⟨hs, hl⟩
      · rw [if_neg hf] at hout
        have hrec : (s₁.outputs.modify c (·.clear)).record c = some oco.clear := by
          rw [h₁.sound.record_modify, if_pos rfl, hr]
          rfl
        obtain ⟨pool, hpool, hs, hl⟩ := h₁.sound.modify.give hrec (.clear (h₁.ok c oco hr))
        cases hpool.symm.trans hout
        refine ⟨hs, fun c' => ?_, fun c' hc => ?_⟩
        · rw [hl.held, Pool.modify_held]
        · rw [hl.record c' hc, h₁.sound.record_modify, if_neg hc]
    obtain ⟨hok, ho, -⟩ := h₁.lost hlost.1 hlost.2
    exact ⟨hok, ho, by rw [hlost.2.held, if_pos rfl]⟩

/-- Of a connection that is closed, what was not sent is lost. -/
theorem closeDownConnection_output {env : FlushEnv} (h : OutputInv s) (he : closeDownConnection env c s = .ok s') :
    OutputInv s' := by
  unfold closeDownConnection at he
  obtain ⟨conn, hc, he⟩ := Exec.bind_eq_ok.1 he
  rw [Exec.deref_eq_ok] at hc
  obtain ⟨s₁, h₁, he⟩ := Exec.bind_eq_ok.1 he
  obtain ⟨s₂, h₂, he⟩ := Exec.bind_eq_ok.1 he
  have hinv : OutputInv s₁ := by
    split at h₁
    · obtain ⟨⟨n, s₃⟩, h₃, rfl⟩ := Exec.map_eq_ok.1 h₁
      rcases flushClient_inv h hc env with hfuel | ⟨n', s₄, h₄, hinv⟩
      · cases hfuel.symm.trans h₃
      · cases h₄.symm.trans h₃
        exact hinv
    · cases h₁
      exact h
  obtain ⟨hok, ho, hconns, hheld⟩ := freeOsBuffers_outputs hinv.outputs h₂
  cases he
  refine ⟨⟨hok.sound, hok.ok, fun c' p hp => ?_⟩, fun c' conn' hget' => ?_⟩
  · have hcc : c' ≠ c := by
      rintro rfl
      exact absurd (hheld.symm.trans hp) (by simp)
    rw [conn_isSome_outputSide (s := s₂) (by rw [get_modifyConn, if_neg hcc])]
    exact hok.holder c' p hp
  · rw [get_modifyConn] at hget'
    split at hget'
    · rename_i hcc
      obtain ⟨conn₁, hget₁, rfl⟩ := Option.map_eq_some_iff.1 hget'
      have hstream := hinv.stream c' conn₁ (by rw [← hconns]; exact hget₁)
      intro hex
      have hs := hstream hex
      rw [if_pos rfl]
      split at hs
      · exact hs
      · exact ⟨_, hs⟩
    · rename_i hcc
      exact (hinv.othersStream c).step ho c' conn' hcc hget'

theorem react_output {env : ServeEnv} (h : OutputInv s) (he : react env c s = .ok s') : OutputInv s' := by
  unfold react at he
  obtain ⟨conn, -, he⟩ := Exec.bind_eq_ok.1 he
  split at he
  · cases he
    exact h
  · obtain ⟨⟨done, s₁⟩, h₁, he⟩ := Exec.bind_eq_ok.1 he
    have hinv := h.same (insertFakeRequest_sameOutput h₁)
    dsimp only at he
    split at he
    · cases he
      exact hinv
    · exact closeDownConnection_output hinv he
  · exact h.same (rewriteRequest_sameOutput he)

theorem serve_output {env : ServeEnv} (h : OutputInv s) (he : serve env c s = .ok s') : OutputInv s' := by
  unfold serve at he
  obtain ⟨⟨status, s₁⟩, h₁, he⟩ := Exec.bind_eq_ok.1 he
  have hinv := h.same (readRequestFromClient_sameOutput h₁)
  cases status with
  | dead => exact closeDownConnection_output hinv he
  | incomplete =>
    cases he
    exact hinv
  | request req => exact react_output hinv he

theorem connect_output {env : ServeEnv} {fd : Nat} {origin : Origin} (h : OutputInv s)
    (he : connect env fd origin s = .ok s') : OutputInv s' := by
  unfold connect at he
  dsimp only at he
  generalize hs₁ : ({ s with
    conns := s.conns.alloc { fd, origin, order := origin.order, socket := origin.stream }
    connectionTranslation := Function.update s.connectionTranslation fd (some s.conns.next) } : IoState) = s₁ at he
  have hconns : ∀ c, s₁.conns.get c = if c = s.conns.next then
      some { fd, origin, order := origin.order, socket := origin.stream } else s.conns.get c := fun c => by
    rw [← hs₁]
    exact Heap.get_alloc
  have houtputs : s₁.outputs = s.outputs := by rw [← hs₁]
  have hne : ∀ c, (s.conn c).isSome → c ≠ s.conns.next := fun c hc hcn => by
    obtain ⟨conn, hconn⟩ := Option.isSome_iff_exists.1 hc
    exact absurd hcn (Nat.ne_of_lt (Heap.lt_next (conn_eq_some.1 hconn).1))
  have hok : OutputsOk s₁ := h.outputs.congr houtputs fun c hc => by
    rw [conn_isSome_outputSide (s := s) (by rw [hconns, if_neg (hne c hc)])]
    exact hc
  have hinv : OutputInv s₁ := by
    refine ⟨hok, fun c conn hget => ?_⟩
    rw [hconns] at hget
    split at hget
    · cases hget
      rename_i hcn
      -- a connection that is new has no buffer
      have hheld : s₁.outputs.held c = none := by
        rw [houtputs, hcn]
        cases hh : s.outputs.held s.conns.next with
        | none => rfl
        | some p => exact absurd rfl (hne _ (h.outputs.holder _ p hh))
      rw [bufferedOf, Pool.record_none hheld]
      exact fun _ => .nil
    · rw [bufferedOf, houtputs]
      exact h.stream c conn hget
  obtain ⟨⟨done, s₂⟩, h₂, he⟩ := Exec.bind_eq_ok.1 he
  have hinv₂ := hinv.same (insertFakeRequest_sameOutput h₂)
  cases done with
  | true =>
    cases he
    exact hinv₂
  | false => exact closeDownConnection_output hinv₂ he

/-! ### Runs -/

theorem ioStep_output {r : IoInput} (h : OutputInv s) (hf : Fits s r) (he : ioStep s r = .ok s') : OutputInv s' := by
  cases r with
  | connect env fd origin => exact connect_output h he
  | serve env c => exact serve_output h he
  | write alloc env c buf =>
    obtain ⟨⟨n, s₁⟩, h₁, rfl⟩ := Exec.map_eq_ok.1 he
    by_cases hbuf : buf = []
    · rw [writeToClient, if_pos hbuf] at h₁
      cases h₁
      exact h
    obtain ⟨conn, hc, -⟩ := Exec.bind_eq_ok.1 (by rw [writeToClient, if_neg hbuf] at h₁; exact h₁)
    rw [Exec.deref_eq_ok] at hc
    rcases writeToClient_spec h hc alloc env hbuf with ⟨-, s₂, h₂, hinv⟩ | ⟨-, ⟨hnf, -⟩ | ⟨-, hfuel | ⟨n', s₂, h₂, hinv⟩⟩⟩
    · cases h₂.symm.trans h₁
      exact hinv
    · exact absurd hf hnf
    · cases hfuel.symm.trans h₁
    · cases h₂.symm.trans h₁
      exact hinv
  | flush env c =>
    obtain ⟨⟨n, s₁⟩, h₁, rfl⟩ := Exec.map_eq_ok.1 he
    obtain ⟨conn, hc, -⟩ := Exec.bind_eq_ok.1 h₁
    rw [Exec.deref_eq_ok] at hc
    rcases flushClient_inv h hc env with hfuel | ⟨n', s₂, h₂, hinv⟩
    · cases hfuel.symm.trans h₁
    · cases h₂.symm.trans h₁
      exact hinv
  | flushAll env => exact flushAllOutput_inv h he
  | writable clientsWritable =>
    cases he
    refine h.same ?_
    unfold becomeWritable
    split
    · exact .of_eq rfl rfl
    · exact .refl s
  | close env c => exact closeDownConnection_output h he

theorem outputInv_init : OutputInv {} where
  outputs := ⟨Pool.sound_empty, fun c oco h => (by cases h), fun c p h => (by cases h)⟩
  stream c conn h := by cases h

theorem reach_outputInv (h : Reach ioStep Fits {} s) : OutputInv s :=
  h.inv outputInv_init fun _ _ _ hi hf he => ioStep_output hi hf he

/-- A connection, and nothing else. -/
def connected : IoInput :=
  .connect { read := { read := .again, alloc := true, grow := true, shrink := true }
             flush := { writes := [], grow := true, padBuffer := fun _ => 0 } } 3
    { order := .little, fake := [1, 0, 4, 0], stream := [], react := fun _ => .done }

theorem connected_reach : ∃ s conn, Reach ioStep Fits {} s ∧ s.conn 0 = some conn ∧ conn.noClientException = true := by
  have hrun : (ioStep {} connected).toOption.any (fun s => (s.conn 0).any (·.noClientException)) = true := by
    decide +kernel
  obtain ⟨s, hs, hrun⟩ := (Option.any_eq_true ..).1 hrun
  obtain ⟨conn, hc, hex⟩ := (Option.any_eq_true ..).1 hrun
  refine ⟨s, conn, .step connected .init trivial ?_, hc, hex⟩
  cases hr : ioStep {} connected with
  | ok t =>
    rw [hr] at hs
    cases hs
    rfl
  | error e =>
    rw [hr] at hs
    cases hs

end Nas.Io
