import Nas.OutputInv

/-!
# Output that waits

A client with unsent bytes is to be flushed again: its bit is set in `OutputPending`, and `NewOutputPending`
says that there is one, or the same with `ClientsWriteBlocked` (`Remembered`). Of the steps on the output of
connected clients only one forgets a client: a `WriteToClient` whose data do not fit takes back
`NewOutputPending`, also for the other clients (`remembered_iff`).
-/

namespace Nas.Io
open ConnectionOutput

/-- The client's buffer is not empty. -/
def unsent (s : IoState) (c : ConnPtr) : Bool := (s.outputs.record c).any (·.count ≠ 0)

def Scheduled (s : IoState) (fd : Nat) : Prop :=
  s.outputPending fd = true ∧ s.newOutputPending = true ∨ s.clientsWriteBlocked fd = true ∧ s.anyClientsWriteBlocked = true

/-- No connected client with unsent bytes is forgotten. -/
def Remembered (s : IoState) : Prop := ∀ c conn, s.conn c = some conn → unsent s c = true → Scheduled s conn.fd

/-- What happens to the output of clients that are connected. Between, other input may be there or not. -/
inductive OutputOp where
  | write (alloc : Bool) (env : FlushEnv) (c : ConnPtr) (buf : List UInt8)
  | flush (env : FlushEnv) (c : ConnPtr)
  | flushAll (env : ConnPtr → FlushEnv)
  | writable (clientsWritable : Nat → Bool)
  | input (clientsWithInput : Nat → Bool)

def outputStep (s : IoState) : OutputOp → Exec IoState
  | .write alloc env c buf => (·.2) <$> writeToClient alloc env c buf s
  | .flush env c => (·.2) <$> flushClient env c [] s
  | .flushAll env => flushAllOutput env s
  | .writable clientsWritable => .ok (becomeWritable clientsWritable s)
  | .input clientsWithInput => .ok { s with clientsWithInput }

/-- The data do not fit in the client's buffer. -/
def overflows (alloc : Bool) (c : ConnPtr) (buf : List UInt8) (s : IoState) : Bool :=
  match obtainOutput alloc c s with
  | .ok (some s) => (s.outputs.record c).any fun oco => decide (oco.size < ((oco.count + buf.length + padlength buf.length : Nat) : Int))
  | _ => false

/-- When data do not fit, all other clients with unsent bytes are blocked. -/
def OthersBlocked (s : IoState) : OutputOp → Prop
  | .write alloc _ c buf => buf ≠ [] → overflows alloc c buf s = true →
      ∀ d conn, d ≠ c → s.conn d = some conn → unsent s d = true →
        s.clientsWriteBlocked conn.fd = true ∧ s.anyClientsWriteBlocked = true
  | _ => True

/-- Every connected client has a descriptor of its own, which leads to it. -/
structure Connected (s : IoState) : Prop where
  outputs : OutputsOk s
  fd_lt : ∀ c conn, s.conn c = some conn → conn.fd < maxSocks
  translation : ∀ c conn, s.conn c = some conn → s.connectionTranslation conn.fd = some c
  any : s.anyClientsWriteBlocked = anySet s.clientsWriteBlocked

variable {s s' s'' : IoState} {c d : ConnPtr} {conn conn' : Connection} {oco : ConnectionOutput} {fd : Nat}

theorem anySet_eq_true {mask : Nat → Bool} : anySet mask = true ↔ ∃ fd < maxSocks, mask fd = true := by
  rw [anySet, List.any_eq_true]
  exact ⟨fun ⟨fd, hm, h⟩ => ⟨fd, List.mem_range.1 hm, h⟩, fun ⟨fd, hlt, h⟩ => ⟨fd, List.mem_range.2 hlt, h⟩⟩

theorem anySet_bitSet {mask : Nat → Bool} (h : fd < maxSocks) : anySet (bitSet mask fd) = true :=
  anySet_eq_true.2 ⟨fd, h, Function.update_self ..⟩

theorem unsent_iff (h : OutputsOk s) : unsent s c = true ↔ bufferedOf s c ≠ [] := by
  rw [unsent, bufferedOf]
  rcases hr : s.outputs.record c with _ | oco
  · simp
  · have hlen := (h.ok c oco hr).length_buffered
    rw [Option.any_some, decide_eq_true_iff, Option.map_some, Option.getD_some, ← List.length_pos_iff, hlen]
    omega

/-! ### What a step on one client's output does -/

/-- The same clients are connected, with the same descriptors. -/
def SameClients (s s' : IoState) : Prop := ∀ c, (s'.conn c).map (·.fd) = (s.conn c).map (·.fd)

theorem SameClients.of_eq (h : s'.conns = s.conns) : SameClients s s' := fun c => by rw [IoState.conn, IoState.conn, h]

theorem SameClients.trans (h : SameClients s s') (h' : SameClients s' s'') : SameClients s s'' :=
  fun c => (h' c).trans (h c)

theorem SameClients.modifyConn {f : Connection → Connection} (hf : ∀ conn, (f conn).fd = conn.fd)
    (hgone : ∀ conn, (f conn).clientGone = conn.clientGone) : SameClients s (modifyConn c f s) := by
  intro d
  rw [IoState.conn, IoState.conn, get_modifyConn]
  split
  · rename_i hd
    subst hd
    rcases s.conns.get d with _ | conn
    · rfl
    · rw [Option.map_some, Option.filter_some, Option.filter_some, hgone]
      split
      · rw [Option.map_some, Option.map_some, hf]
      · rfl
  · rfl

theorem SameClients.connected (h : SameClients s s') (hc : s'.conn c = some conn') : ∃ conn, s.conn c = some conn ∧ conn.fd = conn'.fd := by
  have hm := h c
  rw [hc] at hm
  obtain ⟨conn, hconn, hfd⟩ := Option.map_eq_some_iff.1 hm.symm
  exact ⟨conn, hconn, hfd⟩

theorem SameClients.stays (h : SameClients s s') (hc : s.conn c = some conn) : ∃ conn', s'.conn c = some conn' ∧ conn'.fd = conn.fd := by
  have hm := h c
  rw [hc] at hm
  exact Option.map_eq_some_iff.1 hm

/-- Only the output of the client `c` with the descriptor `fd` changes; if it has unsent bytes after that, it is
blocked. -/
structure Flushes (c : ConnPtr) (fd : Nat) (s s' : IoState) : Prop where
  outputs : OutputsOk s'
  clients : SameClients s s'
  others : ∀ d, d ≠ c → bufferedOf s' d = bufferedOf s d
  translation : s'.connectionTranslation = s.connectionTranslation
  pending : s'.outputPending = s.outputPending
  new : s'.newOutputPending = s.newOutputPending
  blocked : ∀ fd', fd' ≠ fd → s'.clientsWriteBlocked fd' = s.clientsWriteBlocked fd'
  any : s'.anyClientsWriteBlocked = anySet s'.clientsWriteBlocked
  self : bufferedOf s' c ≠ [] → s'.clientsWriteBlocked fd = true

theorem unblock_masks (fd : Nat) (hany : s.anyClientsWriteBlocked = anySet s.clientsWriteBlocked) :
    (∀ fd', fd' ≠ fd → (s.unblock fd).clientsWriteBlocked fd' = s.clientsWriteBlocked fd') ∧
      (s.unblock fd).anyClientsWriteBlocked = anySet (s.unblock fd).clientsWriteBlocked := by
  unfold IoState.unblock
  split
  · exact ⟨fun fd' hne => Function.update_of_ne hne .., rfl⟩
  · exact ⟨fun _ _ => rfl, hany⟩

/-- What is not a mask stays. -/
theorem unblock_rest (s : IoState) (fd : Nat) : (s.unblock fd).connectionTranslation = s.connectionTranslation ∧
    (s.unblock fd).outputPending = s.outputPending ∧ (s.unblock fd).newOutputPending = s.newOutputPending := by
  unfold IoState.unblock
  split <;> exact ⟨rfl, rfl, rfl⟩

theorem releaseOutput_flushes (h : OutputsOk s) (hr : s.outputs.record c = some oco)
    (hany : s.anyClientsWriteBlocked = anySet s.clientsWriteBlocked) (he : releaseOutput c conn oco s = .ok s') :
    Flushes c conn.fd s s' := by
  obtain ⟨s₁, he₁, hok, hothers, hconns, hempty⟩ := releaseOutput_spec h hr conn
  cases he₁.symm.trans he
  unfold releaseOutput at he
  obtain ⟨pool, -, he⟩ := Exec.bind_eq_ok.1 he
  obtain ⟨ht, hp, hn⟩ := unblock_rest (setOutput c oco.clear s) conn.fd
  obtain ⟨hb, ha⟩ := unblock_masks (s := setOutput c oco.clear s) conn.fd hany
  refine ⟨hok, .of_eq hconns, fun d hd => hothers.buffered d hd, ?_, ?_, ?_, ?_, ?_, fun hne => absurd hempty hne⟩ <;>
    cases he
  exacts [ht, hp, hn, hb, ha]

theorem failOutput_flushes (h : OutputsOk s) (hc : s.conn c = some conn) (hr : s.outputs.record c = some oco)
    (hany : s.anyClientsWriteBlocked = anySet s.clientsWriteBlocked) : Flushes c conn.fd s (failOutput c oco s) := by
  obtain ⟨hok, hothers, -, hempty⟩ := failOutput_spec h (conn_eq_some.1 hc).1 hr
  exact ⟨hok, .trans (.of_eq rfl) (.modifyConn (fun _ => rfl) fun _ => rfl), fun d hd => hothers.buffered d hd, rfl, rfl, rfl,
    fun _ _ => rfl, hany, fun hne => absurd hempty hne⟩

/-- What happened before to the same client may be put in front. -/
theorem Flushes.after {s₀ : IoState} (h : Flushes c fd s s') (hclients : SameClients s₀ s)
    (hothers : ∀ d, d ≠ c → bufferedOf s d = bufferedOf s₀ d) (ht : s.connectionTranslation = s₀.connectionTranslation)
    (hp : s.outputPending = s₀.outputPending) (hn : s.newOutputPending = s₀.newOutputPending)
    (hb : ∀ fd', fd' ≠ fd → s.clientsWriteBlocked fd' = s₀.clientsWriteBlocked fd') : Flushes c fd s₀ s' where
  outputs := h.outputs
  clients := hclients.trans h.clients
  others d hd := (h.others d hd).trans (hothers d hd)
  translation := h.translation.trans ht
  pending := h.pending.trans hp
  new := h.new.trans hn
  blocked fd' hne := (h.blocked fd' hne).trans (hb fd' hne)
  any := h.any
  self := h.self

theorem flushClient_flushes (h : OutputsOk s) (hc : s.conn c = some conn) (hfd : conn.fd < maxSocks)
    (hany : s.anyClientsWriteBlocked = anySet s.clientsWriteBlocked) {env : FlushEnv} {extra : List UInt8} {n : Int}
    (hi : ∀ oco, s.outputs.record c = some oco → oco.count + (extra.length + padlength extra.length) ≤ intMax)
    (he : flushClient env c extra s = .ok (n, s')) : Flushes c conn.fd s s' := by
  rcases hr : s.outputs.record c with _ | oco
  · unfold flushClient at he
    rw [hc, Exec.deref_some, Exec.ok_bind, hr] at he
    cases he
    have hempty : bufferedOf s c = [] := by rw [bufferedOf, hr]; rfl
    exact ⟨h, .of_eq rfl, fun _ _ => rfl, rfl, rfl, rfl, fun _ _ => rfl, hany, fun hne => absurd hempty hne⟩
  · obtain ⟨hok, hothers⟩ : OutputsOk s' ∧ OtherOutputs c s s' := by
      rcases flushClient_spec h hc hr env extra (hi oco hr) with hfuel | ⟨n', s₁, conn', he', hok, hothers, -⟩
      · cases hfuel.symm.trans he
      · cases he'.symm.trans he
        exact ⟨hok, hothers⟩
    unfold flushClient at he
    rw [hc, Exec.deref_some, Exec.ok_bind, hr] at he
    dsimp only at he
    split at he
    · cases he
    obtain ⟨buffered, -, he⟩ := Exec.bind_eq_ok.1 he
    obtain ⟨⟨status, accepted⟩, -, he⟩ := Exec.bind_eq_ok.1 he
    have hclients : SameClients s (acceptOutput c accepted s) := .modifyConn (fun _ => rfl) fun _ => rfl
    have h₁ : OutputsOk (acceptOutput c accepted s) := h.modifyConn fun _ => rfl
    have hr₁ : (acceptOutput c accepted s).outputs.record c = some oco := hr
    obtain ⟨hget, hgone⟩ := conn_eq_some.1 hc
    have hc₁ := conn_eq_some.2 ⟨acceptOutput_get hget accepted, hgone⟩
    have hkeep : (acceptOutput c accepted s).connectionTranslation = s.connectionTranslation ∧
        (acceptOutput c accepted s).outputPending = s.outputPending ∧
        (acceptOutput c accepted s).newOutputPending = s.newOutputPending ∧
        (acceptOutput c accepted s).clientsWriteBlocked = s.clientsWriteBlocked ∧
        (acceptOutput c accepted s).anyClientsWriteBlocked = s.anyClientsWriteBlocked ∧
        ∀ d, bufferedOf (acceptOutput c accepted s) d = bufferedOf s d := ⟨rfl, rfl, rfl, rfl, rfl, fun _ => rfl⟩
    dsimp only at he
    generalize acceptOutput c accepted s = s₁ at he hclients h₁ hr₁ hc₁ hkeep
    obtain ⟨ht, hp, hn, hb, ha, hbuf⟩ := hkeep
    rcases status with _ | ⟨written, notWritten⟩ | _
    · obtain ⟨s₂, he₂, he⟩ := Exec.bind_eq_ok.1 he
      cases he
      exact (releaseOutput_flushes h₁ hr₁ (by rw [ha, hb]; exact hany) he₂).after hclients (fun d _ => hbuf d) ht hp hn
        fun _ _ => by rw [hb]
    · dsimp only at he
      obtain ⟨r, -, he⟩ := Exec.bind_eq_ok.1 he
      have hset : anySet (bitSet s₁.clientsWriteBlocked conn.fd) = true := anySet_bitSet hfd
      have hother : ∀ fd', fd' ≠ conn.fd → bitSet s₁.clientsWriteBlocked conn.fd fd' = s.clientsWriteBlocked fd' :=
        fun fd' hne => by rw [bitSet, Function.update_of_ne hne, hb]
      rcases r with _ | oco'
      · cases he
        have hsame : OutputsOk { s₁ with
            clientsWriteBlocked := bitSet s₁.clientsWriteBlocked conn.fd, anyClientsWriteBlocked := true } :=
          h₁.same (.of_eq rfl rfl)
        exact (failOutput_flushes hsame hc₁ hr₁ hset.symm).after hclients (fun d _ => hbuf d) ht hp hn hother
      · cases he
        exact ⟨hok, hclients.trans (.of_eq rfl), fun d hd => hothers.buffered d hd, ht, hp, hn, hother, hset.symm,
          fun _ => Function.update_self ..⟩
    · cases he
      exact (failOutput_flushes h₁ hc₁ hr₁ (by rw [ha, hb]; exact hany)).after hclients (fun d _ => hbuf d) ht hp hn
        fun _ _ => by rw [hb]

/-! ### Connected clients -/

namespace Connected

theorem injective (h : Connected s) (hc : s.conn c = some conn) (hd : s.conn d = some conn') (hfd : conn.fd = conn'.fd) :
    c = d := by
  have ht := h.translation c conn hc
  rw [hfd, h.translation d conn' hd] at ht
  exact (Option.some_inj.1 ht).symm

theorem flushes (h : Connected s) (hs : Flushes c fd s s') : Connected s' where
  outputs := hs.outputs
  fd_lt d conn hd := by
    obtain ⟨conn₀, h₀, hfd⟩ := hs.clients.connected hd
    rw [← hfd]
    exact h.fd_lt d conn₀ h₀
  translation d conn hd := by
    obtain ⟨conn₀, h₀, hfd⟩ := hs.clients.connected hd
    rw [hs.translation, ← hfd]
    exact h.translation d conn₀ h₀
  any := hs.any

/-- The masks may change. -/
theorem congr (h : Connected s) (ho : s'.outputs = s.outputs) (hc : s'.conns = s.conns)
    (ht : s'.connectionTranslation = s.connectionTranslation)
    (ha : s'.anyClientsWriteBlocked = anySet s'.clientsWriteBlocked) : Connected s' where
  outputs := h.outputs.same (.of_eq ho hc)
  fd_lt d conn hd := h.fd_lt d conn (by rw [IoState.conn, ← hc]; exact hd)
  translation d conn hd := by
    rw [ht]
    exact h.translation d conn (by rw [IoState.conn, ← hc]; exact hd)
  any := ha

end Connected

/-- The other clients stay scheduled. -/
theorem Flushes.scheduled (h : Connected s) (hs : Flushes c conn.fd s s') (hc : s.conn c = some conn)
    (hd : s.conn d = some conn') (hdc : d ≠ c) : Scheduled s' conn'.fd ↔ Scheduled s conn'.fd := by
  have hne : conn'.fd ≠ conn.fd := fun hfd => hdc (h.injective hd hc hfd)
  have hany : s'.clientsWriteBlocked conn'.fd = true ∧ s'.anyClientsWriteBlocked = true ↔
      s.clientsWriteBlocked conn'.fd = true ∧ s.anyClientsWriteBlocked = true := by
    rw [hs.blocked _ hne, hs.any, h.any]
    refine and_congr_right fun hb => ⟨fun _ => ?_, fun _ => ?_⟩
    · exact anySet_eq_true.2 ⟨_, h.fd_lt d conn' hd, hb⟩
    · exact anySet_eq_true.2 ⟨_, h.fd_lt d conn' hd, by rw [hs.blocked _ hne]; exact hb⟩
  rw [Scheduled, Scheduled, hs.pending, hs.new, hany]

/-! ### The steps -/

/-- A client with unsent bytes is blocked, if it is the one whose output changed, or else as it was before. -/
theorem Flushes.remembers {Q : Nat → Prop} (h : Connected s) (hs : Flushes c conn.fd s s') (hc : s.conn c = some conn)
    (ho : ∀ d conn', d ≠ c → s.conn d = some conn' → unsent s d = true → Scheduled s conn'.fd ∨ Q conn'.fd)
    (hd : s'.conn d = some conn') (hun : unsent s' d = true) : Scheduled s' conn'.fd ∨ Q conn'.fd := by
  have h' := h.flushes hs
  obtain ⟨conn₀, h₀, hfd⟩ := hs.clients.connected hd
  rw [← hfd]
  rw [unsent_iff h'.outputs] at hun
  by_cases hdc : d = c
  · subst hdc
    rw [hc, Option.some_inj] at h₀
    subst h₀
    have hb := hs.self hun
    exact .inl (.inr ⟨hb, by rw [hs.any]; exact anySet_eq_true.2 ⟨_, h.fd_lt d conn hc, hb⟩⟩)
  · rw [hs.others d hdc, ← unsent_iff h.outputs] at hun
    exact (ho d conn₀ hdc h₀ hun).imp_left (hs.scheduled h hc h₀ hdc).2

theorem flush_step (h : Connected s) {env : FlushEnv} {n : Int} (he : flushClient env c [] s = .ok (n, s')) :
    ∃ conn, s.conn c = some conn ∧ Flushes c conn.fd s s' := by
  have hconn : ∃ conn, s.conn c = some conn := by
    unfold flushClient at he
    obtain ⟨conn, hc, -⟩ := Exec.bind_eq_ok.1 he
    exact ⟨conn, Exec.deref_eq_ok.1 hc⟩
  obtain ⟨conn, hc⟩ := hconn
  exact ⟨conn, hc, flushClient_flushes h.outputs hc (h.fd_lt c conn hc) h.any
    (fun oco hr => by simpa [padlength] using (h.outputs.ok c oco hr).count_int) he⟩

/-- Nothing changes but what is kept of a connection. -/
structure Unchanged (s s' : IoState) : Prop where
  clients : SameClients s s'
  buffered : ∀ d, bufferedOf s' d = bufferedOf s d
  translation : s'.connectionTranslation = s.connectionTranslation
  pending : s'.outputPending = s.outputPending
  new : s'.newOutputPending = s.newOutputPending
  blocked : s'.clientsWriteBlocked = s.clientsWriteBlocked
  any : s'.anyClientsWriteBlocked = s.anyClientsWriteBlocked

theorem Unchanged.connected (hu : Unchanged s s') (h : Connected s) (hok : OutputsOk s') : Connected s' where
  outputs := hok
  fd_lt d conn hd := by
    obtain ⟨conn₀, h₀, hfd⟩ := hu.clients.connected hd
    rw [← hfd]
    exact h.fd_lt d conn₀ h₀
  translation d conn hd := by
    obtain ⟨conn₀, h₀, hfd⟩ := hu.clients.connected hd
    rw [hu.translation, ← hfd]
    exact h.translation d conn₀ h₀
  any := by rw [hu.any, hu.blocked, h.any]

theorem Unchanged.remembered (hu : Unchanged s s') (h : Connected s) (hok : OutputsOk s') (hr : Remembered s) :
    Remembered s' := by
  intro d conn hd hun
  obtain ⟨conn₀, h₀, hfd⟩ := hu.clients.connected hd
  rw [unsent_iff hok, hu.buffered, ← unsent_iff h.outputs] at hun
  rw [← hfd, Scheduled, hu.pending, hu.new, hu.blocked, hu.any]
  exact hr d conn₀ h₀ hun

theorem overflows_modifyConn {f : Connection → Connection} {alloc : Bool} {buf : List UInt8} :
    overflows alloc c buf (modifyConn c f s) = overflows alloc c buf s := by
  unfold overflows obtainOutput modifyConn
  dsimp only
  by_cases hh : (s.outputs.held c).isSome = true
  · rw [if_pos hh, if_pos hh]
  · rw [if_neg hh, if_neg hh]
    rcases s.outputs.take c alloc newOutput with e | _ | pool <;> rfl

/-- A write. There is no buffer for it, or the data fit in the buffer, or they are flushed together. -/
theorem writeToClient_cases (h : Connected s) {alloc : Bool} {env : FlushEnv} {buf : List UInt8} {n : Int}
    (he : writeToClient alloc env c buf s = .ok (n, s')) (hbuf : buf ≠ []) :
    ∃ conn, s.conn c = some conn ∧ (overflows alloc c buf s = false ∧ OutputsOk s' ∧ Unchanged s s' ∨
      ∃ s₁ oco, OutputsOk s₁ ∧ Unchanged s s₁ ∧ s₁.outputs.record c = some oco ∧
        (overflows alloc c buf s = false ∧ (∃ oco', oco'.Ok ∧ s' = setOutput c oco' { s₁ with
            newOutputPending := true, outputPending := bitSet s₁.outputPending conn.fd }) ∨
          overflows alloc c buf s = true ∧ oco.count + (buf.length + padlength buf.length) ≤ intMax ∧
            flushClient env c buf { s₁ with
              outputPending := bitClear s₁.outputPending conn.fd
              criticalOutputPending := false, newOutputPending := false } = .ok (n, s'))) := by
  unfold writeToClient at he
  rw [if_neg hbuf] at he
  obtain ⟨conn, hc, he⟩ := Exec.bind_eq_ok.1 he
  rw [Exec.deref_eq_ok] at hc
  refine ⟨conn, hc, ?_⟩
  obtain ⟨hget, hgone⟩ := conn_eq_some.1 hc
  dsimp only at he
  rw [← overflows_modifyConn (f := fun conn => { conn with written := conn.written ++ [buf] })]
  have hu : Unchanged s (modifyConn c (fun conn => { conn with written := conn.written ++ [buf] }) s) :=
    ⟨.modifyConn (fun _ => rfl) fun _ => rfl, fun _ => rfl, rfl, rfl, rfl, rfl, rfl⟩
  have h₁ : OutputsOk (modifyConn c (fun conn => { conn with written := conn.written ++ [buf] }) s) :=
    h.outputs.modifyConn fun _ => rfl
  generalize modifyConn c (fun conn => { conn with written := conn.written ++ [buf] }) s = s₁ at he hu h₁
  have hc₁ : (s₁.conn c).isSome = true := by
    obtain ⟨conn₁, hc₁, -⟩ := hu.clients.stays hc
    rw [hc₁]
    rfl
  unfold overflows
  rcases obtainOutput_spec h₁ hc₁ alloc with ⟨-, hnone⟩ | ⟨s₂, oco, -, hsome, h₂, hconns, hr, hb, hothers⟩
  · rw [hnone, Exec.ok_bind] at he
    cases he
    rw [hnone]
    refine .inl ⟨rfl, h₁.modifyConn fun _ => rfl, ?_⟩
    exact ⟨hu.clients.trans (.modifyConn (fun _ => rfl) fun _ => rfl), hu.buffered, hu.translation, hu.pending, hu.new,
      hu.blocked, hu.any⟩
  · right
    have hrest : ∃ outputs, s₂ = { s₁ with outputs } := by
      unfold obtainOutput at hsome
      split at hsome
      · cases hsome
        exact ⟨s₁.outputs, rfl⟩
      · obtain ⟨r, -, hsome⟩ := Exec.bind_eq_ok.1 hsome
        rcases r with _ | pool
        · cases hsome
        · cases hsome
          exact ⟨pool, rfl⟩
    have hu₂ : Unchanged s s₂ := by
      refine ⟨hu.clients.trans (.of_eq hconns), fun d => ?_, ?_, ?_, ?_, ?_, ?_⟩
      · rw [← hu.buffered]
        by_cases hd : d = c
        · rw [hd, ← hb, bufferedOf_record hr]
        · exact hothers.buffered d hd
      all_goals
        obtain ⟨outputs, rfl⟩ := hrest
      exacts [hu.translation, hu.pending, hu.new, hu.blocked, hu.any]
    refine ⟨s₂, oco, h₂, hu₂, hr, ?_⟩
    rw [hsome, Exec.ok_bind] at he
    rw [hsome]
    dsimp only at he ⊢
    rw [hr, Exec.deref_some, Exec.ok_bind] at he
    rw [hr, Option.any_some]
    split at he
    · cases he
    rename_i hfit
    split at he
    · rename_i hover
      exact .inr ⟨decide_eq_true hover, by omega, he⟩
    · rename_i hover
      obtain ⟨data, hdata, he⟩ := Exec.bind_eq_ok.1 he
      have hst := Memory.store_eq_ok.1 hdata
      have hok := h₂.ok c oco hr
      have hsize := hok.size_le
      cases he
      refine .inl ⟨decide_eq_false hover, _, ⟨?_, ?_, ?_⟩, rfl⟩ <;> dsimp only
      · rw [hst.length]
        exact hsize
      · rw [hst.length]
        omega
      · omega

/-- The state in which data that do not fit are flushed: the clients that are scheduled are the blocked ones. -/
structure Overflowing (s s₁ : IoState) : Prop where
  connected : Connected s₁
  clients : SameClients s s₁
  buffered : ∀ d, bufferedOf s₁ d = bufferedOf s d
  scheduled : ∀ fd, Scheduled s₁ fd ↔ s.clientsWriteBlocked fd = true ∧ s.anyClientsWriteBlocked = true

theorem overflowing (h : Connected s) {s₁ : IoState} {env : FlushEnv} {buf : List UInt8} {n : Int} (hok : OutputsOk s₁)
    (hu : Unchanged s s₁) (hc : s.conn c = some conn) (hrec : s₁.outputs.record c = some oco)
    (hi : oco.count + (buf.length + padlength buf.length) ≤ intMax)
    (he : flushClient env c buf { s₁ with
      outputPending := bitClear s₁.outputPending conn.fd
      criticalOutputPending := false, newOutputPending := false } = .ok (n, s')) :
    ∃ s₂ conn₂, Overflowing s s₂ ∧ s₂.conn c = some conn₂ ∧ Flushes c conn₂.fd s₂ s' := by
  have h₁ := hu.connected h hok
  obtain ⟨conn₁, hc₁, -⟩ := hu.clients.stays hc
  generalize hs₂ : ({ s₁ with
    outputPending := bitClear s₁.outputPending conn.fd
    criticalOutputPending := false, newOutputPending := false } : IoState) = s₂ at he
  have h₂ : Overflowing s s₂ := by
    subst hs₂
    refine ⟨h₁.congr rfl rfl rfl h₁.any, hu.clients.trans (.of_eq rfl), hu.buffered, fun fd => ?_⟩
    rw [← hu.blocked, ← hu.any]
    exact ⟨fun hsched => hsched.resolve_left fun hp => absurd hp.2 (by simp), .inr⟩
  have hc₂ : s₂.conn c = some conn₁ := by
    subst hs₂
    exact hc₁
  have hrec₂ : s₂.outputs.record c = some oco := by
    subst hs₂
    exact hrec
  refine ⟨s₂, conn₁, h₂, hc₂, flushClient_flushes h₂.connected.outputs hc₂ (h₂.connected.fd_lt c conn₁ hc₂) h₂.connected.any
    (fun oco₁ hr₁ => ?_) he⟩
  rw [hrec₂, Option.some_inj] at hr₁
  subst hr₁
  exact hi

/-- What `WriteToClient` does when the data do not fit, and all others are blocked. -/
theorem write_remembered (h : Connected s) (hr : Remembered s) {alloc : Bool} {env : FlushEnv} {buf : List UInt8} {n : Int}
    (he : writeToClient alloc env c buf s = .ok (n, s')) (hblocked : OthersBlocked s (.write alloc env c buf)) :
    Connected s' ∧ Remembered s' := by
  by_cases hbuf : buf = []
  · rw [writeToClient, if_pos hbuf] at he
    cases he
    exact ⟨h, hr⟩
  obtain ⟨conn, hc, ⟨-, hok, hu⟩ | ⟨s₁, oco, hok, hu, hrec, ⟨-, oco', hok', rfl⟩ | ⟨hover, hi, he⟩⟩⟩ :=
    writeToClient_cases h he hbuf
  · exact ⟨hu.connected h hok, hu.remembered h hok hr⟩
  · -- the data are buffered
    have h₁ := hu.connected h hok
    have hr₁ := hu.remembered h hok hr
    generalize hs₂ : ({ s₁ with
      newOutputPending := true, outputPending := bitSet s₁.outputPending conn.fd } : IoState) = s₂
    have h₂ : Connected s₂ := by
      subst hs₂
      exact h₁.congr rfl rfl rfl h₁.any
    have hrec₂ : s₂.outputs.record c = some oco := by
      subst hs₂
      exact hrec
    obtain ⟨hok₃, hothers, -⟩ := h₂.outputs.setOutput hrec₂ hok'
    have h₃ : Connected (setOutput c oco' s₂) := ⟨hok₃, h₂.fd_lt, h₂.translation, h₂.any⟩
    refine ⟨h₃, fun d conn' hd hun => ?_⟩
    by_cases hfd : conn'.fd = conn.fd
    · rw [hfd]
      subst hs₂
      exact .inl ⟨Function.update_self .., rfl⟩
    · have hdc : d ≠ c := by
        rintro rfl
        have hd₁ : s₁.conn d = some conn' := by
          subst hs₂
          exact hd
        obtain ⟨conn₀, h₀, hfd₀⟩ := hu.clients.connected hd₁
        rw [hc, Option.some_inj] at h₀
        subst h₀
        exact hfd hfd₀.symm
      rw [unsent_iff hok₃, hothers.buffered d hdc] at hun
      subst hs₂
      have hun₁ : unsent s₁ d = true := (unsent_iff hok).2 hun
      rcases hr₁ d conn' hd hun₁ with ⟨hp, -⟩ | hblocked
      · exact .inl ⟨by rw [← hp]; exact Function.update_of_ne hfd .., rfl⟩
      · exact .inr hblocked
  · -- they are flushed out
    obtain ⟨s₂, conn₂, ho, hc₂, hs⟩ := overflowing h hok hu hc hrec hi he
    refine ⟨ho.connected.flushes hs, fun d conn' hd hun => (hs.remembers (Q := fun _ => False) ho.connected hc₂
      (fun d conn' hdc hd hun => .inl ?_) hd hun).resolve_right id⟩
    obtain ⟨conn₀, h₀, hfd⟩ := ho.clients.connected hd
    rw [unsent_iff ho.connected.outputs, ho.buffered, ← unsent_iff h.outputs] at hun
    rw [← hfd, ho.scheduled]
    exact hblocked hbuf hover d conn₀ hdc h₀ hun

/-- Another client with unsent bytes that is not blocked is forgotten when the data do not fit. -/
theorem write_forgets (h : Connected s) {alloc : Bool} {env : FlushEnv} {buf : List UInt8} {n : Int}
    (he : writeToClient alloc env c buf s = .ok (n, s')) (hnot : ¬ OthersBlocked s (.write alloc env c buf)) :
    ¬ Remembered s' := by
  rw [OthersBlocked] at hnot
  push Not at hnot
  obtain ⟨hbuf, hover, d, conn', hdc, hd, hun, hblocked⟩ := hnot
  obtain ⟨conn, hc, ⟨hno, -⟩ | ⟨s₁, oco, hok, hu, hrec, ⟨hno, -⟩ | ⟨-, hi, he⟩⟩⟩ := writeToClient_cases h he hbuf
  · exact absurd (hno.symm.trans hover) (by simp)
  · exact absurd (hno.symm.trans hover) (by simp)
  intro hrem
  obtain ⟨s₂, conn₂, ho, hc₂, hs⟩ := overflowing h hok hu hc hrec hi he
  obtain ⟨conn₃, hd₂, hfd⟩ := ho.clients.stays hd
  obtain ⟨conn₄, hd₄, hfd₄⟩ := hs.clients.stays hd₂
  have hun' : unsent s' d = true := by
    rw [unsent_iff (ho.connected.flushes hs).outputs, hs.others d hdc, ho.buffered, ← unsent_iff h.outputs]
    exact hun
  have hsched := hrem d conn₄ hd₄ hun'
  rw [hfd₄, hs.scheduled ho.connected hc₂ hd₂ hdc, hfd, ho.scheduled] at hsched
  exact hblocked hsched.1 hsched.2

/-- In the loop of `FlushAllOutput` some descriptors are still to come. -/
def Awaits (l : List Nat) (s : IoState) : Prop :=
  ∀ c conn, s.conn c = some conn → unsent s c = true → Scheduled s conn.fd ∨ conn.fd ∈ l

theorem flushPending_awaits {env : ConnPtr → FlushEnv} {l : List Nat} (h : Connected s) (ha : Awaits (fd :: l) s)
    (he : flushPending env s fd = .ok s') : Connected s' ∧ Awaits l s' := by
  -- a client is done with if it is not the one at this descriptor
  have hrest : ∀ d conn', s.conn d = some conn' → unsent s d = true → conn'.fd ≠ fd → Scheduled s conn'.fd ∨ conn'.fd ∈ l :=
    fun d conn' hd hun hne => (ha d conn' hd hun).imp_right fun hm => (List.mem_cons.1 hm).resolve_left hne
  unfold flushPending at he
  split at he
  · rename_i hnone
    cases he
    refine ⟨h, fun d conn' hd hun => hrest d conn' hd hun ?_⟩
    rintro rfl
    exact absurd (hnone.symm.trans (h.translation d conn' hd)) (by simp)
  rename_i c htrans
  obtain ⟨conn, hget, he⟩ := Exec.bind_eq_ok.1 he
  rw [Exec.deref_eq_ok] at hget
  have hhere : ∀ d conn', s.conn d = some conn' → conn'.fd = fd → d = c := by
    intro d conn' hd hfd
    have ht := h.translation d conn' hd
    rw [hfd, htrans, Option.some_inj] at ht
    exact ht.symm
  split at he
  · rename_i hgone
    cases he
    refine ⟨h, fun d conn' hd hun => hrest d conn' hd hun fun hfd => ?_⟩
    obtain ⟨hget', hgone'⟩ := conn_eq_some.1 hd
    rw [hhere d conn' hd hfd, hget, Option.some_inj] at hget'
    subst hget'
    exact absurd (hgone'.symm.trans hgone) (by simp)
  rename_i hgone
  have hc : s.conn c = some conn := conn_eq_some.2 ⟨hget, by simpa using hgone⟩
  split at he
  · cases he
    refine ⟨h.congr rfl rfl rfl h.any, fun d conn' hd hun => ?_⟩
    by_cases hfd : conn'.fd = conn.fd
    · rw [hfd]
      exact .inl (.inl ⟨Function.update_self .., rfl⟩)
    · have hne : conn'.fd ≠ fd := by
        intro hfd'
        have hdc := hhere d conn' hd hfd'
        subst hdc
        have hd : s.conn d = some conn' := hd
        rw [hc, Option.some_inj] at hd
        subst hd
        exact hfd rfl
      rcases hrest d conn' hd hun hne with (⟨hp, -⟩ | hb) | hm
      · exact .inl (.inl ⟨by rw [← hp]; exact Function.update_of_ne hfd .., rfl⟩)
      · exact .inl (.inr hb)
      · exact .inr hm
  · obtain ⟨⟨n, s₁⟩, he₁, he⟩ := Exec.bind_eq_ok.1 he
    cases he
    obtain ⟨conn₀, hc₀, hs⟩ := flush_step h he₁
    rw [hc, Option.some_inj] at hc₀
    subst hc₀
    exact ⟨h.flushes hs, fun d conn' hd hun => hs.remembers h hc
      (fun d conn' hdc hd hun => hrest d conn' hd hun fun hfd => hdc (hhere d conn' hd hfd)) hd hun⟩

theorem flushAll_remembered {env : ConnPtr → FlushEnv} (h : Connected s) (hr : Remembered s)
    (he : flushAllOutput env s = .ok s') : Connected s' ∧ Remembered s' := by
  unfold flushAllOutput at he
  split at he
  · cases he
    exact ⟨h, hr⟩
  rename_i hnew
  have hloop : ∀ (l : List Nat) (s : IoState), Connected s → Awaits l s → l.foldlM (flushPending env) s = .ok s' →
      Connected s' ∧ Awaits [] s' := by
    intro l
    induction l with
    | nil =>
      intro s h ha he
      rw [Exec.foldlM_nil_eq_ok] at he
      subst he
      exact ⟨h, ha⟩
    | cons fd l ih =>
      intro s h ha he
      obtain ⟨t, ht, he⟩ := Exec.foldlM_cons_eq_ok.1 he
      obtain ⟨h', ha'⟩ := flushPending_awaits h ha ht
      exact ih t h' ha' he
  generalize hs₁ : ({ s with
    criticalOutputPending := false, newOutputPending := false, outputPending := fun _ => false } : IoState) = s₁ at he
  have h₁ : Connected s₁ := by
    subst hs₁
    exact h.congr rfl rfl rfl h.any
  have ha₁ : Awaits ((List.range maxSocks).filter s.outputPending) s₁ := by
    intro c conn hc hun
    subst hs₁
    rcases hr c conn hc hun with ⟨hp, -⟩ | hb
    · exact .inr (List.mem_filter.2 ⟨List.mem_range.2 (h.fd_lt c conn hc), hp⟩)
    · exact .inl (.inr hb)
  obtain ⟨h', ha⟩ := hloop _ s₁ h₁ ha₁ he
  exact ⟨h', fun c conn hc hun => (ha c conn hc hun).resolve_right List.not_mem_nil⟩

theorem becomeWritable_remembered {clientsWritable : Nat → Bool} (h : Connected s) (hr : Remembered s) :
    Connected (becomeWritable clientsWritable s) ∧ Remembered (becomeWritable clientsWritable s) := by
  unfold becomeWritable
  split
  · refine ⟨h.congr rfl rfl rfl rfl, fun c conn hc hun => ?_⟩
    rcases hr c conn hc hun with ⟨hp, -⟩ | ⟨hb, -⟩
    · exact .inl ⟨by simp [hp], rfl⟩
    · by_cases hw : clientsWritable conn.fd = true
      · exact .inl ⟨by simp [hw], rfl⟩
      · have hstill : (s.clientsWriteBlocked conn.fd && ! clientsWritable conn.fd) = true := by simp [hb, hw]
        have hany : anySet (fun fd => s.clientsWriteBlocked fd && ! clientsWritable fd) = true :=
          anySet_eq_true.2 ⟨conn.fd, h.fd_lt c conn hc, hstill⟩
        exact .inr ⟨hstill, hany⟩
  · exact ⟨h, hr⟩

/-- A step. -/
theorem outputStep_remembered {r : OutputOp} (h : Connected s) (hr : Remembered s) (hblocked : OthersBlocked s r)
    (he : outputStep s r = .ok s') : Connected s' ∧ Remembered s' := by
  rcases r with ⟨alloc, env, c, buf⟩ | ⟨env, c⟩ | env | clientsWritable | clientsWithInput
  · obtain ⟨⟨n, s₁⟩, he₁, rfl⟩ := Exec.map_eq_ok.1 he
    exact write_remembered h hr he₁ hblocked
  · obtain ⟨⟨n, s₁⟩, he₁, rfl⟩ := Exec.map_eq_ok.1 he
    obtain ⟨conn, hc, hs⟩ := flush_step h he₁
    exact ⟨h.flushes hs, fun d conn' hd hun => (hs.remembers (Q := fun _ => False) h hc
      (fun d conn' _ hd hun => .inl (hr d conn' hd hun)) hd hun).resolve_right id⟩
  · exact flushAll_remembered h hr he
  · cases he
    exact becomeWritable_remembered h hr
  · cases he
    exact ⟨h.congr rfl rfl rfl h.any, hr⟩

/-- In a run on the output of connected clients, each of them with a descriptor of its own, no unsent bytes are
ever forgotten exactly if whenever data do not fit in a buffer, all other clients with unsent bytes are blocked. -/
theorem remembered_iff {s₀ : IoState} {l : List OutputOp} (h : Connected s₀) (hr : Remembered s₀)
    (he : l.foldlM outputStep s₀ = .ok s) :
    Always outputStep Remembered l s₀ ↔ Each outputStep OthersBlocked l s₀ := by
  have hruns : Each outputStep (fun s r => ∃ s', outputStep s r = .ok s') l s₀ := by
    clear h hr
    induction l generalizing s₀ with
    | nil => trivial
    | cons r l ih =>
      obtain ⟨t, ht, he⟩ := Exec.foldlM_cons_eq_ok.1 he
      refine ⟨⟨t, ht⟩, fun s' hs' => ?_⟩
      cases ht.symm.trans hs'
      exact ih he
  refine always_iff_each (I := fun s => Connected s ∧ Remembered s) (fun s hi => hi.2)
    (fun s r s' hi _ hb he => outputStep_remembered hi.1 hi.2 hb he) (fun s r hi hrun hnot => ?_) ⟨h, hr⟩ hruns
  obtain ⟨s', he⟩ := hrun
  refine ⟨s', he, ?_⟩
  rcases r with ⟨alloc, env, c, buf⟩ | ⟨env, c⟩ | env | clientsWritable | clientsWithInput
  · obtain ⟨⟨n, s₁⟩, he₁, rfl⟩ := Exec.map_eq_ok.1 he
    exact write_forgets hi.1 he₁ hnot
  all_goals exact absurd trivial hnot

/-- A client that has sent all that it sends. -/
def silentClient (fd : Nat) : Connection :=
  { fd, order := .little, socket := []
    origin := { order := .little, fake := [], stream := [], react := fun _ => .done } }

/-- Two clients. -/
def twoClients : IoState where
  conns := (Heap.empty.alloc (silentClient 3)).alloc (silentClient 4)
  connectionTranslation := Function.update (Function.update (fun _ => none) 3 (some 0)) 4 (some 1)

theorem twoClients_connected : Connected twoClients ∧ Remembered twoClients := by
  have hconn : ∀ c conn, twoClients.conn c = some conn → c = 0 ∧ conn = silentClient 3 ∨ c = 1 ∧ conn = silentClient 4 := by
    intro c conn hc
    obtain ⟨hget, -⟩ := conn_eq_some.1 hc
    rcases c with _ | _ | c
    · cases hget
      exact .inl ⟨rfl, rfl⟩
    · cases hget
      exact .inr ⟨rfl, rfl⟩
    · cases hget
  have hok : OutputsOk twoClients := ⟨Pool.sound_empty, fun c oco h => (by cases h), fun c p h => (by cases h)⟩
  refine ⟨⟨hok, fun c conn hc => ?_, fun c conn hc => ?_, ?_⟩, fun c conn _ hun => (by cases hun)⟩
  · rcases hconn c conn hc with ⟨-, rfl⟩ | ⟨-, rfl⟩ <;> decide
  · rcases hconn c conn hc with ⟨rfl, rfl⟩ | ⟨rfl, rfl⟩ <;> rfl
  · decide

/-- A socket that takes some bytes. -/
def takes (n : Nat) : FlushEnv := { writes := [.upTo n], grow := true, padBuffer := fun _ => 0 }

/-- A few bytes are written, and flushed with all others. -/
theorem smallReply_remembered : Always outputStep Remembered
    [.write true (takes 0) 0 [1, 2, 3, 4], .flushAll fun _ => takes 4] twoClients := by
  have hrun : ((([.write true (takes 0) 0 [1, 2, 3, 4], .flushAll fun _ => takes 4] : List OutputOp).foldlM outputStep
      twoClients).toOption.isSome) = true := by decide +kernel
  obtain ⟨s, hs⟩ := Option.isSome_iff_exists.1 hrun
  exact (remembered_iff twoClients_connected.1 twoClients_connected.2 (Exec.toOption_eq_some.1 hs)).2
    ⟨fun _ hover => absurd hover (by decide +kernel), fun _ _ => ⟨trivial, fun _ _ => trivial⟩⟩

/-- While a few bytes wait for the first client, the second one is sent more than its buffer holds. -/
def longReply : List OutputOp :=
  [.write true (takes 0) 0 [1, 2, 3, 4], .write true (takes 4100) 1 (List.replicate 4100 0)]

/-- The bytes of the first client are forgotten. -/
theorem longReply_forgets : ¬ Always outputStep Remembered longReply twoClients := by
  intro h
  have hrun : ((longReply.foldlM outputStep twoClients).toOption.any fun s =>
      (s.conn 0).any (·.fd == 3) && unsent s 0 && ! s.newOutputPending && ! s.anyClientsWriteBlocked) = true := by
    decide +kernel
  obtain ⟨s, hs, hrun⟩ := (Option.any_eq_true ..).1 hrun
  simp only [Bool.and_eq_true, Bool.not_eq_true'] at hrun
  obtain ⟨⟨⟨hc, hun⟩, hnew⟩, hany⟩ := hrun
  obtain ⟨conn, hc, -⟩ := (Option.any_eq_true ..).1 hc
  rcases h.run (Exec.toOption_eq_some.1 hs) 0 conn hc hun with ⟨-, hn⟩ | ⟨-, ha⟩
  · exact absurd (hnew.symm.trans hn) (by simp)
  · exact absurd (hany.symm.trans ha) (by simp)

end Nas.Io
