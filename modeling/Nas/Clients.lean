import Nas.Exec
import Mathlib.Data.List.Range
import Mathlib.Logic.Function.Basic

/-!
# Clients

The client array of `dispatch.c`: `NextAvailableClient`, `ProcInitialConnection` and
`ProcEstablishConnection` as far as they concern it, `CloseDownClient` with all that calls it, and the end
of `Dispatch` with the next generation of the server.

`ClientArray.live` counts the clients that have completed their connection set-up and are not gone.
`ArrayOk` is what holds of the array in runs whose closings are `Careful`; there `nClients` is that count,
and a closing resets the server exactly if it was the last one of them (`client_accounting`).
-/

namespace Nas.Clients

def maxClients : Nat := 128

inductive CloseDownMode where
  | destroy
  | retainPermanent
  | retainTemporary
deriving DecidableEq, Repr

/-- `ClientRec`, of which `established` says that the request vector is not `InitialVector` any more. -/
structure Client where
  established : Bool := false
  clientGone : Bool := false
  closeDownMode : CloseDownMode := .destroy
deriving DecidableEq, Repr

/-- What a pointer of the array points to. -/
inductive Slot where
  | null
  | freed
  | client (r : Client)
deriving DecidableEq, Repr

structure ClientArray where
  clients : Nat → Slot := Function.update (fun _ => .null) 0 (.client {})
  currentMaxClients : Nat := 1
  nextFreeClientID : Nat := 1
  nClients : Int := 0
  /-- `DE_RESET` and `DE_TERMINATE` of `dispatchException`. -/
  reset : Bool := false
  terminate : Bool := false
  terminateAtReset : Bool := false
  running : Bool := true

/-- A client that has completed its set-up and is not gone. -/
def Client.live (r : Client) : Bool := r.established && ! r.clientGone

def Slot.live : Slot → Bool
  | client r => r.live
  | _ => false

def Slot.used : Slot → Bool
  | null => false
  | _ => true

namespace ClientArray
variable (s : ClientArray)

/-- `dispatchException` -/
def dispatchException : Bool := s.reset || s.terminate

def set (i : Nat) (slot : Slot) : ClientArray := { s with clients := Function.update s.clients i slot }

def live : Nat := (List.range maxClients).countP fun i => (s.clients i).live

end ClientArray

/-- `while (!clients[currentMaxClients - 1]) currentMaxClients--;` -/
def lowerMax (clients : Nat → Slot) : Nat → Nat
  | 0 => 0
  | n + 1 => if (clients n).used then n + 1 else lowerMax clients n

/-- `while ((nextFreeClientID < MAXCLIENTS) && clients[nextFreeClientID]) nextFreeClientID++;` -/
def raiseFree (clients : Nat → Slot) : (left : Nat) → Nat → Nat
  | 0, i => i
  | left + 1, i => if (clients i).used then raiseFree clients left (i + 1) else i

/-- A client is taken out of the array. -/
def removeClient (i : Nat) (s : ClientArray) : ClientArray :=
  { s.set i .null with nextFreeClientID := min i s.nextFreeClientID }

def raiseException (s : ClientArray) : ClientArray :=
  if s.terminateAtReset then { s with terminate := true } else { s with reset := true }

/-- `CloseDownClient` of the client `r` at `i`. -/
def closeDownClient (i : Nat) (r : Client) (s : ClientArray) : ClientArray :=
  let s :=
    if ¬ r.clientGone then
      if r.closeDownMode = .destroy then
        let s := removeClient i s
        let s := { s with nClients := s.nClients - 1 }
        if s.nClients = 0 ∧ r.established then raiseException s else s
      else { s.set i (.client { r with clientGone := true }) with nClients := s.nClients - 1 }
    else removeClient i s
  { s with currentMaxClients := lowerMax s.clients s.currentMaxClients }

/-- `CloseDownClient` of each client of the array for which `p` holds. The array may become smaller on the
way. -/
def closeEach (p : Client → Bool) (s : ClientArray) : Exec ClientArray :=
  (List.range' 1 (maxClients - 1)).foldlM (fun s i =>
    if i < s.currentMaxClients then
      match s.clients i with
      | .null => .ok s
      | .freed => .error .fault
      | .client r => .ok (if p r then closeDownClient i r s else s)
    else .ok s) s

def killAllClients : ClientArray → Exec ClientArray := closeEach fun _ => true

def closeDownRetainedResources : ClientArray → Exec ClientArray :=
  closeEach fun r => r.closeDownMode == .retainTemporary && r.clientGone

/-- How far `NextAvailableClient` comes. -/
inductive Allocation where
  | noClient
  | noResources
  | done
deriving DecidableEq, Repr

/-- `NextAvailableClient`. When there are no resources, or there is no room for the first request, the
client is freed, and the array points to it still. -/
def nextAvailableClient (a : Allocation) (s : ClientArray) : ClientArray :=
  let i := s.nextFreeClientID
  if i = maxClients then s
  else
    match a with
    | .noClient => s.set i .null
    | .noResources => s.set i .freed
    | .done =>
      let s := s.set i (.client {})
      { s with
        currentMaxClients := if i = s.currentMaxClients then i + 1 else s.currentMaxClients
        nextFreeClientID := raiseFree s.clients (maxClients - i) i }

/-- What happens to the client at a place of the array, if there is one and it is as `p` says. The client at
0 is the server's own: it has no connection and makes no requests. -/
def withClient (i : Nat) (p : Client → Bool) (f : Client → ClientArray) (s : ClientArray) : Exec ClientArray :=
  if i = 0 then .ok s
  else
    match s.clients i with
    | .null => .ok s
    | .freed => .error .fault
    | .client r => .ok (if p r then f r else s)

/-- `ProcInitialConnection`: the byte order is valid, or the client is closed. -/
def procInitialConnection (i : Nat) (valid : Bool) (s : ClientArray) : Exec ClientArray :=
  withClient i (fun r => ! r.established && ! r.clientGone) (fun r => if valid then s else closeDownClient i r s) s

/-- `ProcEstablishConnection`: the client is authorised, or it is closed. -/
def procEstablishConnection (i : Nat) (authorised : Bool) (s : ClientArray) : Exec ClientArray :=
  withClient i (fun r => ! r.established && ! r.clientGone) (fun r =>
    if authorised then { s.set i (.client { r with established := true }) with nClients := s.nClients + 1 }
    else closeDownClient i r s) s

def procAuSetCloseDownMode (i : Nat) (mode : CloseDownMode) (s : ClientArray) : Exec ClientArray :=
  withClient i (·.live) (fun r => s.set i (.client { r with closeDownMode := mode })) s

/-- `ProcAuKillClient` with an id of the client at `i`. -/
def procAuKillClient (i : Nat) (s : ClientArray) : Exec ClientArray :=
  withClient i (·.established) (fun r => closeDownClient i r s) s

/-- The connection of a client is closed: it was cut, it failed, or its set-up took too long. -/
def closeConnection (i : Nat) (s : ClientArray) : Exec ClientArray :=
  withClient i (! ·.clientGone) (fun r => closeDownClient i r s) s

/-- The end of `Dispatch`, and the next generation unless the server ends. -/
def restart (s : ClientArray) : Exec ClientArray := do
  let s ← killAllClients s
  if s.terminate then .ok { s with reset := false, running := false }
  else .ok { s with reset := false, currentMaxClients := 1, nextFreeClientID := 1, nClients := 0 }

inductive ClientInput where
  | connect (a : Allocation)
  | initialConnection (i : Nat) (valid : Bool)
  | establishConnection (i : Nat) (authorised : Bool)
  | setCloseDownMode (i : Nat) (mode : CloseDownMode)
  | killClient (i : Nat)
  | killRetained
  | closeConnection (i : Nat)
  | restart
deriving DecidableEq, Repr

/-- Once there is an exception, `Dispatch` serves no other client before it ends: what can still come are
requests of a client it is serving. -/
def step (s : ClientArray) (r : ClientInput) : Exec ClientArray :=
  if ! s.running then .ok s
  else
    match r with
    | .connect a => .ok (if s.dispatchException then s else nextAvailableClient a s)
    | .initialConnection i valid => if s.dispatchException then .ok s else procInitialConnection i valid s
    | .establishConnection i authorised =>
      if s.dispatchException then .ok s else procEstablishConnection i authorised s
    | .setCloseDownMode i mode => procAuSetCloseDownMode i mode s
    | .killClient i => procAuKillClient i s
    | .killRetained => closeDownRetainedResources s
    | .closeConnection i => closeConnection i s
    | .restart => if s.dispatchException then restart s else .ok s

/-! ### Counting -/

theorem countP_congr_range {n : Nat} {p q : Nat → Bool} (h : ∀ j, j < n → p j = q j) :
    (List.range n).countP p = (List.range n).countP q :=
  List.countP_congr fun j hj => by rw [h j (List.mem_range.1 hj)]

/-- One more place counts, or one less. -/
theorem countP_update {α : Type} (p : α → Bool) (f : Nat → α) (a : α) {i n : Nat} (hi : i < n) :
    (List.range n).countP (fun j => p (Function.update f i a j)) + (p (f i)).toNat =
      (List.range n).countP (fun j => p (f j)) + (p a).toNat := by
  induction n with
  | zero => cases hi
  | succ n ih =>
    rw [List.range_succ, List.countP_append, List.countP_append, List.countP_singleton, List.countP_singleton]
    rcases Nat.lt_succ_iff_lt_or_eq.1 hi with hlt | rfl
    · have := ih hlt
      rw [Function.update_of_ne (Nat.ne_of_gt hlt)]
      omega
    · have hrest : (List.range i).countP (fun j => p (Function.update f i a j)) =
          (List.range i).countP (fun j => p (f j)) :=
        countP_congr_range fun j hj => by rw [Function.update_of_ne (Nat.ne_of_lt hj)]
      rw [hrest, Function.update_self]
      cases p a <;> cases p (f i) <;> simp

namespace ClientArray
variable {s : ClientArray} {i j : Nat} {slot : Slot}

theorem set_clients : (s.set i slot).clients j = if j = i then slot else s.clients j := Function.update_apply ..

theorem live_set (slot : Slot) (hi : i < maxClients) : (s.set i slot).live + (s.clients i).live.toNat = s.live + slot.live.toNat :=
  countP_update Slot.live s.clients slot hi

theorem live_congr {s' : ClientArray} (h : s'.clients = s.clients) : s'.live = s.live := by rw [live, live, h]

theorem live_eq_zero : s.live = 0 ↔ ∀ i, i < maxClients → (s.clients i).live = false := by
  rw [live, List.countP_eq_zero]
  simp

end ClientArray

theorem lowerMax_le (clients : Nat → Slot) (n : Nat) : lowerMax clients n ≤ n := by
  induction n with
  | zero => exact le_rfl
  | succ n ih =>
    rw [lowerMax]
    split
    · exact le_rfl
    · exact ih.trans (Nat.le_succ n)

/-- All clients stay below the bound. -/
theorem lt_lowerMax {clients : Nat → Slot} {n i : Nat} (hi : (clients i).used = true) (hn : i < n) :
    i < lowerMax clients n := by
  induction n with
  | zero => cases hn
  | succ n ih =>
    rw [lowerMax]
    split
    · exact hn
    · rcases Nat.lt_succ_iff_lt_or_eq.1 hn with hlt | rfl
      · exact ih hlt
      · contradiction

theorem raiseFree_spec (clients : Nat → Slot) (left i : Nat) :
    i ≤ raiseFree clients left i ∧ raiseFree clients left i ≤ i + left ∧
      (∀ j, i ≤ j → j < raiseFree clients left i → (clients j).used = true) ∧
      (raiseFree clients left i < i + left → (clients (raiseFree clients left i)).used = false) := by
  induction left generalizing i with
  | zero => exact ⟨le_rfl, le_rfl, fun j h h' => absurd h (Nat.not_le.2 h'), fun h => absurd h (lt_irrefl _)⟩
  | succ left ih =>
    rw [raiseFree]
    split
    · rename_i hused
      obtain ⟨h₁, h₂, h₃, h₄⟩ := ih (i + 1)
      refine ⟨by omega, by omega, fun j hj hj' => ?_, fun h => h₄ (by omega)⟩
      rcases Nat.lt_or_ge i j with hlt | hge
      · exact h₃ j hlt hj'
      · rw [show j = i by omega]
        exact hused
    · rename_i hused
      exact ⟨le_rfl, by omega, fun j h h' => absurd h (Nat.not_le.2 h'), fun _ => by simpa using hused⟩

/-! ### The array -/

/-- What holds of the client array, unless a client was freed and is still in it. -/
structure ArrayOk (s : ClientArray) : Prop where
  freed : ∀ i, s.clients i ≠ .freed
  server : (s.clients 0).used = true ∧ (s.clients 0).live = false
  below : ∀ i, (s.clients i).used = true → i < s.currentMaxClients
  max_le : s.currentMaxClients ≤ maxClients
  free_pos : 0 < s.nextFreeClientID
  free_le : s.nextFreeClientID ≤ maxClients
  used : ∀ i, i < s.nextFreeClientID → (s.clients i).used = true
  unused : s.nextFreeClientID < maxClients → (s.clients s.nextFreeClientID).used = false
  fresh : ∀ i r, s.clients i = .client r → r.established = false →
    r.clientGone = false ∧ r.closeDownMode = .destroy

variable {s s' : ClientArray} {i : Nat} {r : Client}

namespace ArrayOk

theorem lt (h : ArrayOk s) (hr : s.clients i = .client r) : i < maxClients :=
  Nat.lt_of_lt_of_le (h.below i (by rw [hr]; rfl)) h.max_le

/-- The bounds may be lowered. -/
theorem lower (h : ArrayOk s) : ArrayOk { s with currentMaxClients := lowerMax s.clients s.currentMaxClients } :=
  { h with
    below := fun i hi => lt_lowerMax hi (h.below i hi)
    max_le := (lowerMax_le ..).trans h.max_le }

theorem congr (h : ArrayOk s) (hc : s'.clients = s.clients) (hm : s'.currentMaxClients = s.currentMaxClients)
    (hf : s'.nextFreeClientID = s.nextFreeClientID) : ArrayOk s' := by
  refine ⟨?_, ?_, ?_, ?_, ?_, ?_, ?_, ?_, ?_⟩ <;> simp only [hc, hm, hf]
  exacts [h.freed, h.server, h.below, h.max_le, h.free_pos, h.free_le, h.used, h.unused, h.fresh]

theorem removeClient (h : ArrayOk s) (hi : i ≠ 0) : ArrayOk (removeClient i s) := by
  have hset : ∀ j, (Clients.removeClient i s).clients j = if j = i then .null else s.clients j := fun j =>
    ClientArray.set_clients
  refine ⟨fun j => ?_, ?_, fun j hj => ?_, h.max_le, ?_, ?_, fun j hj => ?_, fun hlt => ?_, fun j r hr => ?_⟩
  · rw [hset]
    split
    · simp
    · exact h.freed j
  · rw [hset, if_neg hi.symm]
    exact h.server
  · rw [hset] at hj
    split at hj
    · cases hj
    · exact h.below j hj
  · exact Nat.lt_min.2 ⟨Nat.pos_of_ne_zero hi, h.free_pos⟩
  · exact (Nat.min_le_right ..).trans h.free_le
  · obtain ⟨hji, hjf⟩ := Nat.lt_min.1 hj
    rw [hset, if_neg (Nat.ne_of_lt hji)]
    exact h.used j hjf
  · rw [hset]
    split
    · rfl
    · rename_i hne
      have hmin : min i s.nextFreeClientID = s.nextFreeClientID := by
        have : min i s.nextFreeClientID ≠ i := hne
        omega
      rw [show (Clients.removeClient i s).nextFreeClientID = s.nextFreeClientID from hmin] at hlt ⊢
      exact h.unused hlt
  · rw [hset] at hr
    split at hr
    · cases hr
    · exact h.fresh j r hr

/-- Another client in a place where there is one. -/
theorem setClient (h : ArrayOk s) (hi : i ≠ 0) (hr : s.clients i = .client r) (r' : Client)
    (hfresh : r'.established = false → r'.clientGone = false ∧ r'.closeDownMode = .destroy) :
    ArrayOk (s.set i (.client r')) := by
  have hused : ∀ j, ((s.set i (.client r')).clients j).used = (s.clients j).used := fun j => by
    rw [ClientArray.set_clients]
    split
    · subst j
      rw [hr]
      rfl
    · rfl
  refine ⟨fun j => ?_, ?_, fun j hj => ?_, h.max_le, h.free_pos, h.free_le, fun j hj => ?_, fun hlt => ?_,
    fun j r₁ hr₁ => ?_⟩
  · rw [ClientArray.set_clients]
    split
    · simp
    · exact h.freed j
  · rw [ClientArray.set_clients, if_neg hi.symm]
    exact h.server
  · rw [hused] at hj
    exact h.below j hj
  · rw [hused]
    exact h.used j hj
  · rw [hused]
    exact h.unused hlt
  · rw [ClientArray.set_clients] at hr₁
    split at hr₁
    · cases hr₁
      exact hfresh
    · exact h.fresh j r₁ hr₁

end ArrayOk

/-! ### Closing -/

theorem raiseException_spec (s : ClientArray) :
    (raiseException s).dispatchException = true ∧ (raiseException s).clients = s.clients ∧
      (raiseException s).currentMaxClients = s.currentMaxClients ∧
      (raiseException s).nextFreeClientID = s.nextFreeClientID ∧ (raiseException s).nClients = s.nClients ∧
      (raiseException s).running = s.running := by
  unfold raiseException
  split <;> simp [ClientArray.dispatchException]

/-- What `CloseDownClient` does to a client. -/
structure Closed (i : Nat) (r : Client) (s s' : ClientArray) : Prop where
  ok : ArrayOk s'
  running : s'.running = s.running
  others : ∀ j, j ≠ i → s'.clients j = s.clients j
  slot : s'.clients i = .null ∨
    r.established = true ∧ r.clientGone = false ∧ r.closeDownMode ≠ .destroy ∧
      s'.clients i = .client { r with clientGone := true }
  nClients : s'.nClients = if r.clientGone then s.nClients else s.nClients - 1
  live : s'.live + r.live.toNat = s.live
  exception : s'.dispatchException = true ↔ s.dispatchException = true ∨
    r.clientGone = false ∧ r.closeDownMode = .destroy ∧ r.established = true ∧ s.nClients = 1

theorem Closed.lower (h : Closed i r s s') :
    Closed i r s { s' with currentMaxClients := lowerMax s'.clients s'.currentMaxClients } :=
  { h with ok := h.ok.lower }

theorem removeClient_closed (h : ArrayOk s) (hi : i ≠ 0) (hr : s.clients i = .client r) {n : Int}
    (hn : n = if r.clientGone then s.nClients else s.nClients - 1)
    (hno : ¬ (r.clientGone = false ∧ r.closeDownMode = .destroy ∧ r.established = true ∧ s.nClients = 1)) :
    Closed i r s { removeClient i s with nClients := n } where
  ok := (h.removeClient hi).congr rfl rfl rfl
  running := rfl
  others j hj := ClientArray.set_clients.trans (if_neg hj)
  slot := .inl (ClientArray.set_clients.trans (if_pos rfl))
  nClients := hn
  live := by
    have hlive := ClientArray.live_set (s := s) .null (h.lt hr)
    rw [hr] at hlive
    exact hlive
  exception := ⟨fun he => .inl he, fun he => he.resolve_right hno⟩

theorem closeDownClient_spec (h : ArrayOk s) (hi : i ≠ 0) (hr : s.clients i = .client r) :
    Closed i r s (closeDownClient i r s) := by
  unfold closeDownClient
  refine Closed.lower ?_
  by_cases hg : r.clientGone = true
  · rw [if_neg (by simp [hg])]
    exact removeClient_closed h hi hr (by rw [if_pos hg]; rfl) (by simp [hg])
  rw [if_pos hg]
  rw [Bool.not_eq_true] at hg
  by_cases hm : r.closeDownMode = .destroy
  · rw [if_pos hm]
    dsimp only
    by_cases hlast : (removeClient i s).nClients - 1 = 0 ∧ r.established = true
    · rw [if_pos hlast]
      have hone : s.nClients = 1 := by
        have : s.nClients - 1 = 0 := hlast.1
        omega
      obtain ⟨he, hc, hmax, hf, hn, hrun⟩ := raiseException_spec
        { removeClient i s with nClients := (removeClient i s).nClients - 1 }
      refine ⟨(h.removeClient hi).congr hc hmax hf, hrun, fun j hj => ?_, .inl ?_, ?_, ?_, ?_⟩
      · rw [hc]
        exact ClientArray.set_clients.trans (if_neg hj)
      · rw [hc]
        exact ClientArray.set_clients.trans (if_pos rfl)
      · rw [hn, if_neg (by simp [hg])]
        rfl
      · have hlive := ClientArray.live_set (s := s) .null (h.lt hr)
        rw [hr] at hlive
        rw [ClientArray.live_congr hc]
        exact hlive
      · exact ⟨fun _ => .inr ⟨hg, hm, hlast.2, hone⟩, fun _ => he⟩
    · rw [if_neg hlast]
      refine removeClient_closed h hi hr (by rw [if_neg (by simp [hg])]; rfl) ?_
      rintro ⟨-, -, hest, hone⟩
      refine hlast ⟨?_, hest⟩
      show s.nClients - 1 = 0
      omega
  · rw [if_neg hm]
    have hest : r.established = true := by
      by_contra hest
      exact hm (h.fresh i r hr (by simpa using hest)).2
    refine ⟨(h.setClient hi hr { r with clientGone := true } ?_).congr rfl rfl rfl, rfl, fun j hj => ?_,
      .inr ⟨hest, hg, hm, ?_⟩, ?_, ?_, ⟨fun he => .inl he, fun he => he.resolve_right fun he => hm he.2.1⟩⟩
    · intro hne
      rw [show r.established = false from hne] at hest
      cases hest
    · exact ClientArray.set_clients.trans (if_neg hj)
    · exact ClientArray.set_clients.trans (if_pos rfl)
    · rw [if_neg (by simp [hg])]
    · have hlive := ClientArray.live_set (s := s) (.client { r with clientGone := true }) (h.lt hr)
      rw [hr] at hlive
      have hgone : (Slot.client { r with clientGone := true }).live.toNat = 0 := by
        simp [Slot.live, Client.live]
      rw [hgone] at hlive
      exact hlive

/-! ### Runs -/

/-- `nClients` is the number of clients that completed their set-up and are not gone, and when the server is
about to reset there are none. -/
structure Accounted (s : ClientArray) : Prop where
  ok : ArrayOk s
  nClients : s.nClients = s.live
  exception : s.dispatchException = true → s.live = 0

/-- A client that goes has completed its set-up, and does not keep its resources if it is the last. -/
def LeavesProperly (s : ClientArray) (r : Client) : Prop :=
  r.clientGone = false → r.established = true ∧ (s.live = 1 → r.closeDownMode = .destroy)

/-- No client is freed that stays in the array, and every client that goes leaves properly. -/
def Careful (s : ClientArray) : ClientInput → Prop
  | .connect a => a ≠ .noResources
  | .initialConnection _ valid => valid = true
  | .establishConnection _ authorised => authorised = true
  | .killClient i | .closeConnection i => ∀ r, s.clients i = .client r → LeavesProperly s r
  | _ => True

/-- What a step may do to the count. -/
structure Stepped (s s' : ClientArray) : Prop where
  accounted : Accounted s'
  running : s'.running = s.running
  exception : s'.dispatchException = true ↔ s.dispatchException = true ∨ 0 < s.live ∧ s'.live = 0

theorem Stepped.refl (h : Accounted s) : Stepped s s :=
  ⟨h, rfl, fun he => .inl he, fun he => he.resolve_right fun hl => by omega⟩

/-- A closing keeps the count, and resets the server when it is due, exactly if the client leaves properly. -/
theorem closeDownClient_accounted (h : Accounted s) (hi : i ≠ 0) (hr : s.clients i = .client r) :
    ((closeDownClient i r s).nClients = (closeDownClient i r s).live ∧
      ((closeDownClient i r s).dispatchException = true ↔
        s.dispatchException = true ∨ r.live = true ∧ (closeDownClient i r s).live = 0)) ↔
      LeavesProperly s r := by
  have hc := closeDownClient_spec h.ok hi hr
  generalize closeDownClient i r s = s' at hc ⊢
  have hlive := hc.live
  have hn := hc.nClients
  have hcount := h.nClients
  rw [hc.exception]
  cases hg : r.clientGone with
  | true =>
    rw [hg, if_pos rfl] at hn
    have hrl : r.live = false := by simp [Client.live, hg]
    rw [hrl] at hlive ⊢
    refine ⟨fun _ hf => absurd (hg.symm.trans hf) (by simp), fun _ => ⟨?_, by simp⟩⟩
    have : s'.live = s.live := hlive
    omega
  | false =>
    rw [hg, if_neg (by simp)] at hn
    have hrl : r.live = r.established := by simp [Client.live, hg]
    rw [hrl] at hlive ⊢
    cases hest : r.established with
    | false =>
      rw [hest] at hlive
      have : s'.live = s.live := hlive
      refine ⟨fun ⟨hn', _⟩ => by omega, fun hp => ?_⟩
      exact absurd (hest.symm.trans (hp hg).1) (by simp)
    | true =>
      rw [hest] at hlive
      have hsucc : s'.live + 1 = s.live := hlive
      have hno : s.dispatchException ≠ true := fun he => by
        have := h.exception he
        omega
      constructor
      · rintro ⟨-, he⟩ -
        refine ⟨hest, fun hone => ?_⟩
        have hz : s'.live = 0 := by omega
        rcases he.2 (.inr ⟨rfl, hz⟩) with hpend | ⟨-, hm, -⟩
        · exact absurd hpend hno
        · exact hm
      · intro hp
        obtain ⟨-, hd⟩ := hp hg
        refine ⟨by omega, ?_⟩
        constructor
        · rintro (hpend | ⟨-, -, -, hone⟩)
          · exact .inl hpend
          · exact .inr ⟨rfl, by omega⟩
        · rintro (hpend | ⟨-, hz⟩)
          · exact .inl hpend
          · exact .inr ⟨rfl, hd (by omega), rfl, by omega⟩

/-- A client that leaves properly. -/
theorem closeDownClient_stepped (h : Accounted s) (hi : i ≠ 0) (hr : s.clients i = .client r)
    (hp : LeavesProperly s r) : Stepped s (closeDownClient i r s) := by
  have hc := closeDownClient_spec h.ok hi hr
  obtain ⟨hn, he⟩ := (closeDownClient_accounted h hi hr).2 hp
  have hlive := hc.live
  have hrl : r.live = true → 0 < s.live := fun hrl => by
    rw [hrl] at hlive
    have : (closeDownClient i r s).live + 1 = s.live := hlive
    omega
  have hrl' : 0 < s.live → (closeDownClient i r s).live = 0 → r.live = true := fun hpos hz => by
    by_contra hrl
    rw [Bool.not_eq_true] at hrl
    rw [hrl] at hlive
    have : (closeDownClient i r s).live = s.live := hlive
    omega
  refine ⟨⟨hc.ok, hn, fun hex => ?_⟩, hc.running, ?_⟩
  · rcases he.1 hex with hpend | ⟨-, hz⟩
    · have := h.exception hpend
      omega
    · exact hz
  · rw [he]
    exact or_congr_right ⟨fun ⟨h₁, h₂⟩ => ⟨hrl h₁, h₂⟩, fun ⟨h₁, h₂⟩ => ⟨hrl' h₁ h₂, h₂⟩⟩

theorem withClient_stepped {p : Client → Bool} {f : Client → ClientArray} (h : Accounted s)
    (hf : ∀ r, i ≠ 0 → s.clients i = .client r → p r = true → Stepped s (f r)) :
    ∃ s', withClient i p f s = .ok s' ∧ Stepped s s' := by
  unfold withClient
  by_cases hi : i = 0
  · exact ⟨s, by rw [if_pos hi], .refl h⟩
  rw [if_neg hi]
  cases hr : s.clients i with
  | null => exact ⟨s, rfl, .refl h⟩
  | freed => exact absurd hr (h.ok.freed i)
  | client r =>
    cases hp : p r with
    | true => exact ⟨f r, by simp [hp], hf r hi hr hp⟩
    | false => exact ⟨s, by simp [hp], .refl h⟩

/-- Where nothing is said about who goes, the count of the live clients does not become less. -/
theorem Stepped.of_le (ha : Accounted s') (hrun : s'.running = s.running)
    (he : s'.dispatchException = s.dispatchException) (hl : s.live ≤ s'.live) : Stepped s s' :=
  ⟨ha, hrun, by rw [he]; exact ⟨.inl, fun h => h.resolve_right fun hz => by omega⟩⟩

theorem nextAvailableClient_stepped {a : Allocation} (h : Accounted s) (ha : a ≠ .noResources) :
    Stepped s (nextAvailableClient a s) := by
  have hok := h.ok
  unfold nextAvailableClient
  dsimp only
  by_cases hi : s.nextFreeClientID = maxClients
  · rw [if_pos hi]
    exact .refl h
  rw [if_neg hi]
  have hlt : s.nextFreeClientID < maxClients := lt_of_le_of_ne hok.free_le hi
  have hnull : s.clients s.nextFreeClientID = .null := by
    have hu := hok.unused hlt
    cases hs : s.clients s.nextFreeClientID with
    | null => rfl
    | freed => rw [hs] at hu; cases hu
    | client r => rw [hs] at hu; cases hu
  have hpos := hok.free_pos
  cases a with
  | noResources => exact absurd rfl ha
  | noClient =>
    -- the place was empty before
    have hsame : s.set s.nextFreeClientID .null = s := by
      rw [ClientArray.set, ← hnull, Function.update_eq_self]
    dsimp only
    rw [hsame]
    exact .refl h
  | done =>
    have hset : ∀ j, (s.set s.nextFreeClientID (.client {})).clients j =
        if j = s.nextFreeClientID then .client {} else s.clients j := fun _ => ClientArray.set_clients
    have hused : ∀ j, (s.clients j).used = true →
        ((s.set s.nextFreeClientID (.client {})).clients j).used = true := fun j hj => by
      rw [hset]
      split
      · rfl
      · exact hj
    have hle : s.nextFreeClientID ≤ s.currentMaxClients := by
      by_contra hgt
      exact absurd (hok.below _ (hok.used s.currentMaxClients (by omega))) (lt_irrefl _)
    have hlive : (s.set s.nextFreeClientID (.client {})).live = s.live := by
      have := ClientArray.live_set (s := s) (.client {}) hlt
      rw [hnull] at this
      exact this
    obtain ⟨hge, hmax, hbetween, hnext⟩ :=
      raiseFree_spec (s.set s.nextFreeClientID (.client {})).clients (maxClients - s.nextFreeClientID) s.nextFreeClientID
    dsimp only
    generalize hf : raiseFree (s.set s.nextFreeClientID (.client {})).clients (maxClients - s.nextFreeClientID)
      s.nextFreeClientID = next at hge hmax hbetween hnext
    have hadd : s.nextFreeClientID + (maxClients - s.nextFreeClientID) = maxClients := by omega
    rw [hadd] at hmax hnext
    have hmaxeq : (s.set s.nextFreeClientID (.client {})).currentMaxClients = s.currentMaxClients := rfl
    have hmaxle : s.currentMaxClients ≤
        (if s.nextFreeClientID = s.currentMaxClients then s.nextFreeClientID + 1 else s.currentMaxClients) := by
      split <;> omega
    refine Stepped.of_le ⟨⟨fun j => ?_, ?_, fun j hj => ?_, ?_, by dsimp only; omega, hmax, fun j hj => ?_, hnext,
      fun j r hr => ?_⟩, ?_, fun he => ?_⟩ rfl rfl ?_
    · dsimp only
      rw [hset]
      split
      · simp
      · exact hok.freed j
    · dsimp only
      rw [hset, if_neg (by omega)]
      exact hok.server
    · dsimp only at hj ⊢
      rw [hset] at hj
      rw [hmaxeq]
      split at hj
      · subst j
        split <;> omega
      · exact Nat.lt_of_lt_of_le (hok.below j hj) hmaxle
    · dsimp only
      rw [hmaxeq]
      have := hok.max_le
      split <;> omega
    · rcases Nat.lt_or_ge j s.nextFreeClientID with hj' | hj'
      · exact hused j (hok.used j hj')
      · exact hbetween j hj' hj
    · dsimp only at hr
      rw [hset] at hr
      split at hr
      · cases hr
        exact fun _ => ⟨rfl, rfl⟩
      · exact hok.fresh j r hr
    · show s.nClients = ((s.set s.nextFreeClientID (.client {})).live : Int)
      rw [hlive, h.nClients]
    · exact hlive.trans (h.exception he)
    · exact le_of_eq hlive.symm

theorem establish_stepped {r : Client} (h : Accounted s) (hi : i ≠ 0) (hr : s.clients i = .client r)
    (hl : r.live = false) (hg : r.clientGone = false) (hno : s.dispatchException = false) :
    Stepped s { s.set i (.client { r with established := true }) with nClients := s.nClients + 1 } := by
  have hlive := ClientArray.live_set (s := s) (.client { r with established := true }) (h.ok.lt hr)
  have hnew : (Slot.client { r with established := true }).live = true := by simp [Slot.live, Client.live, hg]
  rw [hr, show (Slot.client r).live = false from hl, hnew] at hlive
  have hlive' : (s.set i (.client { r with established := true })).live = s.live + 1 := hlive
  refine Stepped.of_le ⟨(h.ok.setClient hi hr { r with established := true } fun hf => by cases hf).congr rfl rfl rfl,
    ?_, fun he => absurd (hno.symm.trans he) (by simp)⟩ rfl rfl ?_
  · have := h.nClients
    show s.nClients + 1 = ((s.set i (.client { r with established := true })).live : Int)
    omega
  · show s.live ≤ (s.set i (.client { r with established := true })).live
    omega

theorem setCloseDownMode_stepped {r : Client} (h : Accounted s) (hi : i ≠ 0) (hr : s.clients i = .client r)
    (hl : r.live = true) (mode : CloseDownMode) : Stepped s (s.set i (.client { r with closeDownMode := mode })) := by
  have hlive := ClientArray.live_set (s := s) (.client { r with closeDownMode := mode }) (h.ok.lt hr)
  rw [hr] at hlive
  have hsame : (Slot.client { r with closeDownMode := mode }).live = (Slot.client r).live := rfl
  rw [hsame] at hlive
  have hlive' : (s.set i (.client { r with closeDownMode := mode })).live = s.live := Nat.add_right_cancel hlive
  have hest : r.established = true := by
    rw [Client.live, Bool.and_eq_true] at hl
    exact hl.1
  refine Stepped.of_le ⟨h.ok.setClient hi hr _ fun hf => ?_, ?_, fun he => ?_⟩ rfl rfl (le_of_eq hlive'.symm)
  · exact absurd (hest.symm.trans hf) (by simp)
  · rw [hlive']
    exact h.nClients
  · rw [hlive']
    exact h.exception he

/-- The body of `closeEach`. -/
theorem closeEach_step {p : Client → Bool} {I : ClientArray → Prop} (hok : ∀ t, I t → ArrayOk t)
    (hp : ∀ t i r, I t → i ≠ 0 → t.clients i = .client r → p r = true → I (closeDownClient i r t))
    {l : List Nat} (hl : ∀ i ∈ l, i ≠ 0) (h : I s) :
    ∃ s', l.foldlM (fun s i =>
      if i < s.currentMaxClients then
        match s.clients i with
        | .null => .ok s
        | .freed => .error .fault
        | .client r => .ok (if p r then closeDownClient i r s else s)
      else .ok s : ClientArray → Nat → Exec ClientArray) s = .ok s' ∧ I s' := by
  induction l generalizing s with
  | nil => exact ⟨s, rfl, h⟩
  | cons i l ih =>
    rw [List.foldlM_cons]
    have hrest := fun t ht => @ih t (fun j hj => hl j (.tail _ hj)) ht
    split
    · cases hr : s.clients i with
      | null => exact hrest s h
      | freed => exact absurd hr ((hok s h).freed i)
      | client r =>
        cases hpr : p r with
        | true =>
          dsimp only
          rw [hpr, if_pos rfl]
          exact hrest _ (hp s i r h (hl i (.head _)) hr hpr)
        | false =>
          dsimp only
          rw [hpr, if_neg (by simp)]
          exact hrest s h
    · exact hrest s h

theorem closeDownRetainedResources_stepped (h : Accounted s) :
    ∃ s', closeDownRetainedResources s = .ok s' ∧ Stepped s s' := by
  have hne : ∀ i ∈ List.range' 1 (maxClients - 1), i ≠ 0 := fun i hi => by
    have := (List.mem_range'_1.1 hi).1
    omega
  obtain ⟨s', he, ha, hrun, hlive, hexc⟩ := closeEach_step
    (I := fun t => Accounted t ∧ t.running = s.running ∧ t.live = s.live ∧
      (t.dispatchException = true ↔ s.dispatchException = true)) (p := fun r => r.closeDownMode == .retainTemporary && r.clientGone)
    (fun t ht => ht.1.ok) (fun t i r ⟨ht, hrun, hlive, hexc⟩ hi hr hp => by
      have hgone : r.clientGone = true := (Bool.and_eq_true .. ▸ hp).2
      have hc := closeDownClient_spec ht.ok hi hr
      have hst := closeDownClient_stepped ht hi hr fun hf => absurd (hgone.symm.trans hf) (by simp)
      have hl := hc.live
      have hrl : r.live = false := by simp [Client.live, hgone]
      rw [hrl] at hl
      have hl' : (closeDownClient i r t).live = t.live := hl
      refine ⟨hst.accounted, hst.running.trans hrun, hl'.trans hlive, ?_⟩
      rw [hc.exception, hexc]
      simp [hgone]) hne ⟨h, rfl, rfl, Iff.rfl⟩
  refine ⟨s', he, ha, hrun, ?_⟩
  rw [hexc]
  exact ⟨.inl, fun hx => hx.resolve_right fun hz => by omega⟩

/-- When no client is left that would keep its resources, all are gone from the array. -/
theorem killAllClients_spec (h : ArrayOk s) (hlive : s.live = 0) :
    ∃ s', killAllClients s = .ok s' ∧ ArrayOk s' ∧ s'.live = 0 ∧ s'.running = s.running ∧
      ∀ i, i ≠ 0 → (s'.clients i).used = false := by
  have hne : ∀ i ∈ List.range' 1 (maxClients - 1), i ≠ 0 := fun i hi => by
    have := (List.mem_range'_1.1 hi).1
    omega
  -- a client that is closed is out of the array, for none is live
  have hclose : ∀ t i r, ArrayOk t → t.live = 0 → i ≠ 0 → t.clients i = .client r →
      ArrayOk (closeDownClient i r t) ∧ (closeDownClient i r t).live = 0 ∧
        (closeDownClient i r t).running = t.running ∧ (closeDownClient i r t).clients i = .null ∧
        ∀ j, j ≠ i → (closeDownClient i r t).clients j = t.clients j := fun t i r ht hl hi hr => by
    have hc := closeDownClient_spec ht hi hr
    have hcl := hc.live
    refine ⟨hc.ok, by omega, hc.running, ?_, hc.others⟩
    rcases hc.slot with hnull | ⟨hest, hgone, -, -⟩
    · exact hnull
    · have := ClientArray.live_eq_zero.1 hl i (ht.lt hr)
      rw [hr] at this
      simp [Slot.live, Client.live, hest, hgone] at this
  suffices hall : ∀ l : List Nat, (∀ i ∈ l, i ≠ 0) → ∀ t, ArrayOk t → t.live = 0 →
      ∃ s', l.foldlM (fun s i =>
        if i < s.currentMaxClients then
          match s.clients i with
          | .null => .ok s
          | .freed => .error .fault
          | .client r => .ok (if (fun _ : Client => true) r then closeDownClient i r s else s)
        else .ok s : ClientArray → Nat → Exec ClientArray) t = .ok s' ∧ ArrayOk s' ∧ s'.live = 0 ∧
        s'.running = t.running ∧ (∀ j, (t.clients j).used = false → (s'.clients j).used = false) ∧
        ∀ i ∈ l, (s'.clients i).used = false by
    obtain ⟨s', he, hok, hl, hrun, -, hnull⟩ := hall _ hne s h hlive
    refine ⟨s', he, hok, hl, hrun, fun i hi => ?_⟩
    by_cases hmax : i < maxClients
    · exact hnull i (List.mem_range'_1.2 (by omega))
    · by_contra hu
      exact absurd (hok.below i (by simpa using hu)) (by have := hok.max_le; omega)
  intro l hl t ht hlt
  induction l generalizing t with
  | nil => exact ⟨t, rfl, ht, hlt, rfl, fun _ h => h, fun i hi => by cases hi⟩
  | cons i l ih =>
    have hrest := fun t' ht' hlt' => ih (fun j hj => hl j (.tail _ hj)) t' ht' hlt'
    rw [List.foldlM_cons]
    -- the place is not used after its turn
    obtain ⟨t', he, ht', hlt', hrun, hkeep, hi'⟩ : ∃ t', (if i < t.currentMaxClients then
        match t.clients i with
        | .null => .ok t
        | .freed => .error .fault
        | .client r => .ok (if (fun _ : Client => true) r then closeDownClient i r t else t)
      else .ok t : Exec ClientArray) = .ok t' ∧ ArrayOk t' ∧ t'.live = 0 ∧ t'.running = t.running ∧
        (∀ j, (t.clients j).used = false → (t'.clients j).used = false) ∧ (t'.clients i).used = false := by
      by_cases hmax : i < t.currentMaxClients
      · rw [if_pos hmax]
        cases hr : t.clients i with
        | null => exact ⟨t, rfl, ht, hlt, rfl, fun _ h => h, by rw [hr]; rfl⟩
        | freed => exact absurd hr (ht.freed i)
        | client r =>
          obtain ⟨hok, hl₁, hrun, hnull, hothers⟩ := hclose t i r ht hlt (hl i (.head _)) hr
          refine ⟨_, rfl, hok, hl₁, hrun, fun j hj => ?_, by rw [if_pos rfl, hnull]; rfl⟩
          by_cases hji : j = i
          · rw [hji, if_pos rfl, hnull]
            rfl
          · rw [if_pos rfl, hothers j hji]
            exact hj
      · rw [if_neg hmax]
        refine ⟨t, rfl, ht, hlt, rfl, fun _ h => h, ?_⟩
        by_contra hu
        exact hmax (ht.below i (by simpa using hu))
    obtain ⟨s', he', hok, hl', hrun', hkeep', hnull⟩ := hrest t' ht' hlt'
    refine ⟨s', by rw [he]; exact he', hok, hl', hrun'.trans hrun, fun j hj => hkeep' j (hkeep j hj), fun j hj => ?_⟩
    rcases List.mem_cons.1 hj with rfl | hj
    · exact hkeep' j hi'
    · exact hnull j hj

/-- A new generation starts with no clients. -/
theorem restart_spec (h : Accounted s) (hex : s.dispatchException = true) :
    ∃ s', restart s = .ok s' ∧ (s'.running = true → Accounted s') := by
  obtain ⟨s₁, he, hok, hlive, hrun, hnull⟩ := killAllClients_spec h.ok (h.exception hex)
  unfold restart
  rw [he, Exec.ok_bind]
  by_cases ht : s₁.terminate = true
  · rw [if_pos ht]
    exact ⟨_, rfl, fun hr => by cases hr⟩
  · rw [if_neg ht]
    refine ⟨_, rfl, fun _ => ⟨⟨hok.freed, hok.server, fun i hi => ?_, ?_, Nat.one_pos, ?_, fun i hi => ?_,
      fun _ => hnull 1 Nat.one_ne_zero, hok.fresh⟩, ?_, fun _ => hlive⟩⟩
    · by_contra hge
      have hne : i ≠ 0 := by
        rintro rfl
        exact hge Nat.one_pos
      rw [hnull i hne] at hi
      cases hi
    · show 1 ≤ maxClients
      decide
    · show 1 ≤ maxClients
      decide
    · rw [show i = 0 by have : i < 1 := hi; omega]
      exact hok.server.1
    · show (0 : Int) = s₁.live
      rw [hlive]
      rfl

/-- A careful step has a result, and keeps the account. Unless it starts a new generation, it sets off an
exception exactly if it takes the last client. -/
theorem step_accounted {r : ClientInput} (h : Accounted s) (hrun : s.running = true) (hc : Careful s r) :
    ∃ s', step s r = .ok s' ∧ (s'.running = true → Accounted s') ∧ (r ≠ .restart → Stepped s s') := by
  have hstepped : ∀ {x : Exec ClientArray}, (∃ s', x = .ok s' ∧ Stepped s s') →
      ∃ s', x = .ok s' ∧ (s'.running = true → Accounted s') ∧ (r ≠ .restart → Stepped s s') := by
    rintro x ⟨s', he, hst⟩
    exact ⟨s', he, fun _ => hst.accounted, fun _ => hst⟩
  unfold step
  rw [if_neg (by simp [hrun])]
  cases r with
  | connect a =>
    refine hstepped ⟨_, rfl, ?_⟩
    split
    · exact .refl h
    · exact nextAvailableClient_stepped h hc
  | initialConnection i valid =>
    have hvalid : valid = true := hc
    subst hvalid
    refine hstepped ?_
    dsimp only
    split
    · exact ⟨s, rfl, .refl h⟩
    · exact withClient_stepped h fun r _ _ _ => .refl h
  | establishConnection i authorised =>
    have hauth : authorised = true := hc
    subst hauth
    refine hstepped ?_
    dsimp only
    split
    · exact ⟨s, rfl, .refl h⟩
    · rename_i hno
      refine withClient_stepped h fun r hi hr hp => ?_
      simp only [Bool.and_eq_true, Bool.not_eq_true'] at hp
      exact establish_stepped h hi hr (by simp [Client.live, hp.1]) hp.2 (by simpa using hno)
  | setCloseDownMode i mode =>
    exact hstepped (withClient_stepped h fun r hi hr hp => setCloseDownMode_stepped h hi hr hp mode)
  | killClient i =>
    exact hstepped (withClient_stepped h fun r hi hr _ => closeDownClient_stepped h hi hr (hc r hr))
  | killRetained => exact hstepped (closeDownRetainedResources_stepped h)
  | closeConnection i =>
    exact hstepped (withClient_stepped h fun r hi hr _ => closeDownClient_stepped h hi hr (hc r hr))
  | restart =>
    dsimp only
    by_cases hex : s.dispatchException = true
    · rw [if_pos hex]
      obtain ⟨s', he, ha⟩ := restart_spec h hex
      exact ⟨s', he, ha, fun hne => absurd rfl hne⟩
    · rw [if_neg hex]
      exact ⟨s, rfl, fun _ => h, fun hne => absurd rfl hne⟩

theorem accounted_init (terminateAtReset : Bool) : Accounted { terminateAtReset } where
  ok := by
    have hset : ∀ j, (({ terminateAtReset } : ClientArray).clients j) = if j = 0 then .client {} else .null := by
      intro j
      show Function.update (fun _ => Slot.null) 0 (.client {}) j = _
      rw [Function.update_apply]
    refine ⟨fun j => ?_, ⟨rfl, rfl⟩, fun j hj => ?_, show 1 ≤ maxClients by decide, Nat.one_pos,
      show 1 ≤ maxClients by decide, fun j hj => ?_, fun _ => rfl, fun j r hr => ?_⟩
    · rw [hset]
      split <;> simp
    · rw [hset] at hj
      split at hj
      · subst j
        exact Nat.one_pos
      · cases hj
    · rw [show j = 0 by have : j < 1 := hj; omega]
      rfl
    · rw [hset] at hr
      split at hr
      · cases hr
        exact fun _ => ⟨rfl, rfl⟩
      · cases hr
  nClients := by cases terminateAtReset <;> decide +kernel
  exception h := by cases h

theorem reach_accounted {t : Bool} (h : Reach step Careful { terminateAtReset := t } s) (hrun : s.running = true) :
    Accounted s := by
  refine h.inv (I := fun s => s.running = true → Accounted s) (fun _ => accounted_init t) (fun s r s' hi hc he hr => ?_) hrun
  cases hrs : s.running with
  | true =>
    obtain ⟨s'', he', ha, -⟩ := step_accounted (hi hrs) hrs hc
    cases he'.symm.trans he
    exact ha hr
  | false =>
    unfold step at he
    rw [if_pos (by simp [hrs])] at he
    cases he
    exact absurd (hrs.symm.trans hr) (by simp)

/-- Two clients, of which one goes after a third one went before its set-up. -/
def strangerGoes : List ClientInput :=
  [.connect .done, .establishConnection 1 true, .connect .done, .establishConnection 2 true, .connect .done,
    .closeConnection 3, .closeConnection 1]

end Nas.Clients
