import Nas.RequestLayout

/-!
# Parsing a SetElementParameters request

The loop of `ProcAuSetElementParameters` over the bytes of a request, which takes parameters over while it goes
along. A read outside of the body is a fault, and each parameter that is read is noted with the number of those its
block has. How much of the body is left is an `int`, from which the size of a block is taken away with the wrong
sign, and nothing but the end of the loop depends on it.

`sound_iff` says for which requests that is all the same: the blocks make up the body and have the parameters that
are read, or the first block that is refused comes after blocks that change nothing.
-/

namespace Nas.SetParameters
open Elements Requests AuStatus

/-- A `SetElementParameters` request. The length in its header is that of its body, a number of words. -/
structure Request where
  /-- the byte order of the server -/
  order : ByteOrder
  numParameters : Nat
  body : List UInt8
  words : body.length % 4 = 0
  numParameters_lt : numParameters < 2 ^ 32
  length_lt : body.length < 2 ^ 18

/-- The flows, and which of them `LookupIDByType` finds. -/
structure Flows where
  lookup : AuID → Option FlowPtr
  get : FlowPtr → ServerFlow

/-- How many parameters are read for an element. -/
def parametersRead {K : Type} : AuElement K → Nat
  | .importBucket _ => 1
  | .importWaveForm _ => 2
  | .multiplyConstant _ _ => 1
  | .addConstant _ _ => 1
  | .exportBucket _ => 1
  | _ => 0

/-- A parameter that was read, and how many its block has. -/
structure Taken where
  index : Nat
  numParameters : Nat
deriving DecidableEq, Repr

/-- The flows, and what was read of the blocks so far. -/
structure Setting where
  get : FlowPtr → ServerFlow
  taken : List Taken := []

section Loop
variable (o : ByteOrder) (m : List UInt8)

/-- `p[0]` and so on, so many of them. -/
def loadParameters (p : Nat) : Nat → Exec (List Nat)
  | 0 => .ok []
  | n + 1 => do
    let v ← o.load 4 m p
    let vs ← loadParameters (p + sizeofCARD32) n
    .ok (v :: vs)

/-- What a block does to the element it is for, and to the flow. -/
def setFlowParameters (f : ServerFlow) (elementNum : Nat) (el : ServerElement) (values : List Nat) : ServerFlow :=
  { f.setElement elementNum { el with raw := el.raw.setParameters fun k => values.getD k 0, parmsChanged := true } with
    needsRecompile := true
    count := if el.raw.resetsCount then 0 else f.count }

/-- `for (i = 0; len && i < stuff->numParameters; i++, parms++)`, with the rounds that are left. -/
def parametersLoop (lookup : AuID → Option FlowPtr) :
    (rounds : Nat) → (len : Int) → (parms : Nat) → Setting → Exec (AuStatus × Setting)
  | 0, _, _, s => .ok (auSuccess, s)
  | rounds + 1, len, parms, s =>
    if len = 0 then .ok (auSuccess, s)
    else do
      let id ← o.load 4 m parms
      match lookup id with
      | none => .ok (auBadFlow, s)
      | some p => do
        let elementNum ← o.load 1 m (parms + 4)
        match (s.get p).els[elementNum]? with
        | none => .ok (auBadElement, s)
        | some el => do
          let num ← o.load 1 m (parms + 5)
          let len := asInt32 ((len - (sizeofAuElementParameters - num * sizeofCARD32)) % 2 ^ 32).toNat
          if len < 0 then .ok (auSuccess, s)
          else do
            let values ← loadParameters o m (parms + sizeofAuElementParameters) (parametersRead el.raw)
            let s : Setting := {
              get := Function.update s.get p (setFlowParameters (s.get p) elementNum el values)
              taken := s.taken ++ (List.range (parametersRead el.raw)).map (⟨·, num⟩) }
            parametersLoop lookup rounds len (parms + num * sizeofCARD32 + sizeofAuElementParameters) s

end Loop

namespace Request
variable (r : Request) (t : Flows)

/-- What the loop makes of the request. -/
def parse : Exec (AuStatus × Setting) :=
  parametersLoop r.order r.body t.lookup r.numParameters r.body.length 0 { get := t.get }

/-- The blocks of the request make up its body. -/
def Tiled : Prop := parametersEnd r.order r.body r.numParameters 0 = r.body.length

/-- Where the block is. -/
def blockAt (j : Nat) : Nat := parametersEnd r.order r.body j 0

/-- The element the block is for. -/
def target (j : Nat) : Option (FlowPtr × Nat × ServerElement) :=
  (t.lookup (r.order.read 4 r.body (r.blockAt j))).bind fun p =>
    let elementNum := r.order.read 1 r.body (r.blockAt j + 4)
    ((t.get p).els[elementNum]?).map fun el => (p, elementNum, el)

/-- Only the bytes of the request and only the parameters a block has are read, blocks that make up the body are
accepted, what is accepted is made up of such blocks, and with an error all elements are as they were. -/
structure Sound : Prop where
  inside : ∃ x, r.parse t = .ok x
  carried : ∀ status s, r.parse t = .ok (status, s) → ∀ x ∈ s.taken, x.index < x.numParameters
  tiled : ∀ s, r.parse t = .ok (auSuccess, s) → r.Tiled
  accepts : r.Tiled → (∀ j < r.numParameters, (r.target t j).isSome) → ∃ s, r.parse t = .ok (auSuccess, s)
  unchanged : ∀ status s, r.parse t = .ok (status, s) → status ≠ auSuccess →
    ∀ p, (s.get p).els.map (·.raw) = (t.get p).els.map (·.raw)

/-! ### The condition -/

/-- The block has the parameters that are read for its element. -/
def Fed (j : Nat) : Prop :=
  ∃ p i el, r.target t j = some (p, i, el) ∧ parametersRead el.raw ≤ numParametersAt r.order r.body (r.blockAt j)

/-- What is looked at of the block is inside of the body, and there is no such flow or element. -/
def Refused (j : Nat) : Prop :=
  r.blockAt j + 4 ≤ r.body.length ∧ r.target t j = none ∧
    ((t.lookup (r.order.read 4 r.body (r.blockAt j))).isSome → r.blockAt j + 5 ≤ r.body.length)

/-- The parameters of the block. -/
def values (j k : Nat) : Nat := r.order.read 4 r.body (r.blockAt j + sizeofAuElementParameters + k * sizeofCARD32)

/-- A block whose element is not that of a later one before `n` has what the element has. -/
def AlreadyThere (n : Nat) : Prop :=
  ∀ j < n, ∀ p i el, r.target t j = some (p, i, el) →
    (∀ k < n, j < k → ∀ el', r.target t k ≠ some (p, i, el')) → el.raw.setParameters (r.values j) = el.raw

/-- The request is as its client should have made it, or is refused for a block with nothing but repetitions in
front of it. -/
def Proper : Prop :=
  (r.Tiled ∧ ∀ j < r.numParameters, r.Fed t j) ∨
    ∃ n < r.numParameters, (∀ j < n, r.Fed t j) ∧ r.Refused t n ∧ r.AlreadyThere t n

end Request

/-! ### Parameters of an element -/

section
variable {o : ByteOrder} {m : List UInt8} {K : Type} {p q i j k n : Nat}

theorem parametersRead_setParameters (v : Nat → Nat) (el : AuElement AuFixedPoint) :
    parametersRead (el.setParameters v) = parametersRead el := by cases el <;> rfl

/-- The parameters of a later block are all that is left. -/
theorem setParameters_setParameters (v w : Nat → Nat) (el : AuElement AuFixedPoint) :
    (el.setParameters v).setParameters w = el.setParameters w := by cases el <;> rfl

theorem setParameters_congr {v w : Nat → Nat} {el : AuElement AuFixedPoint} (h : ∀ k < parametersRead el, v k = w k) :
    el.setParameters v = el.setParameters w := by
  cases el with
  | importBucket p => simp only [AuElement.setParameters, h 0 (by decide : 0 < 1)]
  | importWaveForm p => simp only [AuElement.setParameters, h 0 (by decide : 0 < 2), h 1 (by decide : 1 < 2)]
  | multiplyConstant input constant => simp only [AuElement.setParameters, h 0 (by decide : 0 < 1)]
  | addConstant input constant => simp only [AuElement.setParameters, h 0 (by decide : 0 < 1)]
  | exportBucket p => simp only [AuElement.setParameters, h 0 (by decide : 0 < 1)]
  | _ => rfl

theorem loadParameters_ok (h : p + n * sizeofCARD32 ≤ m.length) :
    ∃ vs, loadParameters o m p n = .ok vs ∧ ∀ k < n, vs.getD k 0 = o.read 4 m (p + k * sizeofCARD32) := by
  unfold sizeofCARD32 at *
  induction n generalizing p with
  | zero => exact ⟨[], rfl, fun k hk => absurd hk (Nat.not_lt_zero k)⟩
  | succ n ih =>
    obtain ⟨vs, hvs, hread⟩ := ih (p := p + 4) (by omega)
    refine ⟨o.read 4 m p :: vs, ?_, ?_⟩
    · rw [loadParameters, ByteOrder.load_ok (by omega), Exec.ok_bind]
      unfold sizeofCARD32
      rw [hvs, Exec.ok_bind]
    · rintro (- | k) hk
      · rw [List.getD_cons_zero]
        rfl
      · rw [List.getD_cons_succ, hread k (by omega)]
        congr 1
        omega

theorem loadParameters_inside {vs : List Nat} (h : loadParameters o m p n = .ok vs) (hn : n ≠ 0) :
    p + n * sizeofCARD32 ≤ m.length := by
  unfold sizeofCARD32
  induction n generalizing p vs with
  | zero => exact absurd rfl hn
  | succ n ih =>
    rw [loadParameters] at h
    obtain ⟨v, hv, h⟩ := Exec.bind_eq_ok.1 h
    obtain ⟨ws, hws, -⟩ := Exec.bind_eq_ok.1 h
    have hin : p + 4 ≤ m.length := by
      by_contra hout
      rw [ByteOrder.load_fault (by omega)] at hv
      cases hv
    by_cases hz : n = 0
    · omega
    · have := ih hws hz
      unfold sizeofCARD32 at this
      omega

/-- A load that does not fault is one of a number inside. -/
theorem load_inside {w v : Nat} (h : o.load w m p = .ok v) : p + w ≤ m.length ∧ v = o.read w m p := by
  by_cases hin : p + w ≤ m.length
  · rw [ByteOrder.load_ok hin] at h
    cases h
    exact ⟨hin, rfl⟩
  · rw [ByteOrder.load_fault (by omega)] at h
    cases h

theorem parametersEnd_add (j k p : Nat) : parametersEnd o m (j + k) p = parametersEnd o m k (parametersEnd o m j p) := by
  induction j generalizing p with
  | zero => rw [Nat.zero_add, parametersEnd]
  | succ j ih => rw [Nat.succ_add, parametersEnd, parametersEnd, ih]

end

namespace Request
variable {r : Request} {t : Flows} {p i j k n : Nat} {el : ServerElement} {s s' : Setting}

theorem blockAt_succ (r : Request) (j : Nat) :
    r.blockAt (j + 1) = r.blockAt j + 8 + numParametersAt r.order r.body (r.blockAt j) * 4 :=
  parametersEnd_add j 1 0

theorem blockAt_add_le (r : Request) (j k : Nat) : r.blockAt j + 8 * k ≤ r.blockAt (j + k) := by
  induction k with
  | zero => exact Nat.le_refl _
  | succ k ih =>
    have := r.blockAt_succ (j + k)
    rw [← Nat.add_assoc]
    omega

theorem blockAt_ge (r : Request) (j : Nat) : 8 * j ≤ r.blockAt j := by
  have := r.blockAt_add_le 0 j
  rw [Nat.zero_add] at this
  omega

theorem blockAt_words (r : Request) (j : Nat) : r.blockAt j % 4 = 0 := by
  induction j with
  | zero => rfl
  | succ j ih =>
    have := r.blockAt_succ j
    omega

/-! ### What blocks do to the elements -/

/-- The element the block is for, by its place. -/
def address (r : Request) (t : Flows) (j : Nat) : Option (FlowPtr × Nat) := (r.target t j).map fun x => (x.1, x.2.1)

/-- What the first blocks make of an element. -/
def rawAfter (r : Request) (t : Flows) (p : FlowPtr) (i : Nat) (raw : AuElement AuFixedPoint) : Nat → AuElement AuFixedPoint
  | 0 => raw
  | n + 1 =>
    if r.address t n = some (p, i) then (rawAfter r t p i raw n).setParameters (r.values n)
    else rawAfter r t p i raw n

theorem address_eq_some : r.address t j = some (p, i) ↔ ∃ el, r.target t j = some (p, i, el) := by
  unfold address
  constructor
  · intro h
    obtain ⟨⟨q, k, el⟩, htarget, heq⟩ := Option.map_eq_some_iff.1 h
    cases heq
    exact ⟨el, htarget⟩
  · rintro ⟨el, htarget⟩
    rw [htarget]
    rfl

theorem target_eq_some : r.target t j = some (p, i, el) ↔
    t.lookup (r.order.read 4 r.body (r.blockAt j)) = some p ∧ i = r.order.read 1 r.body (r.blockAt j + 4) ∧
      (t.get p).els[i]? = some el := by
  unfold target
  constructor
  · intro h
    obtain ⟨q, hq, h⟩ := Option.bind_eq_some_iff.1 h
    obtain ⟨el', hel, heq⟩ := Option.map_eq_some_iff.1 h
    cases heq
    exact ⟨hq, rfl, hel⟩
  · rintro ⟨hq, rfl, hel⟩
    rw [hq, Option.bind_some]
    dsimp only
    rw [hel]
    rfl

theorem rawAfter_none {raw : AuElement AuFixedPoint} (h : ∀ j < n, r.address t j ≠ some (p, i)) :
    r.rawAfter t p i raw n = raw := by
  induction n with
  | zero => rfl
  | succ n ih => rw [rawAfter, if_neg (h n (by omega)), ih fun j hj => h j (by omega)]

theorem rawAfter_last {raw : AuElement AuFixedPoint} (hj : j < n) (haddr : r.address t j = some (p, i))
    (hlast : ∀ k < n, j < k → r.address t k ≠ some (p, i)) :
    r.rawAfter t p i raw n = raw.setParameters (r.values j) := by
  have hover : ∀ n v, (r.rawAfter t p i raw n).setParameters v = raw.setParameters v := by
    intro n v
    induction n with
    | zero => rfl
    | succ n ih =>
      rw [rawAfter]
      split
      · rw [setParameters_setParameters, ih]
      · exact ih
  induction n with
  | zero => exact absurd hj (Nat.not_lt_zero j)
  | succ n ih =>
    rw [rawAfter]
    by_cases hn : j = n
    · rw [if_pos (hn ▸ haddr), hover, hn]
    · rw [if_neg (hlast n (by omega) (by omega)), ih (by omega) fun k hk hjk => hlast k (by omega) hjk]

theorem parametersRead_rawAfter (raw : AuElement AuFixedPoint) (n : Nat) :
    parametersRead (r.rawAfter t p i raw n) = parametersRead raw := by
  induction n with
  | zero => rfl
  | succ n ih =>
    rw [rawAfter]
    split
    · rw [parametersRead_setParameters, ih]
    · exact ih

/-- Of the blocks for an element there is a last one. -/
theorem exists_last (h : ∃ j < n, r.address t j = some (p, i)) :
    ∃ j < n, r.address t j = some (p, i) ∧ ∀ k < n, j < k → r.address t k ≠ some (p, i) := by
  induction n with
  | zero =>
    obtain ⟨j, hj, -⟩ := h
    exact absurd hj (Nat.not_lt_zero j)
  | succ n ih =>
    by_cases hn : r.address t n = some (p, i)
    · exact ⟨n, by omega, hn, fun k hk hnk => absurd hnk (by omega)⟩
    · obtain ⟨j, hj, haddr⟩ := h
      have hne : j ≠ n := fun he => hn (he ▸ haddr)
      obtain ⟨k, hk, haddr, hlast⟩ := ih ⟨j, by omega, haddr⟩
      refine ⟨k, by omega, haddr, fun l hl hkl => ?_⟩
      by_cases hln : l = n
      · exact hln ▸ hn
      · exact hlast l (by omega) hkl

/-- Blocks change nothing when the last one for each element does not. -/
theorem alreadyThere_iff : r.AlreadyThere t n ↔
    ∀ p i el, (t.get p).els[i]? = some el → r.rawAfter t p i el.raw n = el.raw := by
  constructor
  · intro h p i el hel
    by_cases haddr : ∃ j < n, r.address t j = some (p, i)
    · obtain ⟨j, hj, haddr, hlast⟩ := exists_last haddr
      obtain ⟨el', htarget⟩ := address_eq_some.1 haddr
      have hsame := (target_eq_some.1 htarget).2.2
      rw [hel] at hsame
      cases hsame
      rw [rawAfter_last hj haddr hlast]
      exact h j hj p i el htarget fun k hk hjk el' htk => hlast k hk hjk (address_eq_some.2 ⟨el', htk⟩)
    · push Not at haddr
      exact rawAfter_none haddr
  · intro h j hj p i el htarget hlast
    rw [← rawAfter_last hj (address_eq_some.2 ⟨el, htarget⟩) fun k hk hjk haddr => ?_]
    · exact h p i el (target_eq_some.1 htarget).2.2
    · obtain ⟨el', htk⟩ := address_eq_some.1 haddr
      exact hlast k hk hjk el' htk

/-! ### The loop -/

/-- The elements after the first blocks. -/
def At (r : Request) (t : Flows) (n : Nat) (s : Setting) : Prop :=
  ∀ p i, ((s.get p).els[i]?).map (·.raw) = ((t.get p).els[i]?).map fun el => r.rawAfter t p i el.raw n

theorem at_zero (r : Request) (t : Flows) : r.At t 0 { get := t.get } := fun _ _ => rfl

theorem els_setFlowParameters (f : ServerFlow) (i : Nat) (el : ServerElement) (vs : List Nat) :
    (setFlowParameters f i el vs).els =
      f.els.set i { el with raw := el.raw.setParameters fun k => vs.getD k 0, parmsChanged := true } := by
  unfold setFlowParameters Flow.els Flow.setElement
  dsimp only
  cases f.elements <;> rfl

theorem At.next {vs : List Nat} {el' : ServerElement} {x : List Taken} (hAt : r.At t n s)
    (htarget : r.target t n = some (p, i, el)) (hel : (s.get p).els[i]? = some el')
    (hvs : ∀ k < parametersRead el'.raw, vs.getD k 0 = r.values n k) :
    r.At t (n + 1) { get := Function.update s.get p (setFlowParameters (s.get p) i el' vs), taken := x } := by
  intro q k
  have haddr : ∀ q k, r.address t n = some (q, k) ↔ q = p ∧ k = i := by
    intro q k
    rw [address, htarget, Option.map_some, Option.some.injEq, Prod.mk.injEq]
    exact ⟨fun h => ⟨h.1.symm, h.2.symm⟩, fun h => ⟨h.1.symm, h.2.symm⟩⟩
  have hold := hAt q k
  simp only [rawAfter, haddr]
  by_cases hq : q = p
  · subst hq
    rw [Function.update_self, els_setFlowParameters]
    by_cases hk : k = i
    · subst hk
      rw [hel, (target_eq_some.1 htarget).2.2, Option.map_some, Option.map_some, Option.some.injEq] at hold
      rw [List.getElem?_set_self (List.getElem?_eq_some_iff.1 hel).1, Option.map_some, (target_eq_some.1 htarget).2.2,
        Option.map_some, if_pos ⟨rfl, rfl⟩, ← hold, setParameters_congr hvs]
    · rw [List.getElem?_set_ne (Ne.symm hk), hold]
      simp only [hk, and_false, if_false]
  · rw [Function.update_of_ne hq, hold]
    simp only [hq, false_and, if_false]

/-- What is left of the body, as the loop counts it. -/
def lenAt (r : Request) (n : Nat) : Int := r.body.length + r.blockAt n - 16 * n

/-- What the loop takes to be left is nothing only when all blocks were empty and that is so. -/
theorem lenAt_eq_zero (hn : 8 * n ≤ r.body.length) (h : r.lenAt n = 0) : r.blockAt n = r.body.length := by
  have := r.blockAt_ge n
  unfold lenAt at h
  omega

theorem lenAt_succ (hin : r.blockAt n + 8 ≤ r.body.length) :
    asInt32 ((r.lenAt n - (sizeofAuElementParameters - numParametersAt r.order r.body (r.blockAt n) * sizeofCARD32)) %
      2 ^ 32).toNat = r.lenAt (n + 1) ∧ 0 ≤ r.lenAt (n + 1) := by
  have hnum : numParametersAt r.order r.body (r.blockAt n) < 256 ^ 1 := ByteOrder.read_lt (by omega)
  have hge := r.blockAt_ge n
  have hsucc := r.blockAt_succ n
  have hlt := r.length_lt
  have heq : r.lenAt n - (sizeofAuElementParameters - numParametersAt r.order r.body (r.blockAt n) * sizeofCARD32) =
      r.lenAt (n + 1) := by
    unfold lenAt sizeofAuElementParameters sizeofCARD32
    rw [hsucc]
    push_cast
    omega
  have hnonneg : 0 ≤ r.lenAt (n + 1) := by
    unfold lenAt
    push_cast
    omega
  have hsmall : r.lenAt (n + 1) < 2 ^ 31 := by
    unfold lenAt
    push_cast
    omega
  rw [heq]
  refine ⟨?_, hnonneg⟩
  unfold asInt32
  omega

/-- A block with all that is read for its element. -/
theorem loop_fed (rounds : Nat) (hAt : r.At t n s) (hlen : r.lenAt n ≠ 0)
    (hin : r.blockAt n + 8 ≤ r.body.length) (htarget : r.target t n = some (p, i, el))
    (hread : r.blockAt n + 8 + parametersRead el.raw * 4 ≤ r.body.length) :
    ∃ s', r.At t (n + 1) s' ∧
      s'.taken = s.taken ++ (List.range (parametersRead el.raw)).map (⟨·, numParametersAt r.order r.body (r.blockAt n)⟩) ∧
      parametersLoop r.order r.body t.lookup (rounds + 1) (r.lenAt n) (r.blockAt n) s =
        parametersLoop r.order r.body t.lookup rounds (r.lenAt (n + 1)) (r.blockAt (n + 1)) s' := by
  obtain ⟨hlookup, hi, hel⟩ := target_eq_some.1 htarget
  obtain ⟨hnext, hnonneg⟩ := lenAt_succ hin
  have hcur := hAt p i
  rw [hel, Option.map_some] at hcur
  obtain ⟨el', hel', hraw⟩ := Option.map_eq_some_iff.1 hcur
  have hsame : parametersRead el'.raw = parametersRead el.raw := by rw [hraw, parametersRead_rawAfter]
  obtain ⟨vs, hvs, hvalues⟩ := loadParameters_ok (o := r.order) (m := r.body)
    (p := r.blockAt n + sizeofAuElementParameters) (n := parametersRead el'.raw) (by rw [hsame]; exact hread)
  refine ⟨_, hAt.next (x := s.taken ++ (List.range (parametersRead el.raw)).map
    (⟨·, numParametersAt r.order r.body (r.blockAt n)⟩)) htarget hel' hvalues, rfl, ?_⟩
  · rw [parametersLoop, if_neg hlen, ByteOrder.load_ok (by omega), Exec.ok_bind, hlookup]
    dsimp only
    rw [ByteOrder.load_ok (by omega), Exec.ok_bind, ← hi, hel']
    dsimp only
    rw [ByteOrder.load_ok (by omega), Exec.ok_bind]
    rw [show r.order.read 1 r.body (r.blockAt n + 5) = numParametersAt r.order r.body (r.blockAt n) from rfl, hnext,
      if_neg (by omega), hvs, Exec.ok_bind, hsame]
    congr 1
    rw [r.blockAt_succ n]
    unfold sizeofAuElementParameters sizeofCARD32
    omega

/-- The block the loop is at is refused. -/
theorem loop_refused (rounds : Nat) (hAt : r.At t n s) (hlen : r.lenAt n ≠ 0) (h : r.Refused t n) :
    ∃ status, status ≠ auSuccess ∧
      parametersLoop r.order r.body t.lookup (rounds + 1) (r.lenAt n) (r.blockAt n) s = .ok (status, s) := by
  obtain ⟨hin, htarget, hnum⟩ := h
  rw [parametersLoop, if_neg hlen, ByteOrder.load_ok hin, Exec.ok_bind]
  rcases hlookup : t.lookup (r.order.read 4 r.body (r.blockAt n)) with - | p
  · exact ⟨auBadFlow, by decide, rfl⟩
  · rw [hlookup] at hnum
    refine ⟨auBadElement, by decide, ?_⟩
    have hnone : (t.get p).els[r.order.read 1 r.body (r.blockAt n + 4)]? = none := by
      rw [target, hlookup, Option.bind_some] at htarget
      exact Option.map_eq_none_iff.1 htarget
    have hcur := hAt p (r.order.read 1 r.body (r.blockAt n + 4))
    rw [hnone, Option.map_none, Option.map_eq_none_iff] at hcur
    dsimp only
    rw [ByteOrder.load_ok (by have := hnum rfl; omega), Exec.ok_bind, hcur]

/-- What a round of the loop has done when there was no fault. -/
theorem loop_cases {rounds : Nat} {x : AuStatus × Setting} (hAt : r.At t n s)
    (hlen : r.lenAt n ≠ 0)
    (h : parametersLoop r.order r.body t.lookup (rounds + 1) (r.lenAt n) (r.blockAt n) s = .ok x) :
    r.Refused t n ∨
      r.blockAt n + 8 ≤ r.body.length ∧ ∃ p i el, r.target t n = some (p, i, el) ∧
        r.blockAt n + 8 + parametersRead el.raw * 4 ≤ r.body.length := by
  rw [parametersLoop, if_neg hlen] at h
  obtain ⟨id, hid, h⟩ := Exec.bind_eq_ok.1 h
  obtain ⟨hin, rfl⟩ := load_inside hid
  rcases hlookup : t.lookup (r.order.read 4 r.body (r.blockAt n)) with - | p
  · refine .inl ⟨hin, ?_, ?_⟩
    · rw [target, hlookup, Option.bind_none]
    · rw [hlookup]
      exact fun hno => absurd hno Bool.false_ne_true
  · rw [hlookup] at h
    dsimp only at h
    obtain ⟨num, hnum, h⟩ := Exec.bind_eq_ok.1 h
    obtain ⟨hin₅, rfl⟩ := load_inside hnum
    have hcur := hAt p (r.order.read 1 r.body (r.blockAt n + 4))
    rcases hel : (t.get p).els[r.order.read 1 r.body (r.blockAt n + 4)]? with - | el
    · refine .inl ⟨hin, ?_, fun _ => hin₅⟩
      rw [target, hlookup, Option.bind_some]
      dsimp only
      rw [hel]
      rfl
    · rw [hel, Option.map_some] at hcur
      obtain ⟨el', hel', hraw⟩ := Option.map_eq_some_iff.1 hcur
      rw [hel'] at h
      dsimp only at h
      obtain ⟨k, hk, h⟩ := Exec.bind_eq_ok.1 h
      obtain ⟨hin₆, rfl⟩ := load_inside hk
      have hin₈ : r.blockAt n + 8 ≤ r.body.length := by
        have hwords := r.words
        have hstart := r.blockAt_words n
        omega
      obtain ⟨hnext, hnonneg⟩ := lenAt_succ hin₈
      rw [show r.order.read 1 r.body (r.blockAt n + 5) = numParametersAt r.order r.body (r.blockAt n) from rfl, hnext,
        if_neg (by omega)] at h
      obtain ⟨vs, hvs, -⟩ := Exec.bind_eq_ok.1 h
      refine .inr ⟨hin₈, p, _, el, target_eq_some.2 ⟨hlookup, rfl, hel⟩, ?_⟩
      have hsame : parametersRead el'.raw = parametersRead el.raw := by rw [hraw, parametersRead_rawAfter]
      rw [hsame] at hvs
      by_cases hz : parametersRead el.raw = 0
      · omega
      · exact loadParameters_inside hvs hz

/-- What was taken stays on record. -/
theorem taken_of_loop {o : ByteOrder} {m : List UInt8} {lookup : AuID → Option FlowPtr} {rounds q : Nat} {len : Int}
    {status : AuStatus} (h : parametersLoop o m lookup rounds len q s = .ok (status, s')) : s.taken ⊆ s'.taken := by
  induction rounds generalizing len q s with
  | zero =>
    cases h
    exact fun x hx => hx
  | succ rounds ih =>
    rw [parametersLoop] at h
    split at h
    · cases h
      exact fun x hx => hx
    · obtain ⟨id, -, h⟩ := Exec.bind_eq_ok.1 h
      split at h
      · cases h
        exact fun x hx => hx
      · obtain ⟨num, -, h⟩ := Exec.bind_eq_ok.1 h
        split at h
        · cases h
          exact fun x hx => hx
        · obtain ⟨k, -, h⟩ := Exec.bind_eq_ok.1 h
          dsimp only at h
          split at h
          · cases h
            exact fun x hx => hx
          · obtain ⟨vs, -, h⟩ := Exec.bind_eq_ok.1 h
            exact fun x hx => ih h (List.mem_append_left _ hx)

/-! ### The condition is what makes the loop sound -/

/-- `Sound`, of what the loop makes of the blocks that are left. -/
structure Fine (r : Request) (t : Flows) (x : Exec (AuStatus × Setting)) : Prop where
  inside : ∃ y, x = .ok y
  carried : ∀ status s, x = .ok (status, s) → ∀ y ∈ s.taken, y.index < y.numParameters
  tiled : ∀ s, x = .ok (auSuccess, s) → r.Tiled
  unchanged : ∀ status s, x = .ok (status, s) → status ≠ auSuccess → ∀ p, (s.get p).els.map (·.raw) = (t.get p).els.map (·.raw)

theorem At.unchanged_iff (hAt : r.At t n s) :
    (∀ p, (s.get p).els.map (·.raw) = (t.get p).els.map (·.raw)) ↔ r.AlreadyThere t n := by
  rw [alreadyThere_iff]
  constructor
  · intro h p i el hel
    have hcur := hAt p i
    have hsame := congrArg (·[i]?) (h p)
    rw [List.getElem?_map, List.getElem?_map] at hsame
    rw [hsame, hel, Option.map_some, Option.map_some, Option.some.injEq] at hcur
    exact hcur.symm
  · intro h p
    refine List.ext_getElem? fun i => ?_
    rw [List.getElem?_map, List.getElem?_map, hAt p i]
    rcases hel : (t.get p).els[i]? with - | el
    · rfl
    · rw [Option.map_some, Option.map_some, h p i el hel]

/-- Blocks up to the `n`-th have what is read for their elements; from there on. -/
theorem proper_of_fine {rounds : Nat} (hround : n + rounds = r.numParameters) (hfed : ∀ j < n, r.Fed t j)
    (hn : 8 * n ≤ r.body.length) (hAt : r.At t n s)
    (h : r.Fine t (parametersLoop r.order r.body t.lookup rounds (r.lenAt n) (r.blockAt n) s)) : r.Proper t := by
  induction rounds generalizing n s with
  | zero => exact .inl ⟨h.tiled s rfl, fun j hj => hfed j (by omega)⟩
  | succ rounds ih =>
    have hlen : r.lenAt n ≠ 0 := by
      intro hzero
      have hall := lenAt_eq_zero hn hzero
      have htiled : r.blockAt r.numParameters = r.body.length := by
        refine h.tiled s ?_
        rw [parametersLoop, if_pos hzero]
      have := r.blockAt_add_le n (rounds + 1)
      rw [hround] at this
      omega
    obtain ⟨x, hx⟩ := h.inside
    rcases loop_cases hAt hlen hx with hrefused | ⟨hin, p, i, el, htarget, hread⟩
    · obtain ⟨status, hstatus, hloop⟩ := loop_refused rounds hAt hlen hrefused
      exact .inr ⟨n, by omega, hfed, hrefused, hAt.unchanged_iff.1 (h.unchanged status s hloop hstatus)⟩
    · obtain ⟨s', hAt', htaken, hloop⟩ := loop_fed rounds hAt hlen hin htarget hread
      rw [hloop] at h hx
      refine ih (by omega) (fun j hj => ?_) ?_ hAt' h
      · by_cases hjn : j = n
        · subst hjn
          refine ⟨p, i, el, htarget, ?_⟩
          by_contra hfew
          obtain ⟨status, s''⟩ := x
          have hmem : (⟨numParametersAt r.order r.body (r.blockAt j), numParametersAt r.order r.body (r.blockAt j)⟩ : Taken)
              ∈ s'.taken := by
            rw [htaken]
            exact List.mem_append_right _ (List.mem_map_of_mem (List.mem_range.2 (by omega)))
          exact absurd (h.carried status s'' hx _ (taken_of_loop hx hmem)) (Nat.lt_irrefl _)
        · exact hfed j (by omega)
      · have := r.blockAt_ge n
        omega

/-- The first blocks, when they have what is read for their elements. -/
theorem loop_prefix (hn : n ≤ r.numParameters) (hin : ∀ j < n, r.blockAt (j + 1) ≤ r.body.length)
    (hfed : ∀ j < n, r.Fed t j) :
    ∃ s, r.At t n s ∧ (∀ x ∈ s.taken, x.index < x.numParameters) ∧ 8 * n ≤ r.body.length ∧
      r.parse t = parametersLoop r.order r.body t.lookup (r.numParameters - n) (r.lenAt n) (r.blockAt n) s := by
  induction n with
  | zero =>
    refine ⟨_, at_zero r t, fun x hx => absurd hx List.not_mem_nil, Nat.zero_le _, ?_⟩
    have hstart : r.lenAt 0 = r.body.length := by
      have : r.blockAt 0 = 0 := rfl
      unfold lenAt
      omega
    rw [hstart]
    rfl
  | succ n ih =>
    obtain ⟨s, hAt, htaken, hle, hparse⟩ := ih (by omega) (fun j hj => hin j (by omega)) fun j hj => hfed j (by omega)
    obtain ⟨p, i, el, htarget, hread⟩ := hfed n (by omega)
    have hsucc := r.blockAt_succ n
    have hend := hin n (by omega)
    have hge := r.blockAt_ge n
    have hlen : r.lenAt n ≠ 0 := by
      intro hzero
      have := lenAt_eq_zero hle hzero
      omega
    obtain ⟨s', hAt', htaken', hloop⟩ := loop_fed (r.numParameters - (n + 1)) hAt hlen (by omega) htarget (by omega)
    refine ⟨s', hAt', ?_, by omega, ?_⟩
    · intro x hx
      rw [htaken'] at hx
      rcases List.mem_append.1 hx with hx | hx
      · exact htaken x hx
      · obtain ⟨k, hk, rfl⟩ := List.mem_map.1 hx
        have := List.mem_range.1 hk
        dsimp only
        omega
    · rw [hparse, ← hloop]
      congr 1
      omega

end Request

/-- A request is parsed as it should be when it is proper, and only then. -/
theorem sound_iff (r : Request) (t : Flows) : r.Sound t ↔ r.Proper t := by
  constructor
  · intro h
    obtain ⟨s, hAt, -, hle, hparse⟩ := Request.loop_prefix (r := r) (t := t) (Nat.zero_le _)
      (fun j hj => absurd hj (Nat.not_lt_zero j)) fun j hj => absurd hj (Nat.not_lt_zero j)
    refine Request.proper_of_fine (Nat.zero_add _) (fun j hj => absurd hj (Nat.not_lt_zero j)) hle hAt ?_
    rw [Nat.sub_zero] at hparse
    rw [← hparse]
    exact ⟨h.inside, h.carried, h.tiled, h.unchanged⟩
  · rintro (⟨htiled, hfed⟩ | ⟨n, hn, hfed, hrefused, hthere⟩)
    · have hin : ∀ j < r.numParameters, r.blockAt (j + 1) ≤ r.body.length := by
        intro j hj
        have := r.blockAt_add_le (j + 1) (r.numParameters - (j + 1))
        rw [show j + 1 + (r.numParameters - (j + 1)) = r.numParameters by omega] at this
        have hend : r.blockAt r.numParameters = r.body.length := htiled
        omega
      obtain ⟨s, hAt, htaken, -, hparse⟩ := Request.loop_prefix (Nat.le_refl _) hin hfed
      rw [Nat.sub_self, parametersLoop] at hparse
      refine ⟨⟨_, hparse⟩, ?_, fun _ _ => htiled, fun _ _ => ⟨s, hparse⟩, ?_⟩
      · intro status s' hs
        rw [hparse] at hs
        cases hs
        exact htaken
      · intro status s' hs hne
        rw [hparse] at hs
        cases hs
        exact absurd rfl hne
    · have hin : ∀ j < n, r.blockAt (j + 1) ≤ r.body.length := by
        intro j hj
        have := r.blockAt_add_le (j + 1) (n - (j + 1))
        rw [show j + 1 + (n - (j + 1)) = n by omega] at this
        have := hrefused.1
        omega
      obtain ⟨s, hAt, htaken, hle, hparse⟩ := Request.loop_prefix (Nat.le_of_lt hn) hin hfed
      have hlen : r.lenAt n ≠ 0 := by
        intro hzero
        have := Request.lenAt_eq_zero hle hzero
        have := hrefused.1
        omega
      obtain ⟨status, hstatus, hloop⟩ := Request.loop_refused (r.numParameters - n - 1) hAt hlen hrefused
      rw [show r.numParameters - n = r.numParameters - n - 1 + 1 by omega, hloop] at hparse
      refine ⟨⟨_, hparse⟩, ?_, ?_, ?_, ?_⟩
      · intro status' s' hs
        rw [hparse] at hs
        cases hs
        exact htaken
      · intro s' hs
        rw [hparse] at hs
        cases hs
        exact absurd rfl hstatus
      · intro _ hknown
        have := hknown n hn
        rw [hrefused.2.1] at this
        cases this
      · intro status' s' hs _
        rw [hparse] at hs
        cases hs
        exact hAt.unchanged_iff.2 hthere

/-! ### The blocks as the server takes them -/

/-- The flows that are found are those of the server. -/
def Agree (s : Server) (get : FlowPtr → ServerFlow) : Prop :=
  ∀ id p, lookupIDByType s.clientTable id .auFlowType = some p → s.flows.get p = some (get p)

theorem Agree.set {s : Server} {get : FlowPtr → ServerFlow} (h : Agree s get) (p : FlowPtr) (i : Nat) (el : ServerElement)
    (vs : List Nat) :
    Agree { s.setElement p i { el with raw := el.raw.setParameters fun k => vs.getD k 0, parmsChanged := true } with
        flows := (s.setElement p i { el with raw := el.raw.setParameters fun k => vs.getD k 0, parmsChanged := true }).flows.modify p
          fun f => { f with needsRecompile := true, count := if el.raw.resetsCount then 0 else f.count } }
      (Function.update get p (setFlowParameters (get p) i el vs)) := by
  intro id q hq
  have hget := h id q hq
  dsimp only [Server.setElement]
  rw [Heap.get_modify, Heap.get_modify]
  by_cases hqp : q = p
  · subst hqp
    rw [if_pos rfl, if_pos rfl, hget, Function.update_self]
    rfl
  · rw [if_neg hqp, if_neg hqp, hget, Function.update_of_ne hqp]

/-- A request that is parsed is the list of its blocks to `ProcAuSetElementParameters`. -/
theorem setParameters_of_loop {o : ByteOrder} {m : List UInt8} {rounds q : Nat} {len : Int} {status : AuStatus} {s : Server}
    {x x' : Setting} (hs : Agree s x.get)
    (h : parametersLoop o m (lookupIDByType s.clientTable · .auFlowType) rounds len q x = .ok (status, x')) :
    ∃ blocks s', setParameters blocks s = .ok (status, s') ∧ Agree s' x'.get ∧ s'.clientTable = s.clientTable := by
  induction rounds generalizing len q s x with
  | zero =>
    cases h
    exact ⟨[], s, rfl, hs, rfl⟩
  | succ rounds ih =>
    rw [parametersLoop] at h
    split at h
    · cases h
      exact ⟨[], s, rfl, hs, rfl⟩
    obtain ⟨id, -, h⟩ := Exec.bind_eq_ok.1 h
    rcases hlookup : lookupIDByType s.clientTable id .auFlowType with - | p
    · rw [hlookup] at h
      cases h
      exact ⟨[⟨id, 0, fun _ => 0⟩], s, by rw [setParameters, hlookup], hs, rfl⟩
    rw [hlookup] at h
    dsimp only at h
    obtain ⟨num, -, h⟩ := Exec.bind_eq_ok.1 h
    have hflow : s.flow p = .ok (x.get p) := by rw [Server.flow, hs id p hlookup, Exec.deref_some]
    rcases hel : (x.get p).els[num]? with - | el
    · rw [hel] at h
      cases h
      refine ⟨[⟨id, num, fun _ => 0⟩], s, ?_, hs, rfl⟩
      rw [setParameters, hlookup]
      dsimp only
      rw [hflow, Exec.ok_bind, hel]
    rw [hel] at h
    dsimp only at h
    obtain ⟨k, -, h⟩ := Exec.bind_eq_ok.1 h
    split at h
    · cases h
      exact ⟨[], s, rfl, hs, rfl⟩
    obtain ⟨vs, -, h⟩ := Exec.bind_eq_ok.1 h
    obtain ⟨blocks, s', hblocks, hagree, htable⟩ := ih (x := ⟨_, _⟩) (hs.set p num el vs) h
    refine ⟨⟨id, num, fun k => vs.getD k 0⟩ :: blocks, s', ?_, hagree, htable⟩
    rw [setParameters, hlookup]
    dsimp only
    rw [hflow, Exec.ok_bind, hel]
    exact hblocks

/-- A flow that multiplies. -/
def multiplier : Flows where
  lookup id := if id = 16 then some 0 else none
  get _ := { flowId := 16, elements := some [{ client := 1, raw := .multiplyConstant 0 65536, elementNum := 0, isComponent := false }] }

theorem one_lt_card32 : 1 < 2 ^ 32 := by decide

/-- A block for it that has no parameters. -/
def bareBlock : Request where
  order := .little
  numParameters := 1
  body := [16, 0, 0, 0, 0, 0, 0, 0]
  words := by decide
  numParameters_lt := one_lt_card32
  length_lt := by decide

/-- The parameter that is taken is behind the end of the request. -/
theorem bareBlock_not_sound : ¬ ∀ (r : Request) (t : Flows), r.Sound t := by
  intro h
  obtain ⟨x, hx⟩ := (h bareBlock multiplier).inside
  have hfault : bareBlock.parse multiplier = .error .fault := rfl
  rw [hfault] at hx
  cases hx

end Nas.SetParameters
