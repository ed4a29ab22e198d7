import Nas.ServerRule
import Nas.CompileRule
import Mathlib.Algebra.BigOperators.Ring.List

/-!
# Replies

A reply is a header of 32 bytes, in which `length` says how many words follow it, and what the handler writes
behind it, each piece padded to words by `WriteToClient`. The handlers compute `length` in a pass of their own
(`audispatch.c`). For `GetElements` it comes from `flow->varLen`, which `AuFreeFlowElements` leaves as it is.
-/

namespace Nas

/-- `length` of the header, and the sizes of the pieces. -/
structure Reply where
  length : Nat
  pieces : List Nat
deriving DecidableEq, Repr

namespace Reply

/-- The bytes that are written behind the header. -/
def bytes (rep : Reply) : Nat := (rep.pieces.map pad4).sum

/-- The reply is as long as it says. -/
def Framed (rep : Reply) : Prop := 4 * rep.length = rep.bytes

instance (rep : Reply) : Decidable rep.Framed := inferInstanceAs (Decidable (_ = _))

end Reply

def sizeofAuDeviceAttributes : Nat := 44
def sizeofAuBucketAttributes : Nat := 36
def sizeofAuDeviceID : Nat := 4
def sizeofAuElementState : Nat := 8
def auAccessListMask : Nat := 2 ^ 3

/-- `(fixed + len) >> 2` as a `CARD32`, of a `size_t` and an `int`. -/
def replyLength (fixed len : Nat) : Nat := (((fixed : Int) + asInt32 len) % 2 ^ 64).toNat / 4 % 2 ^ 32

/-- What a reply says about components besides their numbers. -/
structure Descriptions where
  /-- `description.len` -/
  len : ComponentPtr → Nat
  numChildren : ComponentPtr → Nat

/-- The client, and the memory for the copies of elements that it gets in its own byte order. -/
structure Receiver where
  index : Nat
  swapped : Bool
  mem : Nat → Bool

inductive ReplyRequest where
  /-- The devices `AuMatchAttributes` finds. -/
  | listDevices (lengthOk : Bool) (matching : ComponentPtr → Bool)
  | getDeviceAttributes (id : AuID)
  | listBuckets (lengthOk : Bool) (matching : ComponentPtr → Bool)
  | getBucketAttributes (id : AuID)
  | getElements (id : AuID)
  | getElementStates (lengthOk : Bool) (states : List AuElementState)

section
variable (d : Descriptions) (client : Receiver) (fuel : Nat) (mem : Bool) (s : Server)

/-- What is written for a device. -/
def devicePieces (p : ComponentPtr) : List Nat :=
  [sizeofAuDeviceAttributes, d.len p] ++
    if d.numChildren p ≠ 0 then [d.numChildren p * sizeofAuDeviceID] else []

def bucketPieces (p : ComponentPtr) : List Nat := [sizeofAuBucketAttributes, d.len p]

def procAuListDevices (lengthOk : Bool) (matching : ComponentPtr → Bool) : Exec (Option Reply) :=
  if ¬ lengthOk then .ok none
  else do
    let ps ← LinkedList.walk s.liveComponent s.compLinks fuel s.auDevices
    let listed := ps.filter matching
    let len := (listed.map fun p =>
      pad4 (d.len p) + if d.numChildren p ≠ 0 then d.numChildren p * sizeofAuDeviceID else 0).sum
    .ok (some ⟨replyLength (sizeofAuDeviceAttributes * listed.length) len, listed.flatMap (devicePieces d)⟩)

def procAuGetDeviceAttributes (id : AuID) : Exec (Option Reply) :=
  match lookupIDByType s.clientTable id .auComponentType with
  | none => .ok none
  | some p => .ok (some
    ⟨replyLength sizeofAuDeviceAttributes (pad4 (d.len p) + pad4 (d.numChildren p * sizeofAuDeviceID)), devicePieces d p⟩)

/-- `c->list` of a bucket. -/
def listedBucket (matching : ComponentPtr → Bool) (p : ComponentPtr) : Bool :=
  match s.comps p with
  | none => false
  | some c => !c.destroyed && (clientId c.id == client.index || c.access &&& auAccessListMask != 0) && matching p

def procAuListBuckets (lengthOk : Bool) (matching : ComponentPtr → Bool) : Exec (Option Reply) :=
  if ¬ lengthOk then .ok none
  else do
    let ps ← LinkedList.walk s.liveComponent s.compLinks fuel s.auBuckets
    let listed := ps.filter (listedBucket client s matching)
    let len := (listed.map fun p => pad4 (d.len p)).sum
    .ok (some ⟨replyLength (sizeofAuBucketAttributes * listed.length) len, listed.flatMap (bucketPieces d)⟩)

def procAuGetBucketAttributes (id : AuID) : Exec (Option Reply) :=
  match lookupIDByType s.clientTable id .auComponentType with
  | none => .ok none
  | some p => .ok (some ⟨replyLength sizeofAuBucketAttributes (pad4 (d.len p)), bucketPieces d p⟩)

/-- The elements `AuCopySwapElementWrite` has memory for, and all of them for a client of the server's byte order. -/
def writtenElements (els : List ServerElement) : List Nat :=
  (els.zipIdx.filter fun e => !client.swapped || client.mem e.2).map fun e => e.1.raw.varLen + sizeofAuElement

def procAuGetElements (id : AuID) : Exec (Option Reply) :=
  match lookupIDByType s.clientTable id .auFlowType with
  | none => .ok none
  | some p => do
    let f ← s.flow p
    .ok (some ⟨replyLength (sizeofAuElement * f.numElements) f.varLen, writtenElements client f.els⟩)

/-- The error checks of `ProcAuGetElementStates`, with the number of states that go out for each one asked for. -/
def countStates : List AuElementState → Exec (Option (List Nat))
  | [] => .ok (some [])
  | st :: states =>
    match lookupIDByType s.clientTable st.flow .auFlowType with
    | none => .ok none
    | some p => do
      let f ← s.flow p
      if st.elementNum ≠ auElementAll ∧ ¬ (f.els[st.elementNum]?).any (·.isComponent) then .ok none
      else do
        let counts ← countStates states
        .ok (counts.map ((if st.elementNum = auElementAll then f.numElements else 1) :: ·))

def procAuGetElementStates (lengthOk : Bool) (states : List AuElementState) : Exec (Option Reply) :=
  if ¬ lengthOk then .ok none
  else if ¬ aualloc mem (8 * states.length) then .ok none
  else do
    let counts ← countStates s states
    .ok (counts.map fun counts =>
      ⟨replyLength (sizeofAuElementState * counts.sum) 0, counts.flatMap fun n => List.replicate n sizeofAuElementState⟩)

/-- The reply to a request, if it has one. -/
def reply : ReplyRequest → Exec (Option Reply)
  | .listDevices lengthOk matching => procAuListDevices d fuel s lengthOk matching
  | .getDeviceAttributes id => procAuGetDeviceAttributes d s id
  | .listBuckets lengthOk matching => procAuListBuckets d client fuel s lengthOk matching
  | .getBucketAttributes id => procAuGetBucketAttributes d s id
  | .getElements id => procAuGetElements client s id
  | .getElementStates lengthOk states => procAuGetElementStates mem s lengthOk states

end

/-! ### The sizes of variable parts -/

namespace Flow

/-- A flow's `varLen` is that of its elements, if it has any. If it has none, nothing is compiled. -/
structure Measured (f : ServerFlow) : Prop where
  varLen : ∀ els, f.elements = some els → f.varLen = (els.map (·.raw.varLen)).sum
  idle : f.elements = none → f.compiled.outputs = []

variable {f f' : ServerFlow}

theorem Measured.congr (h : f.Measured) (hfix : f'.fixed = f.fixed) : f'.Measured := by
  have hvar : f'.varLen = f.varLen := congrArg (·.varLen) hfix
  have hraws : f'.els.map (·.raw.varLen) = f.els.map (·.raw.varLen) := by
    have := congrArg (List.map fun e : ServerElement => e.raw.varLen) (fixed_els hfix)
    simpa [List.map_map, Function.comp_def, FlowElement.fixed] using this
  refine ⟨fun l hels => ?_, fun hnone => ?_⟩
  · have hsome : f.elements.isSome := by rw [← fixed_isSome hfix, hels]; rfl
    obtain ⟨els', hels'⟩ := Option.isSome_iff_exists.1 hsome
    have := h.varLen els' hels'
    have hl' : f.els = els' := by rw [Flow.els, hels']; rfl
    have hl : f'.els = l := by rw [Flow.els, hels]; rfl
    rw [hvar, this, ← hl', ← hl, hraws]
  · have hnone' : f.elements = none := by
      have := fixed_isSome hfix
      rw [hnone] at this
      simpa using this.symm
    rw [fixed_compiled hfix]
    exact h.idle hnone'

theorem Measured.of_raws (h : f.Measured) (hvar : f'.varLen = f.varLen)
    (hels : f'.elements.map (List.map (·.raw.varLen)) = f.elements.map (List.map (·.raw.varLen)))
    (hcompiled : f.elements = none → f'.compiled.outputs = []) : f'.Measured := by
  refine ⟨fun els hsome => ?_, fun hnone => ?_⟩
  · rw [hsome] at hels
    obtain ⟨els', hels', hmap⟩ := Option.map_eq_some_iff.1 hels.symm
    rw [hvar, h.varLen els' hels', hmap]
  · rw [hnone] at hels
    exact hcompiled (Option.map_eq_none_iff.1 hels.symm)

end Flow

/-- The invariant, whatever references there are. -/
def FlowsMeasured (_ : List ComponentPtr) (s : Server) : Prop := ∀ p f, s.flows.get p = some f → f.Measured

namespace FlowsMeasured
variable {h h' : List ComponentPtr} {s s' : Server} {p : FlowPtr} {g : ServerFlow → ServerFlow}

theorem of_flows (hs : FlowsMeasured h s) (hflows : s'.flows = s.flows) : FlowsMeasured h' s' := by
  intro q f hf
  rw [hflows] at hf
  exact hs q f hf

theorem modify (hs : FlowsMeasured h s) (hg : ∀ f, s.flows.get p = some f → f.Measured → (g f).Measured)
    (hflows : s'.flows = s.flows.modify p g) : FlowsMeasured h s' := by
  intro q f hf
  rw [hflows, Heap.get_modify] at hf
  split at hf
  · rename_i hq
    subst hq
    obtain ⟨f₀, hf₀, rfl⟩ := Option.map_eq_some_iff.1 hf
    exact hg f₀ hf₀ (hs q f₀ hf₀)
  · exact hs q f hf

end FlowsMeasured

theorem AuElement.varLen_setParameters (v : Nat → Nat) (el : AuElement AuFixedPoint) :
    (el.setParameters v).varLen = el.varLen := by
  cases el <;> rfl

theorem flowsMeasured_rule : Rule FlowsMeasured where
  idle hs hf hnone := (hs _ _ hf).idle hnone
  static hs hst := by
    intro p f' hf'
    obtain ⟨f, hf, hfix⟩ := hst.symm.get hf'
    exact (hs p f hf).congr hfix.symm
  unlinked hs hlinks := hs.of_flows (congrArg (·.flows) hlinks)
  connected hs _ := hs.of_flows rfl
  created {h s id links} hs := by
    intro p f hf
    dsimp only at hf
    rw [Heap.get_alloc] at hf
    split at hf
    · cases hf
      exact ⟨fun _ hels => (by cases hels), fun _ => rfl⟩
    · exact hs p f hf
  grown hs _ := hs.of_flows rfl
  added hs _ := hs.of_flows rfl
  taken hs := hs.of_flows rfl
  closed hs := hs.of_flows rfl
  givenBack hs he := hs.of_flows (auFreeComponent_flows he)
  emptied hs _ he := (hs.of_flows (freeCompiledFlow_flows he)).modify
    (fun f _ _ => ⟨fun _ hels => (by cases hels), fun _ => rfl⟩) rfl
  freed {h s p f} hs _ _ := by
    intro q f' hf'
    dsimp only at hf'
    rw [Heap.get_free] at hf'
    split at hf'
    · cases hf'
    · exact hs q f' hf'
  installed {h s p f clocked els raws} hs hf hnone hels := by
    refine hs.modify (fun f₀ _ _ => ⟨fun els' hels' => ?_, fun hn => by cases hn⟩) rfl
    cases hels'
    rw [Flow.install, ← hels.raws, List.map_map]
    rfl
  compiled {h env s s' p f status} hs hf houtputs he := by
    obtain ⟨f', hf', he⟩ := Exec.bind_eq_ok.1 he
    obtain ⟨⟨status₁, st⟩, hst, he⟩ := Exec.bind_eq_ok.1 he
    cases he
    rw [Server.flow, Exec.deref_eq_ok] at hf'
    refine hs.modify (fun f₀ hf₀ hm => ?_) rfl
    obtain rfl : f' = f₀ := Option.some.inj (hf'.symm.trans hf₀)
    have hraws := congrArg (List.map AuElement.varLen) (auCompileFlow_raws hst)
    rw [List.map_map, List.map_map] at hraws
    rcases hels : f'.elements with - | els
    · refine ⟨fun els hels' => ?_, fun _ => ?_⟩
      · rw [Flow.setCompiled, hels] at hels'
        cases hels'
      · have hnil : f'.els = [] := by rw [Flow.els, hels]; rfl
        rw [auCompileFlow, hnil] at hst
        cases hst
        rfl
    · refine hm.of_raws rfl ?_ fun hnone => ?_
      · rw [Flow.setCompiled, hels, Option.map_some, Option.map_some, Option.map_some]
        rw [Flow.els, hels] at hraws
        exact congrArg some hraws
      · rw [hels] at hnone
        cases hnone
  recompiled {h s p f f' fuel status} hs hf he := by
    refine hs.modify (g := fun f => { f with compiled := f'.compiled }) (fun f₀ hf₀ hm => hm.of_raws rfl rfl fun hnone => ?_) rfl
    obtain rfl : f = f₀ := Option.some.inj (hf.symm.trans hf₀)
    obtain ⟨⟨status₁, outputs⟩, houtputs, he⟩ := Exec.bind_eq_ok.1 he
    cases he
    rw [Flow.els, hnone, hm.idle hnone] at houtputs
    cases houtputs
    rfl
  parameters {h s p i el v} hs hel := by
    refine hs.modify (g := (·.setElement i { el with raw := el.raw.setParameters v, parmsChanged := true }))
      (fun f hf hm => hm.of_raws rfl ?_ hm.idle) rfl
    rw [Server.element, hf] at hel
    rcases hels : f.elements with - | els
    · rw [Flow.setElement, hels]
      rfl
    · have hi : els[i]? = some el := by simpa [Flow.els, hels] using hel
      rw [Flow.setElement, hels, Option.map_some, Option.map_some, Option.map_some]
      exact congrArg some (map_set_self hi (AuElement.varLen_setParameters v el.raw))
  noted {h s p g} hs hg := by
    refine hs.modify (fun f _ hm => ?_) rfl
    obtain ⟨trivial, needsRecompile, count, heq⟩ := hg f
    rw [heq]
    exact ⟨hm.varLen, hm.idle⟩
  bucket hs := hs.of_flows rfl
  contents hs _ _ := hs.of_flows rfl

/-! ### Framing -/

/-- The range in which `length` says what it should: the variable part is summed up in an `int`, the whole in a
`CARD32` of words. -/
def Announced (fixed len : Nat) : Prop := fixed + len < 2 ^ 34 ∧ (len < 2 ^ 31 ∨ 2 ^ 34 - 2 ^ 31 ≤ len)

instance (fixed len : Nat) : Decidable (Announced fixed len) := inferInstanceAs (Decidable (_ ∧ _))

/-- What must be the case for a request's reply to be framed. -/
def ReplyRequest.Announced (d : Descriptions) (client : Receiver) (fuel : Nat) (s : Server) : ReplyRequest → Prop
  | .listDevices _ matching => ∀ ps, LinkedList.walk s.liveComponent s.compLinks fuel s.auDevices = .ok ps →
    Nas.Announced (sizeofAuDeviceAttributes * (ps.filter matching).length)
      ((ps.filter matching).map fun p => pad4 (d.len p) + d.numChildren p * sizeofAuDeviceID).sum
  | .getDeviceAttributes id => ∀ p, lookupIDByType s.clientTable id .auComponentType = some p →
    Nas.Announced sizeofAuDeviceAttributes (pad4 (d.len p) + d.numChildren p * sizeofAuDeviceID)
  | .listBuckets _ matching => ∀ ps, LinkedList.walk s.liveComponent s.compLinks fuel s.auBuckets = .ok ps →
    Nas.Announced (sizeofAuBucketAttributes * (ps.filter (listedBucket client s matching)).length)
      ((ps.filter (listedBucket client s matching)).map fun p => pad4 (d.len p)).sum
  | .getBucketAttributes id => ∀ p, lookupIDByType s.clientTable id .auComponentType = some p →
    Nas.Announced sizeofAuBucketAttributes (pad4 (d.len p))
  | .getElements id => ∀ p f, lookupIDByType s.clientTable id .auFlowType = some p → s.flows.get p = some f →
    -- an emptied flow was empty before
    (f.elements = none → f.varLen = 0) ∧
    -- there is memory for the copies
    (client.swapped → ∀ i < f.numElements, client.mem i) ∧
    Nas.Announced (sizeofAuElement * f.numElements) f.varLen
  | .getElementStates _ states => ∀ counts, countStates s states = .ok (some counts) →
    Nas.Announced (sizeofAuElementState * counts.sum) 0

theorem replyLength_eq {fixed len : Nat} (h : Announced fixed len) (hdvd : 4 ∣ fixed + len) :
    4 * replyLength fixed len = fixed + len := by
  obtain ⟨hsum, hlen⟩ := h
  obtain ⟨k, hk⟩ := hdvd
  have hint : asInt32 len = len ∨ asInt32 len = (len : Int) - 2 ^ 34 := by
    unfold asInt32
    rcases hlen with hlen | hlen
    · left
      rw [Nat.mod_eq_of_lt (by omega), if_pos hlen]
    · right
      rw [if_neg (by omega)]
      omega
  unfold replyLength
  rcases hint with hint | hint
  · rw [hint]
    omega
  · rw [hint]
    omega

namespace Reply

theorem four_dvd_bytes (rep : Reply) : 4 ∣ rep.bytes := by
  obtain ⟨length, pieces⟩ := rep
  induction pieces with
  | nil => exact Nat.dvd_zero 4
  | cons n pieces ih =>
    have hn : 4 ∣ pad4 n := Dvd.intro_left _ rfl
    have ih : 4 ∣ (pieces.map pad4).sum := ih
    rw [bytes, List.map_cons, List.sum_cons]
    exact Nat.dvd_add hn ih

theorem framed_of {fixed len : Nat} {pieces : List Nat} (h : Announced fixed len)
    (hbytes : bytes ⟨replyLength fixed len, pieces⟩ = fixed + len) : Framed ⟨replyLength fixed len, pieces⟩ := by
  have hdvd : 4 ∣ fixed + len := by
    rw [← hbytes]
    exact four_dvd_bytes _
  rw [Framed, hbytes, replyLength_eq h hdvd]

theorem bytes_flatMap {α : Type} (length fixed : Nat) (pieces : α → List Nat) (len : α → Nat) (l : List α)
    (h : ∀ a, ((pieces a).map pad4).sum = fixed + len a) :
    bytes ⟨length, l.flatMap pieces⟩ = fixed * l.length + (l.map len).sum := by
  induction l with
  | nil => rfl
  | cons a l ih =>
    have ih : ((l.flatMap pieces).map pad4).sum = fixed * l.length + (l.map len).sum := ih
    rw [bytes, List.flatMap_cons, List.map_append, List.sum_append, h, ih, List.length_cons, List.map_cons,
      List.sum_cons,
      Nat.mul_succ]
    omega

end Reply

theorem pad4_words (n : Nat) : pad4 (n * 4) = n * 4 := by unfold pad4; omega

theorem devicePieces_sum (d : Descriptions) (p : ComponentPtr) :
    ((devicePieces d p).map pad4).sum =
      sizeofAuDeviceAttributes + (pad4 (d.len p) + d.numChildren p * sizeofAuDeviceID) := by
  have hfixed : pad4 sizeofAuDeviceAttributes = sizeofAuDeviceAttributes := rfl
  unfold devicePieces
  split
  · rw [List.map_append, List.sum_append]
    simp only [List.map_cons, List.map_nil, List.sum_cons, List.sum_nil, hfixed]
    rw [show pad4 (d.numChildren p * sizeofAuDeviceID) = d.numChildren p * sizeofAuDeviceID from pad4_words _]
    omega
  · rename_i hzero
    rw [show d.numChildren p = 0 by simpa using hzero]
    simp [hfixed]

theorem bucketPieces_sum (d : Descriptions) (p : ComponentPtr) :
    ((bucketPieces d p).map pad4).sum = sizeofAuBucketAttributes + pad4 (d.len p) := rfl

theorem AuElement.pad4_varLen (el : AuElement AuFixedPoint) :
    pad4 (el.varLen + sizeofAuElement) = sizeofAuElement + el.varLen := by
  have h : 4 ∣ el.varLen := by
    cases el <;> first
      | exact Dvd.intro_left _ rfl
      | exact (show 4 ∣ sizeofAuElementAction by decide).mul_left _
  rw [pad4, sizeofAuElement]
  omega

/-- All elements are written for a client that gets them as they are, or for whose copies there is memory. -/
theorem writtenElements_eq {client : Receiver} {els : List ServerElement}
    (h : client.swapped → ∀ i < els.length, client.mem i) :
    writtenElements client els = els.map fun e => e.raw.varLen + sizeofAuElement := by
  have hall : els.zipIdx.filter (fun e => !client.swapped || client.mem e.2) = els.zipIdx := by
    refine List.filter_eq_self.2 fun e he => ?_
    have hlt : e.2 < els.length := by
      have := List.snd_lt_of_mem_zipIdx he
      omega
    by_cases hs : client.swapped
    · simp [h hs e.2 hlt]
    · simp [hs]
  have hfst := congrArg (List.map fun e : ServerElement => e.raw.varLen + sizeofAuElement) (List.zipIdx_map_fst 0 els)
  rw [List.map_map] at hfst
  rw [writtenElements, hall, ← hfst]
  rfl

theorem writtenElements_sum (els : List ServerElement) :
    ((els.map fun e => e.raw.varLen + sizeofAuElement).map pad4).sum =
      sizeofAuElement * els.length + (els.map (·.raw.varLen)).sum := by
  induction els with
  | nil => rfl
  | cons e els ih =>
    rw [List.map_cons, List.map_cons, List.sum_cons, ih, AuElement.pad4_varLen, List.length_cons, List.map_cons,
      List.sum_cons, Nat.mul_succ]
    omega

section
variable {d : Descriptions} {client : Receiver} {fuel : Nat} {mem : Bool} {s s₀ : Server} {rep : Reply}

theorem listDevices_framed {lengthOk : Bool} {matching : ComponentPtr → Bool}
    (h : (ReplyRequest.listDevices lengthOk matching).Announced d client fuel s)
    (he : procAuListDevices d fuel s lengthOk matching = .ok (some rep)) : rep.Framed := by
  unfold procAuListDevices at he
  split at he
  · cases he
  · obtain ⟨ps, hps, he⟩ := Exec.bind_eq_ok.1 he
    cases he
    have hlen : (fun p => pad4 (d.len p) + if d.numChildren p ≠ 0 then d.numChildren p * sizeofAuDeviceID else 0) =
        fun p => pad4 (d.len p) + d.numChildren p * sizeofAuDeviceID := by
      funext p
      split
      · rfl
      · rename_i hzero
        rw [show d.numChildren p = 0 by simpa using hzero, Nat.zero_mul]
    rw [hlen]
    exact Reply.framed_of (h ps hps) (Reply.bytes_flatMap _ _ _ _ _ (devicePieces_sum d))

theorem getDeviceAttributes_framed {id : AuID} (h : (ReplyRequest.getDeviceAttributes id).Announced d client fuel s)
    (he : procAuGetDeviceAttributes d s id = .ok (some rep)) : rep.Framed := by
  unfold procAuGetDeviceAttributes at he
  split at he
  · cases he
  · rename_i p hp
    cases he
    rw [show pad4 (d.numChildren p * sizeofAuDeviceID) = d.numChildren p * sizeofAuDeviceID from pad4_words _]
    exact Reply.framed_of (h p hp) (devicePieces_sum d p)

theorem listBuckets_framed {lengthOk : Bool} {matching : ComponentPtr → Bool}
    (h : (ReplyRequest.listBuckets lengthOk matching).Announced d client fuel s)
    (he : procAuListBuckets d client fuel s lengthOk matching = .ok (some rep)) : rep.Framed := by
  unfold procAuListBuckets at he
  split at he
  · cases he
  · obtain ⟨ps, hps, he⟩ := Exec.bind_eq_ok.1 he
    cases he
    exact Reply.framed_of (h ps hps) (Reply.bytes_flatMap _ _ _ _ _ (bucketPieces_sum d))

theorem getBucketAttributes_framed {id : AuID} (h : (ReplyRequest.getBucketAttributes id).Announced d client fuel s)
    (he : procAuGetBucketAttributes d s id = .ok (some rep)) : rep.Framed := by
  unfold procAuGetBucketAttributes at he
  split at he
  · cases he
  · rename_i p hp
    cases he
    exact Reply.framed_of (h p hp) (bucketPieces_sum d p)

theorem getElements_framed {id : AuID} (hs : FlowsMeasured [] s)
    (h : (ReplyRequest.getElements id).Announced d client fuel s)
    (he : procAuGetElements client s id = .ok (some rep)) : rep.Framed := by
  unfold procAuGetElements at he
  split at he
  · cases he
  · rename_i p hp
    obtain ⟨f, hf, he⟩ := Exec.bind_eq_ok.1 he
    cases he
    rw [Server.flow, Exec.deref_eq_ok] at hf
    obtain ⟨hempty, hmem, hannounced⟩ := h p f hp hf
    refine Reply.framed_of hannounced ?_
    rw [writtenElements_eq hmem, Reply.bytes, writtenElements_sum]
    rcases hels : f.elements with - | els
    · rw [hempty hels, Flow.numElements, Flow.els, hels]
      rfl
    · rw [(hs p f hf).varLen els hels, Flow.numElements, Flow.els, hels]
      rfl

theorem getElementStates_framed {lengthOk : Bool} {states : List AuElementState}
    (h : (ReplyRequest.getElementStates lengthOk states).Announced d client fuel s)
    (he : procAuGetElementStates mem s lengthOk states = .ok (some rep)) : rep.Framed := by
  unfold procAuGetElementStates at he
  split at he
  · cases he
  · split at he
    · cases he
    · obtain ⟨o, ho, he⟩ := Exec.bind_eq_ok.1 he
      rcases o with - | counts
      · cases he
      · cases he
        refine Reply.framed_of (h counts ho) ?_
        have hpieces := Reply.bytes_flatMap (replyLength (sizeofAuElementState * counts.sum) 0) 0
          (fun n => List.replicate n sizeofAuElementState) (fun n => sizeofAuElementState * n) counts fun n => by
            rw [List.map_replicate, List.sum_replicate_nat, Nat.zero_add, Nat.mul_comm]
            rfl
        rw [hpieces, Nat.zero_mul, Nat.zero_add, Nat.add_zero, List.sum_map_mul_left, List.map_id']

/-- Every reply is as long as it says, in any state that a server without flows can get to, if it is short enough,
if there is memory for the copies of elements, and if no elements were lost with their `varLen` kept. -/
theorem reply_framed (hs₀ : ∀ p, s₀.flows.get p = none) (hreach : Reach step (fun _ _ => True) s₀ s)
    {r : ReplyRequest} (hr : r.Announced d client fuel s) (he : reply d client fuel mem s r = .ok (some rep)) :
    rep.Framed := by
  have hmeasured : FlowsMeasured [] s :=
    flowsMeasured_rule.reach (fun _ _ _ hs => hs) (fun p f hf => by rw [hs₀ p] at hf; cases hf) hreach
  cases r with
  | listDevices lengthOk matching => exact listDevices_framed hr he
  | getDeviceAttributes id => exact getDeviceAttributes_framed hr he
  | listBuckets lengthOk matching => exact listBuckets_framed hr he
  | getBucketAttributes id => exact getBucketAttributes_framed hr he
  | getElements id => exact getElements_framed hmeasured hr he
  | getElementStates lengthOk states => exact getElementStates_framed hr he

/-- A flow without elements is announced with the words its last ones had. -/
theorem getElements_emptied {id : AuID} {p : FlowPtr} {f : ServerFlow}
    (hp : lookupIDByType s.clientTable id .auFlowType = some p) (hf : s.flows.get p = some f)
    (hnone : f.elements = none) (hlt : f.varLen < 2 ^ 31) :
    procAuGetElements client s id = .ok (some ⟨f.varLen / 4, []⟩) := by
  unfold procAuGetElements
  rw [hp]
  have hels : f.els = [] := by rw [Flow.els, hnone]; rfl
  have hint : asInt32 f.varLen = f.varLen := by rw [asInt32, Nat.mod_eq_of_lt (by omega), if_pos hlt]
  have hlen : replyLength (sizeofAuElement * f.numElements) f.varLen = f.varLen / 4 := by
    rw [Flow.numElements, hels, replyLength, hint, List.length_nil, Nat.mul_zero]
    omega
  have hflow : s.flow p = .ok f := Exec.deref_eq_ok.2 hf
  simp only [hflow, Exec.ok_bind, hlen, hels]
  rfl

end

/-! ### A client that sets elements -/

def readingEnv : Env where
  auAverageFlows := false
  auMinibufSamples := 4
  fuel := 4
  mem _ := true
  processMem _ _ := true

def swappedClient : Receiver := ⟨1, true, fun _ => true⟩

/-- A port with one action, from which a client of the other kind reads. -/
def portElements (action : AuElementAction) : SetElementsRequest where
  client := 1
  flow := 2 ^ 22
  clocked := true
  len := 60
  elements := [.importClient ⟨8000, 1, 1, false, 8, 2, [action]⟩, .exportClient ⟨8000, 0, 1, 1, false, 8, 6, []⟩]

def settingElements (action : AuElementAction) : List (Env × Input) :=
  [(readingEnv, .request (.connect 1)), (readingEnv, .request (.createFlow (2 ^ 22))),
    (readingEnv, .request (.setElements (portElements action)))]

theorem portElements_framed : ∃ s rep,
    reply ⟨fun _ => 0, fun _ => 0⟩ swappedClient 4 true s (.getElements (2 ^ 22)) = .ok (some rep) ∧
      rep = ⟨15, [36, 24]⟩ ∧ rep.Framed := by
  have hrun : (do
      let s ← List.foldlM step {} (settingElements ⟨0, 0, 0, 255, 255, 2, 0⟩)
      let p ← Exec.deref (lookupIDByType s.clientTable (2 ^ 22) .auFlowType)
      let f ← s.flow p
      let rep ← reply ⟨fun _ => 0, fun _ => 0⟩ swappedClient 4 true s (.getElements (2 ^ 22))
      .ok (f.elements.isSome, f.numElements, f.varLen, rep)) = .ok (true, 2, 12, some ⟨15, [36, 24]⟩) := rfl
  obtain ⟨s, hs, hrun⟩ := Exec.bind_eq_ok.1 hrun
  obtain ⟨p, hp, hrun⟩ := Exec.bind_eq_ok.1 hrun
  obtain ⟨f, hf, hrun⟩ := Exec.bind_eq_ok.1 hrun
  obtain ⟨o, he, hrun⟩ := Exec.bind_eq_ok.1 hrun
  simp only [Except.ok.injEq, Prod.mk.injEq] at hrun
  obtain ⟨hsome, hnum, hvar, rfl⟩ := hrun
  rw [Exec.deref_eq_ok] at hp
  rw [Server.flow, Exec.deref_eq_ok] at hf
  have hr : (ReplyRequest.getElements (2 ^ 22)).Announced ⟨fun _ => 0, fun _ => 0⟩ swappedClient 4 s := by
    intro q f' hq hf'
    obtain rfl : p = q := Option.some.inj (hp.symm.trans hq)
    obtain rfl : f = f' := Option.some.inj (hf.symm.trans hf')
    rw [hnum, hvar]
    refine ⟨fun hnone => ?_, fun _ _ _ => rfl, by decide⟩
    rw [hnone] at hsome
    cases hsome
  exact ⟨s, _, he, rfl, reply_framed (fun _ => rfl) (.run hs) hr he⟩

/-- `SetElements` fails for an action with an unknown trigger, and the flow has no elements from then on. -/
theorem lostElements_not_framed : ¬ ∀ (s₀ s : Server) (d : Descriptions) (client : Receiver) (fuel : Nat) (mem : Bool)
    (r : ReplyRequest) (rep : Reply), (∀ p, s₀.flows.get p = none) → Reach step (fun _ _ => True) s₀ s →
      reply d client fuel mem s r = .ok (some rep) → rep.Framed := by
  intro h
  have hrun : (do
      let s ← List.foldlM step {} (settingElements ⟨0, 0, 9, 255, 255, 2, 0⟩)
      reply ⟨fun _ => 0, fun _ => 0⟩ swappedClient 4 true s (.getElements (2 ^ 22))) = .ok (some ⟨3, []⟩) := rfl
  obtain ⟨s, hs, he⟩ := Exec.bind_eq_ok.1 hrun
  exact absurd (h {} s _ _ _ _ _ _ (fun _ => rfl) (.run hs) he) (by decide)

end Nas
