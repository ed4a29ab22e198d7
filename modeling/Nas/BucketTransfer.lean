import Nas.Dispatch
import Nas.RequestLayout

/-!
# Data to and from a bucket

`AuWriteElement` cuts its data into requests that are not too long, and marks them so that the server knows which is the
last. A trivial flow takes them straight into its bucket, or sends what is in the bucket, and counts how far it has got.

Over this is a file: its content, and where each flow is in it (`File`). However the data is cut, a call writes all of
it at once (`writeLoop_ok`), and so the flows on one bucket are openings of one file.
-/

namespace Nas.BucketTransfer

open AuStatus

/-! ### Calls of a client -/

section
variable (env : Env)

/-- `_AuWriteElement`: a request, and what the server answers. -/
def writeRequest (flow : AuID) (elementNum state : Nat) (bytes : List UInt8) (s : Server) : Exec (AuStatus × Server) :=
  let length := (Requests.sizeofAuWriteElementReq / 4 + pad4 bytes.length / 4) % 2 ^ 16
  procAuWriteElement env
    { flow, elementNum, state, bytes
      lengthOk := length - Requests.sizeofAuWriteElementReq / 4 = pad4 bytes.length / 4 } s

/-- The loop of `AuWriteElement`. Without `ret_status` nothing is known of the answers. -/
def writeLoop (flow : AuID) (elementNum finalState : Nat) (retStatus : Bool) (maxBytes : Nat) :
    (rounds : Nat) → List UInt8 → Server → Exec (AuStatus × Server)
  | 0, _, _ => .error .fuel
  | rounds + 1, data, s => do
    let rest := data.drop maxBytes
    let state := if rest ≠ [] then auTransferStatePending else finalState
    let (answer, s) ← writeRequest env flow elementNum state (data.take maxBytes) s
    let status := if retStatus then answer else auSuccess
    if status = auSuccess ∧ rest ≠ [] then writeLoop flow elementNum finalState retStatus maxBytes rounds rest s
    else .ok (status, s)

def auWriteElement (maxRequestSize : Nat) (flow : AuID) (elementNum : Nat) (data : List UInt8)
    (endOfData retStatus : Bool) (s : Server) : Exec (AuStatus × Server) :=
  let finalState := if endOfData then auTransferStateEnd else auTransferStateReady
  writeLoop env flow elementNum finalState retStatus (sub32 maxRequestSize Requests.sizeofAuWriteElementReq)
    (data.length + 1) data s

/-- The reply of `ProcAuReadElement` for a trivial flow, and the bytes behind it. -/
def trivialReply (flow : AuID) (elementNum num_bytes : Nat) (s : Server) : Exec (AuReadElementReply × Sent) := do
  let p ← Exec.deref (lookupIDByType s.clientTable flow .auFlowType)
  let f ← s.flow p
  let (_, c, d) ← trivialBucket f elementNum s
  if d > c.dataSize then .error .fault
  else do
    let numBytes := min num_bytes (c.dataSize - d)
    let sent ← writeToClient [] numBytes (c.data.drop d)
    .ok (⟨(numBytes + 3) / 4, numBytes⟩, sent)

/-- `_AuReadPad` of what is behind the reply. A pad byte has no value. -/
def readPad (rep : AuReadElementReply) (sent : Sent) : Exec (List UInt8) :=
  if sent.length = pad4 rep.numBytes then (sent.take rep.numBytes).mapM Exec.deref else .error .fault

/-- `AuReadElement` with a trivial flow, as far as it is not refused. -/
def auReadElement (flow : AuID) (elementNum num_bytes : Nat) (s : Server) : Exec (List UInt8 × Server) := do
  let (rep, sent) ← trivialReply flow elementNum num_bytes s
  let (_, s) ← procAuReadElement env flow elementNum num_bytes s
  let bytes ← readPad rep sent
  .ok (bytes, s)

inductive Call where
  | write (maxRequestSize : Nat) (flow : AuID) (elementNum : Nat) (data : List UInt8) (endOfData retStatus : Bool)
  | read (flow : AuID) (elementNum num_bytes : Nat)
deriving DecidableEq, Repr

inductive Result where
  | written (status : AuStatus)
  | data (bytes : List UInt8)
deriving DecidableEq, Repr

def call (s : Server) : Call → Exec (Result × Server)
  | .write maxRequestSize flow elementNum data endOfData retStatus => do
    let (status, s) ← auWriteElement env maxRequestSize flow elementNum data endOfData retStatus s
    .ok (.written status, s)
  | .read flow elementNum num_bytes => do
    let (bytes, s) ← auReadElement env flow elementNum num_bytes s
    .ok (.data bytes, s)

def run : List Call → Server → Exec (List Result × Server)
  | [], s => .ok ([], s)
  | c :: calls, s => do
    let (result, s) ← call env s c
    let (results, s) ← run calls s
    .ok (result :: results, s)

end

/-! ### Files -/

/-- Where a flow begins in its bucket, and how far it has got. -/
structure Cursor where
  elementNum : Nat
  base : Nat
  count : Nat
deriving DecidableEq, Repr

def Cursor.pos (cur : Cursor) : Nat := cur.base + cur.count

/-- A file that is open for several writers and readers. -/
structure File where
  content : List UInt8
  writers : AuID → Option Cursor
  readers : AuID → Option Cursor

namespace File
variable (F : File)

def write (flow : AuID) (cur : Cursor) (data : List UInt8) (endOfData : Bool) : File :=
  { F with
    content := Ring.splice F.content cur.pos data
    writers := Function.update F.writers flow
      (some { cur with count := if endOfData then 0 else cur.count + data.length }) }

/-- As much as there is. -/
def bytesAt (cur : Cursor) (n : Nat) : List UInt8 := (F.content.drop cur.pos).take n

def read (flow : AuID) (cur : Cursor) (n : Nat) : File :=
  { F with
    readers := Function.update F.readers flow (some { cur with count := cur.count + (F.bytesAt cur n).length }) }

def Open (flow : AuID) : Prop := (∃ cur, F.writers flow = some cur) ∨ ∃ cur, F.readers flow = some cur

/-- A call that the file has room for. -/
def Fits : Call → Prop
  | .write maxRequestSize flow elementNum data _ _ => Requests.sizeofAuWriteElementReq < maxRequestSize ∧
      maxRequestSize < 2 ^ 16 ∧ ∃ cur, F.writers flow = some cur ∧ cur.elementNum = elementNum ∧
        cur.pos + data.length ≤ F.content.length
  | .read flow elementNum _ => ∃ cur, F.readers flow = some cur ∧ cur.elementNum = elementNum

/-- What a call does to the file. -/
def step : Call → File
  | .write _ flow _ data endOfData _ => (F.writers flow).elim F fun cur => F.write flow cur data endOfData
  | .read flow _ num_bytes => (F.readers flow).elim F fun cur => F.read flow cur num_bytes

def result : Call → Result
  | .write .. => .written auSuccess
  | .read flow _ num_bytes => .data ((F.readers flow).elim [] fun cur => F.bytesAt cur num_bytes)

end File

def fileRun : List Call → File → List Result × File
  | [], F => ([], F)
  | c :: calls, F => (F.result c :: (fileRun calls (F.step c)).1, (fileRun calls (F.step c)).2)

/-- All of the calls fit. -/
def FitAll : List Call → File → Prop
  | [], _ => True
  | c :: calls, F => F.Fits c ∧ FitAll calls (F.step c)

/-! ### What a bucket holds -/

/-- The flow takes data for the bucket, or sends it, from the place of the cursor on. -/
structure OnBucket (q : ComponentPtr) (bps : Nat) (port : AuElement AuFixedPoint → Bool) (f : ServerFlow)
    (cur : Cursor) : Prop where
  trivial : f.trivial = true
  port : ∃ el, f.els[cur.elementNum]? = some el ∧ port el.raw = true
  bucket : ∃ el, f.els[if cur.elementNum ≠ 0 then 0 else 1]? = some el ∧ el.component = some q ∧
    cur.base = el.raw.bucketOffset * bps % 2 ^ 32
  count : f.count = cur.count

def isImportClient : AuElement AuFixedPoint → Bool
  | .importClient _ => true
  | _ => false

def isExportClient : AuElement AuFixedPoint → Bool
  | .exportClient _ => true
  | _ => false

/-- The bucket holds the file, and the flows are where it says. -/
structure Holds (q : ComponentPtr) (bps : Nat) (s : Server) (F : File) : Prop where
  bucket : ∃ c, s.comps q = some c ∧ c.data = F.content ∧ c.dataSize = F.content.length ∧ c.bytesPerSample = bps
  small : F.content.length < 2 ^ 31
  writer : ∀ flow cur, F.writers flow = some cur → ∃ p f, lookupIDByType s.clientTable flow .auFlowType = some p ∧
    s.flows.get p = some f ∧ OnBucket q bps isImportClient f cur
  reader : ∀ flow cur, F.readers flow = some cur → ∃ p f, lookupIDByType s.clientTable flow .auFlowType = some p ∧
    s.flows.get p = some f ∧ OnBucket q bps isExportClient f cur ∧ cur.pos ≤ F.content.length
  distinct : ∀ flow flow' p, F.Open flow → F.Open flow' → lookupIDByType s.clientTable flow .auFlowType = some p →
    lookupIDByType s.clientTable flow' .auFlowType = some p → flow = flow'
  apart : ∀ flow, F.writers flow = none ∨ F.readers flow = none

section
variable (env : Env) {q : ComponentPtr} {bps n : Nat} {s s' : Server} {F : File} {flow : AuID} {cur : Cursor}
  {bytes data : List UInt8} {port : AuElement AuFixedPoint → Bool} {f : ServerFlow}

theorem OnBucket.counted (h : OnBucket q bps port f cur) (count : Nat) :
    OnBucket q bps port { f with count } { cur with count } := ⟨h.trivial, h.port, h.bucket, rfl⟩

theorem OnBucket.at_pos {c : Component} (h : OnBucket q bps port f cur) (hc : s.comps q = some c)
    (hbps : c.bytesPerSample = bps) : trivialBucket f cur.elementNum s = .ok (q, c, cur.pos) := by
  obtain ⟨el, hel, hcomp, hbase⟩ := h.bucket
  unfold trivialBucket Server.component
  rw [hel, Exec.deref_some, Exec.ok_bind, hcomp, Exec.deref_some, Exec.ok_bind, hc, Exec.deref_some, Exec.ok_bind,
    Exec.ok_bind]
  dsimp only
  rw [hbps, ← hbase, h.count]
  rfl

/-- Other flows do not see how far one has got. -/
theorem Holds.other {c : Component} {p : FlowPtr} (c' : Component) (F' : File) (count : Nat)
    (g : ServerFlow → ServerFlow) (h : Holds q bps s F) (hopen : F.Open flow)
    (hg : ∀ f, s.flows.get p = some f → g f = { f with count })
    (hflow : lookupIDByType s.clientTable flow .auFlowType = some p) (hc : s.comps q = some c)
    (hsize : c'.dataSize = c.dataSize) (hbps : c'.bytesPerSample = c.bytesPerSample) (hdata : c'.data = F'.content)
    (hlength : F'.content.length = F.content.length)
    (hwriters : ∀ id cur, F'.writers id = some cur → (id ≠ flow ∧ F.writers id = some cur) ∨
      (id = flow ∧ ∃ cur₀, F.writers id = some cur₀ ∧ cur = { cur₀ with count }))
    (hreaders : ∀ id cur, F'.readers id = some cur → (id ≠ flow ∧ F.readers id = some cur) ∨
      (id = flow ∧ ∃ cur₀, F.readers id = some cur₀ ∧ cur = { cur₀ with count } ∧ cur.pos ≤ F.content.length)) :
    Holds q bps { s.setComponent q c' with flows := s.flows.modify p g } F' := by
  obtain ⟨c₀, hc₀, hdata₀, hsize₀, hbps₀⟩ := h.bucket
  obtain rfl : c = c₀ := Option.some.inj (hc.symm.trans hc₀)
  have hget {id : AuID} {p' : FlowPtr} {f : ServerFlow} (ho : F.Open id)
      (hid : lookupIDByType s.clientTable id .auFlowType = some p') (hf : s.flows.get p' = some f) (hne : id ≠ flow) :
      (s.flows.modify p g).get p' = some f := by
    have hp : p' ≠ p := by
      rintro rfl
      exact hne (h.distinct _ _ _ ho hopen hid hflow)
    rw [Heap.get_modify, if_neg hp]
    exact hf
  have hgetp {f : ServerFlow} (hf : s.flows.get p = some f) :
      (s.flows.modify p g).get p = some { f with count } := by
    rw [Heap.get_modify_self, hf, Option.map_some, hg f hf]
  have hopened {id : AuID} (ho : F'.Open id) : F.Open id := by
    rcases ho with ⟨cur, hcur⟩ | ⟨cur, hcur⟩
    · rcases hwriters id cur hcur with ⟨-, hold⟩ | ⟨-, cur₀, hold, -⟩
      · exact .inl ⟨cur, hold⟩
      · exact .inl ⟨cur₀, hold⟩
    · rcases hreaders id cur hcur with ⟨-, hold⟩ | ⟨-, cur₀, hold, -⟩
      · exact .inr ⟨cur, hold⟩
      · exact .inr ⟨cur₀, hold⟩
  refine ⟨⟨c', ?_, hdata, ?_, hbps.trans hbps₀⟩, hlength ▸ h.small, fun id cur hcur => ?_, fun id cur hcur => ?_,
    fun _ _ _ ho ho' => h.distinct _ _ _ (hopened ho) (hopened ho'), fun id => ?_⟩
  · exact Function.update_self ..
  · rw [hsize, hsize₀, hlength]
  · rcases hwriters id cur hcur with ⟨hne, hold⟩ | ⟨rfl, cur₀, hold, rfl⟩
    · obtain ⟨p', f, hid, hf, hon⟩ := h.writer id cur hold
      exact ⟨p', f, hid, hget (.inl ⟨cur, hold⟩) hid hf hne, hon⟩
    · obtain ⟨p', f, hid, hf, hon⟩ := h.writer id cur₀ hold
      obtain rfl : p = p' := Option.some.inj (hflow.symm.trans hid)
      exact ⟨p, _, hid, hgetp hf, hon.counted count⟩
  · rcases hreaders id cur hcur with ⟨hne, hold⟩ | ⟨rfl, cur₀, hold, rfl, hpos⟩
    · obtain ⟨p', f, hid, hf, hon, hpos⟩ := h.reader id cur hold
      exact ⟨p', f, hid, hget (.inr ⟨cur, hold⟩) hid hf hne, hon, hlength ▸ hpos⟩
    · obtain ⟨p', f, hid, hf, hon, -⟩ := h.reader id cur₀ hold
      obtain rfl : p = p' := Option.some.inj (hflow.symm.trans hid)
      exact ⟨p, _, hid, hgetp hf, hon.counted count, hlength ▸ hpos⟩
  · rcases h.apart id with hnone | hnone
    · left
      rcases hw : F'.writers id with - | cur
      · rfl
      · rcases hwriters id cur hw with ⟨-, hold⟩ | ⟨-, cur₀, hold, -⟩
        · cases hnone.symm.trans hold
        · cases hnone.symm.trans hold
    · right
      rcases hr : F'.readers id with - | cur
      · rfl
      · rcases hreaders id cur hr with ⟨-, hold⟩ | ⟨-, cur₀, hold, -⟩
        · cases hnone.symm.trans hold
        · cases hnone.symm.trans hold

/-! ### Writing -/

/-- A request writes its data. -/
theorem writeRequest_ok {state : Nat} (h : Holds q bps s F) (hcur : F.writers flow = some cur)
    (hstate : auValidDataTransferState state = true) (hlength : bytes.length < 2 ^ 16)
    (hfits : cur.pos + bytes.length ≤ F.content.length) :
    ∃ s', writeRequest env flow cur.elementNum state bytes s = .ok (auSuccess, s') ∧
      Holds q bps s' (F.write flow cur bytes (decide (state = auTransferStateEnd))) := by
  obtain ⟨c, hc, hdata, hsize, hbps⟩ := h.bucket
  obtain ⟨p, f, hflow, hf, hon⟩ := h.writer flow cur hcur
  obtain ⟨el, hel, hport⟩ := hon.port
  obtain ⟨parms, hraw⟩ : ∃ parms, el.raw = .importClient parms := by
    unfold isImportClient at hport
    split at hport
    · exact ⟨_, ‹_›⟩
    · cases hport
  have hstored : store c.data cur.pos bytes = .ok (Ring.splice F.content cur.pos bytes) := by
    rw [hdata]
    exact if_pos hfits
  have hlengthOk : (Requests.sizeofAuWriteElementReq / 4 + pad4 bytes.length / 4) % 2 ^ 16 -
      Requests.sizeofAuWriteElementReq / 4 = pad4 bytes.length / 4 := by
    unfold Requests.sizeofAuWriteElementReq pad4
    omega
  let count := if state = auTransferStateEnd then 0 else cur.count + bytes.length
  refine ⟨{ s.setComponent q { c with data := Ring.splice F.content cur.pos bytes } with
    flows := s.flows.modify p fun f => { f with count } }, ?_, ?_⟩
  · unfold writeRequest procAuWriteElement
    dsimp only
    rw [hflow]
    dsimp only
    rw [Server.flow, hf, Exec.deref_some, Exec.ok_bind, hel]
    dsimp only
    rw [hraw, if_neg (by simp), if_neg (by rw [hstate]; decide), if_neg (by rw [hlengthOk]; simp), if_pos hon.trivial,
      hon.at_pos hc hbps, Exec.ok_bind]
    dsimp only
    rw [if_neg (by omega), hstored, Exec.ok_bind, hon.count]
    rfl
  · have hcount : (if decide (state = auTransferStateEnd) then 0 else cur.count + bytes.length) = count := by
      simp only [decide_eq_true_eq, count]
    refine Holds.other _ _ count _ h (.inl ⟨cur, hcur⟩) (fun _ _ => rfl) hflow hc rfl rfl rfl
      (Ring.length_splice hfits) (fun id cur' hcur' => ?_) fun id cur' hcur' => ?_
    · unfold File.write at hcur'
      dsimp only at hcur'
      rw [hcount, Function.update_apply] at hcur'
      split at hcur'
      · rename_i hid
        subst hid
        exact .inr ⟨rfl, cur, hcur, (Option.some.inj hcur').symm⟩
      · exact .inl ⟨‹_›, hcur'⟩
    · refine .inl ⟨?_, hcur'⟩
      rintro rfl
      rcases h.apart id with hnone | hnone
      · cases hnone.symm.trans hcur
      · cases hnone.symm.trans hcur'

theorem splice_splice {content xs ys : List UInt8} {d : Nat} (h : d + (xs ++ ys).length ≤ content.length) :
    Ring.splice (Ring.splice content d xs) (d + xs.length) ys = Ring.splice content d (xs ++ ys) := by
  rw [List.length_append] at h
  refine List.ext_getElem? fun i => ?_
  rw [Ring.getElem?_splice (by rw [Ring.length_splice (by omega)]; omega), Ring.getElem?_splice (by omega),
    Ring.getElem?_splice (by rw [List.length_append]; omega), List.length_append]
  by_cases hy : d + xs.length ≤ i ∧ i < d + xs.length + ys.length
  · rw [if_pos hy, if_pos (by omega), List.getElem?_append_right (by omega)]
    congr 1
    omega
  · rw [if_neg hy]
    by_cases hx : d ≤ i ∧ i < d + xs.length
    · rw [if_pos hx, if_pos (by omega), List.getElem?_append_left (by omega)]
    · rw [if_neg hx, if_neg (by omega)]

/-- Two pieces one behind the other are written as one. -/
theorem File.write_write {rest : List UInt8} {endOfData : Bool}
    (hfits : cur.pos + (bytes ++ rest).length ≤ F.content.length) :
    (F.write flow cur bytes false).write flow { cur with count := cur.count + bytes.length } rest endOfData =
      F.write flow cur (bytes ++ rest) endOfData := by
  unfold File.write
  have hpos : ({ cur with count := cur.count + bytes.length } : Cursor).pos = cur.pos + bytes.length :=
    (Nat.add_assoc ..).symm
  simp only [Bool.false_eq_true, if_false, hpos, splice_splice hfits, Function.update_idem, List.length_append,
    Nat.add_assoc]

/-- However the data is cut, all of it is written, whether the answers are waited for or not. -/
theorem writeLoop_ok {finalState maxBytes : Nat} (rounds : Nat) (retStatus : Bool) (h : Holds q bps s F)
    (hcur : F.writers flow = some cur) (hfinal : finalState = auTransferStateEnd ∨ finalState = auTransferStateReady)
    (hpos : 0 < maxBytes) (hmax : maxBytes < 2 ^ 16) (hfits : cur.pos + data.length ≤ F.content.length)
    (hrounds : data.length < rounds) :
    ∃ s', writeLoop env flow cur.elementNum finalState retStatus maxBytes rounds data s = .ok (auSuccess, s') ∧
      Holds q bps s' (F.write flow cur data (decide (finalState = auTransferStateEnd))) := by
  induction rounds generalizing data s F cur with
  | zero => exact absurd hrounds (Nat.not_lt_zero _)
  | succ rounds ih =>
    have hvalid : auValidDataTransferState finalState = true := by
      rcases hfinal with rfl | rfl <;> rfl
    have htake : (data.take maxBytes).length ≤ maxBytes := List.length_take_le ..
    have hlength : (data.take maxBytes).length + (data.drop maxBytes).length = data.length := by
      rw [← List.length_append, List.take_append_drop]
    have hstatus : (if retStatus then auSuccess else auSuccess) = auSuccess := by split <;> rfl
    unfold writeLoop
    dsimp only
    by_cases hrest : data.drop maxBytes = []
    · -- the last request
      have hall : data.take maxBytes = data := by
        have happend := List.take_append_drop maxBytes data
        rwa [hrest, List.append_nil] at happend
      rw [if_neg (by simpa using hrest), hall]
      obtain ⟨s', hs', hholds⟩ := writeRequest_ok env h hcur hvalid (by rw [← hall]; omega) hfits
      rw [hs', Exec.ok_bind]
      dsimp only
      rw [hstatus, if_neg (by simp [hrest])]
      exact ⟨s', rfl, hholds⟩
    · rw [if_pos hrest]
      obtain ⟨t, ht, hholds⟩ := writeRequest_ok env h hcur
        (show auValidDataTransferState auTransferStatePending = true from rfl)
        (show (data.take maxBytes).length < 2 ^ 16 by omega) (by omega)
      have hdata : cur.pos + (data.take maxBytes ++ data.drop maxBytes).length ≤ F.content.length := by
        rw [List.take_append_drop]
        exact hfits
      have hdrop : (data.drop maxBytes).length < rounds := by
        have := List.length_pos_of_ne_nil hrest
        rw [List.length_drop] at this ⊢
        omega
      rw [ht, Exec.ok_bind]
      dsimp only
      rw [hstatus, if_pos ⟨rfl, hrest⟩]
      have hpending : decide (auTransferStatePending = auTransferStateEnd) = false := by decide
      rw [hpending] at hholds
      have hnext : (F.write flow cur (data.take maxBytes) false).writers flow =
          some { cur with count := cur.count + (data.take maxBytes).length } := Function.update_self ..
      obtain ⟨s', hs', hholds'⟩ := ih hholds hnext (by
        show cur.base + (cur.count + _) + _ ≤ (Ring.splice F.content cur.pos _).length
        rw [Ring.length_splice (by omega)]
        have hposition : cur.pos = cur.base + cur.count := rfl
        omega) hdrop
      rw [File.write_write hdata, List.take_append_drop] at hholds'
      exact ⟨s', hs', hholds'⟩

/-! ### Reading -/

theorem mapM_deref (xs : List UInt8) : (xs.map some).mapM Exec.deref = (.ok xs : Exec (List UInt8)) := by
  induction xs with
  | nil => rfl
  | cons x xs ih =>
    rw [List.map_cons, List.mapM_cons, Exec.deref_some, Exec.ok_bind, ih]
    rfl

/-- A reply is read as it is sent. -/
theorem readPad_ok (buf : List UInt8) (hn : n ≤ buf.length) (hsmall : n < 2 ^ 31) :
    ∃ sent, writeToClient [] n buf = .ok sent ∧ readPad ⟨(n + 3) / 4, n⟩ sent = .ok (buf.take n) := by
  have hmod : n % 2 ^ 32 = n := Nat.mod_eq_of_lt (by omega)
  have htake : (buf.take n).length = n := by
    rw [List.length_take]
    omega
  unfold writeToClient
  by_cases hzero : n = 0
  · subst hzero
    exact ⟨[], rfl, rfl⟩
  · have hsign : ¬ (asInt32 n < 0 ∨ buf.length < n) := by
      unfold asInt32
      rw [hmod, if_pos hsmall]
      omega
    have hpad : n ≤ pad4 n := by
      unfold pad4
      omega
    rw [hmod, if_neg hzero, if_neg hsign, List.nil_append]
    refine ⟨_, rfl, ?_⟩
    unfold readPad
    have hsent : ((buf.take n).map some ++ List.replicate (pad4 n - n) none : Sent).length = pad4 n := by
      rw [List.length_append, List.length_map, htake, List.length_replicate]
      omega
    rw [if_pos hsent, List.take_left' (by rw [List.length_map, htake])]
    exact mapM_deref _

theorem auReadElement_ok (h : Holds q bps s F) (hcur : F.readers flow = some cur) :
    ∃ s', auReadElement env flow cur.elementNum n s = .ok (F.bytesAt cur n, s') ∧
      Holds q bps s' (F.read flow cur n) := by
  obtain ⟨c, hc, hdata, hsize, hbps⟩ := h.bucket
  obtain ⟨p, f, hflow, hf, hon, hpos⟩ := h.reader flow cur hcur
  obtain ⟨el, hel, hport⟩ := hon.port
  obtain ⟨parms, hraw⟩ : ∃ parms, el.raw = .exportClient parms := by
    unfold isExportClient at hport
    split at hport
    · exact ⟨_, ‹_›⟩
    · cases hport
  have hsmall := h.small
  have hbytes : (F.content.drop cur.pos).take (min n (F.content.length - cur.pos)) = F.bytesAt cur n := by
    unfold File.bytesAt
    rw [List.take_eq_take_iff, List.length_drop]
    omega
  have hlength : (F.bytesAt cur n).length = min n (F.content.length - cur.pos) := by
    rw [← hbytes, List.length_take, List.length_drop]
    omega
  obtain ⟨sent, hsent, hread⟩ := readPad_ok (n := min n (F.content.length - cur.pos)) (F.content.drop cur.pos)
    (by rw [List.length_drop]; omega) (by omega)
  have hreply : trivialReply flow cur.elementNum n s =
      .ok (⟨(min n (F.content.length - cur.pos) + 3) / 4, min n (F.content.length - cur.pos)⟩, sent) := by
    unfold trivialReply
    rw [hflow, Exec.deref_some, Exec.ok_bind, Server.flow, hf, Exec.deref_some, Exec.ok_bind, hon.at_pos hc hbps,
      Exec.ok_bind]
    dsimp only
    rw [if_neg (by omega), hsize, hdata, hsent, Exec.ok_bind]
  let count := cur.count + (F.bytesAt cur n).length
  let g : ServerFlow → ServerFlow := fun f => { f with count := f.count + (F.bytesAt cur n).length }
  refine ⟨{ s with flows := s.flows.modify p g }, ?_, ?_⟩
  · unfold auReadElement
    rw [hreply, Exec.ok_bind]
    dsimp only
    unfold procAuReadElement
    rw [hflow]
    dsimp only
    rw [Server.flow, hf, Exec.deref_some, Exec.ok_bind, hel]
    dsimp only
    rw [hraw, if_neg (by simp), if_pos hon.trivial, hon.at_pos hc hbps, Exec.ok_bind]
    dsimp only
    rw [if_neg (by omega), Exec.ok_bind]
    dsimp only
    rw [hread, Exec.ok_bind, hbytes, hsize, ← hlength]
  · have hsame : s.setComponent q c = s := by
      unfold Server.setComponent
      rw [← hc, Function.update_eq_self]
    rw [← hsame]
    refine Holds.other c _ count g h (.inr ⟨cur, hcur⟩) (fun f' hf' => ?_) hflow hc rfl rfl hdata rfl
      (fun id cur' hcur' => ?_) fun id cur' hcur' => ?_
    · obtain rfl : f = f' := Option.some.inj (hf.symm.trans hf')
      show ({ f with count := f.count + (F.bytesAt cur n).length } : ServerFlow) = _
      rw [hon.count]
    · refine .inl ⟨?_, hcur'⟩
      rintro rfl
      rcases h.apart id with hnone | hnone
      · cases hnone.symm.trans hcur'
      · cases hnone.symm.trans hcur
    · unfold File.read at hcur'
      dsimp only at hcur'
      rw [Function.update_apply] at hcur'
      split at hcur'
      · rename_i hid
        subst hid
        obtain rfl := Option.some.inj hcur'
        refine .inr ⟨rfl, cur, hcur, rfl, ?_⟩
        show cur.base + (cur.count + _) ≤ _
        have hposition : cur.pos = cur.base + cur.count := rfl
        omega
      · exact .inl ⟨‹_›, hcur'⟩

/-! ### Runs -/

/-- A call does what it does to the file. -/
theorem call_ok {c : Call} (h : Holds q bps s F) (hfits : F.Fits c) :
    ∃ s', call env s c = .ok (F.result c, s') ∧ Holds q bps s' (F.step c) := by
  cases c with
  | write maxRequestSize flow elementNum data endOfData retStatus =>
    obtain ⟨hlow, hhigh, cur, hcur, rfl, hroom⟩ := hfits
    have hmax : sub32 maxRequestSize Requests.sizeofAuWriteElementReq =
        maxRequestSize - Requests.sizeofAuWriteElementReq := by
      unfold sub32
      unfold Requests.sizeofAuWriteElementReq at hlow ⊢
      omega
    have hfinal : (if endOfData then auTransferStateEnd else auTransferStateReady) = auTransferStateEnd ∨
        (if endOfData then auTransferStateEnd else auTransferStateReady) = auTransferStateReady := by
      cases endOfData
      · exact .inr rfl
      · exact .inl rfl
    obtain ⟨s', hs', hholds⟩ := writeLoop_ok env (data.length + 1) retStatus h hcur hfinal
      (show 0 < maxRequestSize - Requests.sizeofAuWriteElementReq by omega) (by omega) hroom (Nat.lt_succ_self _)
    have hend : decide ((if endOfData then auTransferStateEnd else auTransferStateReady) = auTransferStateEnd) =
        endOfData := by cases endOfData <;> rfl
    rw [hend] at hholds
    refine ⟨s', ?_, ?_⟩
    · unfold call auWriteElement
      dsimp only
      rw [hmax, hs', Exec.ok_bind]
      rfl
    · unfold File.step
      dsimp only
      rw [hcur]
      exact hholds
  | read flow elementNum num_bytes =>
    obtain ⟨cur, hcur, rfl⟩ := hfits
    obtain ⟨s', hs', hholds⟩ := auReadElement_ok env (n := num_bytes) h hcur
    refine ⟨s', ?_, ?_⟩
    · unfold call
      dsimp only
      rw [hs', Exec.ok_bind]
      unfold File.result
      dsimp only
      rw [hcur]
      rfl
    · unfold File.step
      dsimp only
      rw [hcur]
      exact hholds

/-- Writes and reads of any clients, in any order and with any size of requests, are those of a file. -/
theorem transfers_refine {calls : List Call} (h : Holds q bps s F) (hfits : FitAll calls F) :
    ∃ s', run env calls s = .ok ((fileRun calls F).1, s') ∧ Holds q bps s' (fileRun calls F).2 := by
  induction calls generalizing s F with
  | nil => exact ⟨s, rfl, h⟩
  | cons c calls ih =>
    obtain ⟨hc, hcalls⟩ := hfits
    obtain ⟨t, ht, hholds⟩ := call_ok env h hc
    obtain ⟨s', hs', hholds'⟩ := ih hholds hcalls
    refine ⟨s', ?_, hholds'⟩
    unfold run
    rw [ht, Exec.ok_bind]
    dsimp only
    rw [hs', Exec.ok_bind]
    rfl

/-- Reads one after the other get what is in the file, each byte once. -/
theorem reads_ok (sizes : List Nat) (h : Holds q bps s F) (hcur : F.readers flow = some cur) :
    ∃ (pieces : List (List UInt8)) (s' : Server),
      run env (sizes.map (.read flow cur.elementNum)) s = .ok (pieces.map .data, s') ∧
      pieces.flatten = (F.content.drop cur.pos).take sizes.sum := by
  induction sizes generalizing s F cur with
  | nil => exact ⟨[], s, rfl, by simp⟩
  | cons n sizes ih =>
    obtain ⟨t, ht, hholds⟩ := auReadElement_ok env (n := n) h hcur
    obtain ⟨pieces, s', hs', hpieces⟩ := ih hholds (Function.update_self ..)
    refine ⟨F.bytesAt cur n :: pieces, s', ?_, ?_⟩
    · rw [List.map_cons, run, call, ht, Exec.ok_bind, Exec.ok_bind]
      dsimp only
      rw [hs', Exec.ok_bind]
      rfl
    · have hrest : (F.content.drop (cur.pos + (F.bytesAt cur n).length)).take sizes.sum =
          ((F.content.drop cur.pos).drop n).take sizes.sum := by
        rw [List.drop_drop]
        by_cases hall : n ≤ (F.content.drop cur.pos).length
        · rw [File.bytesAt, List.length_take_of_le hall]
        · rw [File.bytesAt, List.length_take, Nat.min_eq_right (by omega), List.length_drop, List.drop_eq_nil_of_le,
            List.drop_eq_nil_of_le]
          · rw [List.length_drop] at hall
            omega
          · omega
      have hpos : ({ cur with count := cur.count + (F.bytesAt cur n).length } : Cursor).pos =
          cur.pos + (F.bytesAt cur n).length := (Nat.add_assoc ..).symm
      rw [List.flatten_cons, hpieces, hpos, List.sum_cons, List.take_add]
      exact congrArg _ hrest

/-- What one client writes, however it is cut, is what another one reads, in pieces of any size. -/
theorem bucket_roundTrip {writer reader : AuID} {w r : Cursor} (maxRequestSize : Nat) (data : List UInt8)
    (endOfData retStatus : Bool) (sizes : List Nat) (h : Holds q bps s F) (hw : F.writers writer = some w)
    (hr : F.readers reader = some r)
    (hsame : r.pos = w.pos) (hlow : Requests.sizeofAuWriteElementReq < maxRequestSize) (hhigh : maxRequestSize < 2 ^ 16)
    (hfits : w.pos + data.length ≤ F.content.length) :
    ∃ (pieces : List (List UInt8)) (s' : Server),
      run env (.write maxRequestSize writer w.elementNum data endOfData retStatus ::
        sizes.map (.read reader r.elementNum)) s = .ok (.written auSuccess :: pieces.map .data, s') ∧
      pieces.flatten = (data ++ F.content.drop (w.pos + data.length)).take sizes.sum := by
  obtain ⟨t, ht, hholds⟩ := call_ok env
    (c := .write maxRequestSize writer w.elementNum data endOfData retStatus) h ⟨hlow, hhigh, w, hw, rfl, hfits⟩
  have hstep : F.step (.write maxRequestSize writer w.elementNum data endOfData retStatus) =
      F.write writer w data endOfData := by
    unfold File.step
    dsimp only
    rw [hw]
    rfl
  rw [hstep] at hholds
  obtain ⟨pieces, s', hs', hpieces⟩ := reads_ok env sizes hholds hr
  refine ⟨pieces, s', ?_, ?_⟩
  · rw [run, ht, Exec.ok_bind]
    dsimp only
    rw [hs', Exec.ok_bind]
    rfl
  · have hcontent : (Ring.splice F.content w.pos data).drop w.pos = data ++ F.content.drop (w.pos + data.length) := by
      have hlength : (F.content.take w.pos).length = w.pos := by
        rw [List.length_take]
        omega
      rw [Ring.splice, List.append_assoc, List.drop_left' hlength]
    rw [hpieces, hsame]
    exact congrArg (List.take sizes.sum) hcontent

end

/-! ### A bucket -/

def sampleEnv : Env where
  auAverageFlows := false
  auMinibufSamples := 4
  fuel := 4
  mem _ := true
  processMem _ _ := true

/-- A bucket of eight bytes, a flow into it and one out of it. -/
def sampleRun : List (Env × Input) := List.map (fun r => (sampleEnv, .request r))
  [.connect 1, .createBucket (2 ^ 22) true true ⟨2 ^ 22, 0, 1, 1, 8000, 8, 0⟩, .createFlow (2 ^ 22 + 1),
    .createFlow (2 ^ 22 + 2),
    .setElements ⟨1, 2 ^ 22 + 1, true, 48,
      [.importClient ⟨8000, 1, 1, false, 8, 2, []⟩, .exportBucket ⟨0, 0, 2 ^ 22, 0, []⟩]⟩,
    .setElements ⟨1, 2 ^ 22 + 2, true, 48,
      [.importBucket ⟨8000, 0, 2 ^ 22, 0, []⟩, .exportClient ⟨8000, 0, 1, 1, false, 8, 6, []⟩]⟩]

def sampleFile : File where
  content := List.replicate 8 0
  writers flow := if flow = 2 ^ 22 + 1 then some ⟨0, 0, 0⟩ else none
  readers flow := if flow = 2 ^ 22 + 2 then some ⟨1, 0, 0⟩ else none

theorem sampleRun_holds : ∃ s, List.foldlM Nas.step {} sampleRun = .ok s ∧ Holds 0 1 s sampleFile := by
  obtain ⟨s, f, g, hs, hf, hg, hwriter, hreader, hc, hin, hout⟩ : ∃ s f g, List.foldlM Nas.step {} sampleRun = .ok s ∧
      s.flows.get 0 = some f ∧ s.flows.get 1 = some g ∧
      lookupIDByType s.clientTable (2 ^ 22 + 1) .auFlowType = some 0 ∧
      lookupIDByType s.clientTable (2 ^ 22 + 2) .auFlowType = some 1 ∧
      (∃ c, s.comps 0 = some c ∧ c.data = List.replicate 8 0 ∧ c.dataSize = 8 ∧ c.bytesPerSample = 1) ∧
      OnBucket 0 1 isImportClient f ⟨0, 0, 0⟩ ∧ OnBucket 0 1 isExportClient g ⟨1, 0, 0⟩ :=
    ⟨_, _, _, rfl, rfl, rfl, rfl, rfl, ⟨_, rfl, rfl, rfl, rfl⟩, ⟨rfl, ⟨_, rfl, rfl⟩, ⟨_, rfl, rfl, rfl⟩, rfl⟩,
      ⟨rfl, ⟨_, rfl, rfl⟩, ⟨_, rfl, rfl, rfl⟩, rfl⟩⟩
  have hw {flow : AuID} {cur : Cursor} (h : sampleFile.writers flow = some cur) :
      flow = 2 ^ 22 + 1 ∧ cur = ⟨0, 0, 0⟩ := by
    unfold sampleFile at h
    dsimp only at h
    split at h
    · exact ⟨‹_›, (Option.some.inj h).symm⟩
    · cases h
  have hr {flow : AuID} {cur : Cursor} (h : sampleFile.readers flow = some cur) :
      flow = 2 ^ 22 + 2 ∧ cur = ⟨1, 0, 0⟩ := by
    unfold sampleFile at h
    dsimp only at h
    split at h
    · exact ⟨‹_›, (Option.some.inj h).symm⟩
    · cases h
  have hopen {flow : AuID} (h : sampleFile.Open flow) : flow = 2 ^ 22 + 1 ∨ flow = 2 ^ 22 + 2 := by
    rcases h with ⟨cur, hcur⟩ | ⟨cur, hcur⟩
    · exact .inl (hw hcur).1
    · exact .inr (hr hcur).1
  refine ⟨s, hs, hc, by decide, fun flow cur hcur => ?_, fun flow cur hcur => ?_, fun flow flow' p ho ho' hp hp' => ?_,
    fun flow => ?_⟩
  · obtain ⟨rfl, rfl⟩ := hw hcur
    exact ⟨0, f, hwriter, hf, hin⟩
  · obtain ⟨rfl, rfl⟩ := hr hcur
    exact ⟨1, g, hreader, hg, hout, by decide⟩
  · rcases hopen ho with rfl | rfl <;> rcases hopen ho' with rfl | rfl
    · rfl
    · cases (hp.symm.trans hwriter).symm.trans (hp'.symm.trans hreader)
    · cases (hp.symm.trans hreader).symm.trans (hp'.symm.trans hwriter)
    · rfl
  · by_cases hflow : flow = 2 ^ 22 + 1
    · subst hflow
      exact .inr rfl
    · exact .inl (if_neg hflow)

/-- Six bytes in requests with four of them each, read three and seven at a time. -/
theorem bucket_roundTrip_sample : ∃ (s : Server) (pieces : List (List UInt8)) (s' : Server),
    run sampleEnv [.write 20 (2 ^ 22 + 1) 0 [1, 2, 3, 4, 5, 6] true false, .read (2 ^ 22 + 2) 1 3,
      .read (2 ^ 22 + 2) 1 7] s = .ok (.written auSuccess :: pieces.map .data, s') ∧
    pieces.flatten = [1, 2, 3, 4, 5, 6, 0, 0] := by
  obtain ⟨s, -, h⟩ := sampleRun_holds
  obtain ⟨pieces, s', hs', hpieces⟩ := bucket_roundTrip sampleEnv 20 [1, 2, 3, 4, 5, 6] true false [3, 7] h
    (show sampleFile.writers (2 ^ 22 + 1) = some ⟨0, 0, 0⟩ from rfl)
    (show sampleFile.readers (2 ^ 22 + 2) = some ⟨1, 0, 0⟩ from rfl) rfl (by decide) (by decide) (by decide)
  exact ⟨s, pieces, s', hs', hpieces⟩

/-- A read between two parts of the data. -/
def sampleCalls : List Call :=
  [.write 20 (2 ^ 22 + 1) 0 [1, 2, 3, 4, 5] false true, .read (2 ^ 22 + 2) 1 6,
    .write 20 (2 ^ 22 + 1) 0 [6, 7] true true, .read (2 ^ 22 + 2) 1 9]

theorem transfers_refine_sample : ∃ s s', run sampleEnv sampleCalls s =
    .ok ([.written auSuccess, .data [1, 2, 3, 4, 5, 0], .written auSuccess, .data [7, 0]], s') := by
  obtain ⟨s, -, h⟩ := sampleRun_holds
  have hfits : FitAll sampleCalls sampleFile :=
    ⟨⟨by decide, by decide, _, rfl, rfl, by decide⟩, ⟨_, rfl, rfl⟩, ⟨by decide, by decide, _, rfl, rfl, by decide⟩,
      ⟨_, rfl, rfl⟩, trivial⟩
  obtain ⟨s', hs', -⟩ := transfers_refine sampleEnv h hfits
  exact ⟨s, s', hs'⟩

end Nas.BucketTransfer
