import Nas.Framing
import Nas.Memory
import Nas.Pool
import Nas.Wire
import Nas.Audio

/-!
# Client input and output

The buffers between the sockets and the dispatcher (`io.c`): `ReadRequestFromClient`, `InsertFakeRequest`
and `ResetCurrentRequest` on the way in, `WriteToClient`, `FlushClient` and `FlushAllOutput` on the way
out, and what a connection's opening and closing do to its buffers.

What the operating system answers comes with each call. A connection also keeps what is observed of it:
what its client sends and has not been read yet, which requests were delivered, which buffers were
written, and which bytes the socket took.

Positions in an input buffer are offsets. A difference of them is a `Nat`, and never was negative.
-/

namespace Nas.Io

/-- A client with its connection: `ClientRec` and `OsCommRec`. -/
abbrev ConnPtr := Nat

def bufSize : Nat := 4096
def bufWatermark : Nat := 8192
def maxBufSize : Nat := 2 ^ 22
def maxTimesPer : Nat := 10
def maxSocks : Nat := 128
def sizeofAuReq : Nat := 4
def intMax : Nat := 2 ^ 31 - 1

/-- How many bytes pad a length to a multiple of four. -/
def padlength (n : Nat) : Nat := [0, 3, 2, 1].getD (n % 4) 0

structure ConnectionInput where
  buffer : List UInt8
  bufptr : Nat
  bufcnt : Nat
  lenLastReq : Nat
  size : Nat
deriving DecidableEq, Repr

structure ConnectionOutput where
  buf : List UInt8
  size : Int
  count : Nat
deriving DecidableEq, Repr

/-- Where the requests of a connection come from: the byte order it starts with, the request that is made
up for it, all that its client ever sends, and what the dispatcher does with the input when it has been
given some requests. -/
structure Origin where
  order : ByteOrder
  fake : List UInt8
  stream : List UInt8
  react : List (List UInt8) → Reaction ByteOrder UInt8

structure Connection where
  fd : Nat
  origin : Origin
  /-- The byte order of the client. -/
  order : ByteOrder
  clientGone : Bool := false
  noClientException : Bool := true
  socket : List UInt8
  delivered : List (List UInt8) := []
  written : List (List UInt8) := []
  accepted : List UInt8 := []

structure IoState where
  conns : Heap Connection := .empty
  inputs : Pool ConnPtr ConnectionInput := {}
  outputs : Pool ConnPtr ConnectionOutput := {}
  availableInput : Option ConnPtr := none
  connectionTranslation : Nat → Option ConnPtr := fun _ => none
  clientsWithInput : Nat → Bool := fun _ => false
  clientsWriteBlocked : Nat → Bool := fun _ => false
  anyClientsWriteBlocked : Bool := false
  outputPending : Nat → Bool := fun _ => false
  newOutputPending : Bool := false
  criticalOutputPending : Bool := false
  isItTimeToYield : Bool := false
  timesThisConnection : Nat := 0

/-- A socket is read, and requests are delivered. -/
def Connection.receive (socket : List UInt8) (requests : List (List UInt8)) (conn : Connection) : Connection :=
  { conn with socket, delivered := conn.delivered ++ requests }

def bitSet (mask : Nat → Bool) (fd : Nat) : Nat → Bool := Function.update mask fd true

def bitClear (mask : Nat → Bool) (fd : Nat) : Nat → Bool := Function.update mask fd false

def anySet (mask : Nat → Bool) : Bool := (List.range maxSocks).any mask

/-- A client with what is behind its `osPrivate`. -/
def IoState.conn (c : ConnPtr) (s : IoState) : Option Connection := (s.conns.get c).filter (! ·.clientGone)

def modifyConn (c : ConnPtr) (f : Connection → Connection) (s : IoState) : IoState :=
  { s with conns := s.conns.modify c f }

def setInput (c : ConnPtr) (oci : ConnectionInput) (s : IoState) : IoState :=
  { s with inputs := s.inputs.modify c fun _ => oci }

def setOutput (c : ConnPtr) (oco : ConnectionOutput) (s : IoState) : IoState :=
  { s with outputs := s.outputs.modify c fun _ => oco }

def yieldControl (s : IoState) : IoState := { s with isItTimeToYield := true, timesThisConnection := 0 }

def yieldControlNoInput (fd : Nat) (s : IoState) : IoState :=
  { yieldControl s with clientsWithInput := bitClear s.clientsWithInput fd }

def yieldControlDeath (s : IoState) : IoState := { s with timesThisConnection := 0 }

/-! ### Input -/

/-- `AllocateInputBuffer`. The memory is what it is; it is never read before it is written. -/
def newInput : ConnectionInput := ⟨List.replicate bufSize 0, 0, 0, 0, bufSize⟩

/-- The start of `ReadRequestFromClient` and `InsertFakeRequest`: a buffer that is available is taken from
another client. -/
def releaseAvailable (c : ConnPtr) (s : IoState) : Exec IoState :=
  match s.availableInput with
  | none => .ok s
  | some a =>
    if a = c then .ok { s with availableInput := none }
    else do
      let aci ← Exec.deref (s.inputs.record a)
      let inputs ← (if aci.size > bufWatermark then s.inputs.drop a else s.inputs.give a : Exec _)
      .ok { s with inputs, availableInput := none }

/-- A client's buffer is not available any more. -/
def IoState.keepAvailable (c : ConnPtr) (s : IoState) : IoState :=
  if s.availableInput = some c then { s with availableInput := none } else s

/-- A connection without a buffer gets one. -/
def obtainInput (alloc : Bool) (c : ConnPtr) (s : IoState) : Exec (Option IoState) :=
  if (s.inputs.held c).isSome then .ok (some s)
  else do
    let r ← s.inputs.take c alloc newInput
    .ok (r.map fun inputs => { s with inputs })

/-- `get_req_len` of the request at a position, in bytes. -/
def reqBytes (order : ByteOrder) (buffer : List UInt8) (p : Nat) : Exec Nat := do
  let len ← Memory.load buffer (p + 2) 2
  .ok (4 * order.decode len)

/-- A request without a length is a header. -/
def orHeader (needed : Nat) : Nat := if needed = 0 then sizeofAuReq else needed

/-- What the next `read` of a socket does. -/
inductive Read where
  | again
  | upTo (n : Nat)
  | fails
deriving DecidableEq, Repr

inductive ReadResult where
  | bytes (l : List UInt8)
  | again
  | dead
deriving DecidableEq, Repr

/-- `read` from a socket that has the bytes `socket`, with room for some of them. -/
def Read.run (socket : List UInt8) (room : Nat) : Read → ReadResult
  | again => .again
  | fails => .dead
  | upTo n =>
    if room = 0 then .dead
    else if socket = [] then .again
    else .bytes (socket.take (min (n + 1) room))

structure ReadEnv where
  read : Read
  alloc : Bool
  grow : Bool
  shrink : Bool
deriving DecidableEq, Repr

inductive ReadStatus where
  | request (bytes : List UInt8)
  | incomplete
  | dead
deriving DecidableEq, Repr

namespace ConnectionInput
variable (oci : ConnectionInput)

def gotnow : Nat := oci.bufcnt - oci.bufptr

/-- Past the last request. -/
def advance : ConnectionInput := { oci with bufptr := oci.bufptr + oci.lenLastReq }

def forget : ConnectionInput := { oci with lenLastReq := 0 }

def reset : ConnectionInput := { oci with bufptr := 0, bufcnt := 0, lenLastReq := 0 }

def resize (size : Nat) : ConnectionInput := { oci with size, buffer := Memory.realloc 0 oci.buffer size }

/-- Make room for a request whose first bytes are there: move them to the front and, where that is not
enough, get a larger buffer. -/
def makeRoom (grow : Bool) (needed : Nat) : Exec (Bool × ConnectionInput) :=
  if oci.gotnow = 0 ∨ oci.bufptr + needed > oci.size then do
    let buffer ← (if oci.gotnow > 0 ∧ oci.bufptr ≠ 0 then Memory.move oci.buffer oci.bufptr 0 oci.gotnow
      else .ok oci.buffer : Exec _)
    let front := { oci with buffer, bufptr := 0, bufcnt := oci.gotnow }
    if needed ≤ oci.size then .ok (true, front)
    else if grow then .ok (true, front.resize needed)
    else .ok (false, { oci with buffer })
  else .ok (true, oci)

/-- Free up some space after huge requests. -/
def shrinkTo (shrink : Bool) (needed : Nat) : ConnectionInput :=
  if oci.size > bufWatermark ∧ oci.bufcnt < bufSize ∧ needed < bufSize ∧ shrink then oci.resize bufSize
  else oci

/-- A request that is there as a whole. -/
def deliver (needed : Nat) : Exec (ReadStatus × ConnectionInput) := do
  let req ← Memory.load oci.buffer oci.bufptr (orHeader needed)
  .ok (.request req, { oci with lenLastReq := orHeader needed })

/-- Read more of a request of which not enough is there. -/
def fill (order : ByteOrder) (env : ReadEnv) (needHeader : Bool) (needed : Nat) (socket : List UInt8) :
    Exec (ReadStatus × ConnectionInput × List UInt8) :=
  if needed > maxBufSize then .ok (.dead, oci.forget, socket)
  else do
    let (room, oci) ← oci.forget.makeRoom env.grow needed
    if ¬ room then .ok (.dead, oci, socket)
    else
      match env.read.run socket (oci.size - oci.bufcnt) with
      | .again => .ok (.incomplete, oci, socket)
      | .dead => .ok (.dead, oci, socket)
      | .bytes l => do
        let buffer ← Memory.store oci.buffer oci.bufcnt l
        let oci := ({ oci with buffer, bufcnt := oci.bufcnt + l.length }).shrinkTo env.shrink needed
        let socket := socket.drop l.length
        let needed ← (if needHeader ∧ oci.gotnow ≥ needed then reqBytes order oci.buffer oci.bufptr
          else .ok needed : Exec _)
        if oci.gotnow < needed then .ok (.incomplete, oci, socket)
        else do
          let (status, oci) ← oci.deliver needed
          .ok (status, oci, socket)

/-- `ReadRequestFromClient` as far as it concerns the buffer and the socket. -/
def readRequest (order : ByteOrder) (env : ReadEnv) (socket : List UInt8) :
    Exec (ReadStatus × ConnectionInput × List UInt8) :=
  let oci := oci.advance
  if oci.gotnow < sizeofAuReq then oci.fill order env true sizeofAuReq socket
  else do
    let needed ← reqBytes order oci.buffer oci.bufptr
    if oci.gotnow < needed then oci.fill order env false needed socket
    else do
      let (status, oci) ← oci.deliver needed
      .ok (status, oci, socket)

/-- Put bytes before the ones that are there, which move up as far as they must. -/
def push (data : List UInt8) : Exec ConnectionInput := do
  let moveup := data.length - oci.bufptr
  let buffer ← (if moveup > 0 ∧ oci.gotnow > 0 then
      Memory.move oci.buffer oci.bufptr (oci.bufptr + moveup) oci.gotnow
    else .ok oci.buffer : Exec _)
  let bufptr := oci.bufptr + moveup - data.length
  let buffer ← Memory.store buffer bufptr data
  .ok { oci with buffer, bufptr, bufcnt := oci.bufcnt + moveup }

/-- `InsertFakeRequest` as far as it concerns the buffer. -/
def insert (grow : Bool) (data : List UInt8) : Exec (Bool × ConnectionInput) :=
  let oci := oci.advance.forget
  let size := oci.gotnow + data.length
  if size ≤ oci.size then (true, ·) <$> oci.push data
  else if grow then (true, ·) <$> (oci.resize size).push data
  else .ok (false, oci)

/-- Whether a whole request is there at a position, up to which `gotnow` bytes are left. -/
def whole (order : ByteOrder) (p gotnow : Nat) : Exec Bool :=
  if gotnow < sizeofAuReq then .ok false
  else do
    let needed ← reqBytes order oci.buffer p
    .ok (decide (gotnow ≥ needed))

end ConnectionInput

/-- Whether a client is to be served without another `read`. -/
def schedule (fd : Nat) (whole : Bool) (s : IoState) : IoState :=
  if whole then { s with clientsWithInput := bitSet s.clientsWithInput fd } else yieldControlNoInput fd s

def countTimes (s : IoState) : IoState :=
  if s.timesThisConnection + 1 ≥ maxTimesPer then yieldControl s
  else { s with timesThisConnection := s.timesThisConnection + 1 }

/-- The end of `ReadRequestFromClient`: what comes behind the request. -/
def scheduleNext (c : ConnPtr) (conn : Connection) (oci : ConnectionInput) (s : IoState) : Exec IoState := do
  let gotnow := oci.gotnow - oci.lenLastReq
  let whole ← oci.whole conn.order (oci.bufptr + oci.lenLastReq) gotnow
  let availableInput := if gotnow = 0 then some c else s.availableInput
  .ok (countTimes (schedule conn.fd whole { s with availableInput }))

def readRequestFromClient (env : ReadEnv) (c : ConnPtr) (s : IoState) : Exec (ReadStatus × IoState) := do
  let conn ← Exec.deref (s.conn c)
  let s ← releaseAvailable c s
  match ← obtainInput env.alloc c s with
  | none => .ok (.dead, yieldControlDeath s)
  | some s => do
    let oci ← Exec.deref (s.inputs.record c)
    let (status, oci, socket) ← oci.readRequest conn.order env conn.socket
    let s := setInput c oci s
    match status with
    | .dead => .ok (.dead, yieldControlDeath (modifyConn c (·.receive socket []) s))
    | .incomplete => .ok (.incomplete, yieldControlNoInput conn.fd (modifyConn c (·.receive socket []) s))
    | .request req => do
      let s ← scheduleNext c conn oci (modifyConn c (·.receive socket [req]) s)
      .ok (.request req, s)

def insertFakeRequest (alloc grow : Bool) (c : ConnPtr) (data : List UInt8) (s : IoState) :
    Exec (Bool × IoState) := do
  let conn ← Exec.deref (s.conn c)
  let s ← releaseAvailable c s
  match ← obtainInput alloc c s with
  | none => .ok (false, s)
  | some s => do
    let oci ← Exec.deref (s.inputs.record c)
    let (done, oci) ← oci.insert grow data
    let s := setInput c oci s
    if ¬ done then .ok (false, s)
    else do
      let whole ← oci.whole conn.order oci.bufptr oci.gotnow
      .ok (true, schedule conn.fd whole s)

def resetCurrentRequest (c : ConnPtr) (s : IoState) : Exec IoState := do
  let conn ← Exec.deref (s.conn c)
  let s := s.keepAvailable c
  let oci ← Exec.deref (s.inputs.record c)
  let oci := oci.forget
  let whole ← oci.whole conn.order oci.bufptr oci.gotnow
  let s := schedule conn.fd whole (setInput c oci s)
  .ok (if whole then yieldControl s else s)

/-! ### Output -/

/-- `AllocateOutputBuffer`. -/
def newOutput : ConnectionOutput := ⟨List.replicate bufSize 0, bufSize, 0⟩

/-- What the next `writev` to a socket does. -/
inductive Write where
  | upTo (n : Nat)
  | again
  | msgSize
  | fails
deriving DecidableEq, Repr

/-- What `FlushClient` depends on: the answers of the socket, the memory for a larger buffer, and what is
in the memory the pad is sent from. -/
structure FlushEnv where
  writes : List Write
  grow : Bool
  padBuffer : Nat → UInt8

/-- The `iovec` that leaves out what was written before and ends after `remain` bytes. -/
def insertIOV : List (List UInt8) → (before remain : Int) → List (List UInt8)
  | [], _, _ => []
  | p :: ps, before, remain =>
    let len := min (p.length - before) remain
    if len ≤ 0 then insertIOV ps (-len) remain
    else (p.drop before.toNat).take len.toNat :: insertIOV ps 0 (remain - len)

inductive FlushStatus where
  | flushed
  | blocked (written notWritten : Nat)
  | failed
deriving DecidableEq, Repr

/-- The loop of `FlushClient` over what is to be written, and what the socket takes of it. -/
def flushLoop (pieces : List (List UInt8)) :
    List Write → (written notWritten todo : Nat) → Exec (FlushStatus × List UInt8)
  | writes, written, notWritten, todo =>
    if notWritten = 0 then .ok (.flushed, [])
    else
      match writes with
      | [] => .error .fuel
      | .upTo n :: writes => do
        let out := (insertIOV pieces written todo).flatten.take n
        let (status, accepted) ←
          flushLoop pieces writes (written + out.length) (notWritten - out.length) (notWritten - out.length)
        .ok (status, out ++ accepted)
      | .again :: _ => .ok (.blocked written notWritten, [])
      | .msgSize :: writes =>
        if todo = 1 then .ok (.blocked written notWritten, [])
        else flushLoop pieces writes written notWritten (todo / 2)
      | .fails :: _ => .ok (.failed, [])

namespace ConnectionOutput
variable (oco : ConnectionOutput)

def clear : ConnectionOutput := { oco with count := 0 }

/-- What is left of the buffer, and how much of the extra data was written, when `written` bytes were. -/
def unwritten (written : Nat) : Exec (Nat × ConnectionOutput) :=
  if written < oco.count then
    if written > 0 then do
      let buf ← Memory.move oco.buf written 0 (oco.count - written)
      .ok (0, { oco with buf, count := oco.count - written })
    else .ok (written, oco)
  else .ok (written - oco.count, oco.clear)

def resize (size : Nat) : ConnectionOutput :=
  { oco with buf := Memory.realloc 0 oco.buf size, size := asInt32 size }

/-- Put the rest of the extra data behind what is buffered. The pad is counted, whatever it holds. -/
def append (extra : List UInt8) (written notWritten : Nat) : Exec ConnectionOutput := do
  let buf ← (if written < extra.length then Memory.store oco.buf oco.count (extra.drop written)
    else .ok oco.buf : Exec _)
  .ok { oco with buf, count := notWritten }

/-- Buffer the rest. -/
def save (grow : Bool) (extra : List UInt8) (written notWritten : Nat) : Exec (Option ConnectionOutput) := do
  let (written, oco) ← oco.unwritten written
  if (notWritten : Int) ≤ oco.size then some <$> oco.append extra written notWritten
  else if grow then some <$> (oco.resize (notWritten + bufSize)).append extra written notWritten
  else .ok none

end ConnectionOutput

/-- `close` and `MarkClientException`, with what is buffered given up. -/
def failOutput (c : ConnPtr) (oco : ConnectionOutput) (s : IoState) : IoState :=
  modifyConn c (fun conn => { conn with noClientException := false }) (setOutput c oco.clear s)

def acceptOutput (c : ConnPtr) (bytes : List UInt8) (s : IoState) : IoState :=
  modifyConn c (fun conn => { conn with accepted := conn.accepted ++ bytes }) s

/-- A client can be written to again. -/
def IoState.unblock (fd : Nat) (s : IoState) : IoState :=
  if s.anyClientsWriteBlocked then
    { s with
      clientsWriteBlocked := bitClear s.clientsWriteBlocked fd
      anyClientsWriteBlocked := anySet (bitClear s.clientsWriteBlocked fd) }
  else s

/-- The end of `FlushClient` when everything was flushed out. -/
def releaseOutput (c : ConnPtr) (conn : Connection) (oco : ConnectionOutput) (s : IoState) : Exec IoState := do
  let s := (setOutput c oco.clear s).unblock conn.fd
  let outputs ← (if oco.size > bufWatermark then s.outputs.drop c else s.outputs.give c : Exec _)
  .ok { s with outputs }

/-- `FlushClient`. A sum of `int`s past their range is undefined. -/
def flushClient (env : FlushEnv) (c : ConnPtr) (extra : List UInt8) (s : IoState) : Exec (Int × IoState) := do
  let conn ← Exec.deref (s.conn c)
  match s.outputs.record c with
  | none => .ok (0, s)
  | some oco =>
    let padsize := padlength extra.length
    if oco.count + extra.length > intMax then .error .fault
    else do
      let notWritten := oco.count + extra.length + padsize
      let buffered ← Memory.load oco.buf 0 oco.count
      let pad := (List.range padsize).map env.padBuffer
      let (status, accepted) ← flushLoop [buffered, extra, pad] env.writes 0 notWritten notWritten
      let s := acceptOutput c accepted s
      match status with
      | .flushed => do
        let s ← releaseOutput c conn oco s
        .ok (extra.length, s)
      | .failed => .ok (-1, failOutput c oco s)
      | .blocked written notWritten => do
        let s := { s with
          clientsWriteBlocked := bitSet s.clientsWriteBlocked conn.fd, anyClientsWriteBlocked := true }
        match ← oco.save env.grow extra written notWritten with
        | none => .ok (-1, failOutput c oco s)
        | some oco => .ok (extra.length, setOutput c oco s)

/-- A connection without a buffer gets one. -/
def obtainOutput (alloc : Bool) (c : ConnPtr) (s : IoState) : Exec (Option IoState) :=
  if (s.outputs.held c).isSome then .ok (some s)
  else do
    let r ← s.outputs.take c alloc newOutput
    .ok (r.map fun outputs => { s with outputs })

/-- `WriteToClient` -/
def writeToClient (alloc : Bool) (env : FlushEnv) (c : ConnPtr) (buf : List UInt8) (s : IoState) :
    Exec (Int × IoState) :=
  if buf = [] then .ok (0, s)
  else do
    let conn ← Exec.deref (s.conn c)
    let s := modifyConn c (fun conn => { conn with written := conn.written ++ [buf] }) s
    match ← obtainOutput alloc c s with
    | none => .ok (-1, modifyConn c (fun conn => { conn with noClientException := false }) s)
    | some s => do
      let oco ← Exec.deref (s.outputs.record c)
      let count := buf.length
      let padBytes := padlength count
      if oco.count + count + padBytes > intMax then .error .fault
      else if (oco.count + count + padBytes : Nat) > oco.size then
        flushClient env c buf { s with
          outputPending := bitClear s.outputPending conn.fd
          criticalOutputPending := false, newOutputPending := false }
      else do
        let data ← Memory.store oco.buf oco.count buf
        let oco := { oco with buf := data, count := oco.count + count + padBytes }
        .ok (count, setOutput c oco { s with
          newOutputPending := true, outputPending := bitSet s.outputPending conn.fd })

/-- The body of the loop of `FlushAllOutput`. -/
def flushPending (env : ConnPtr → FlushEnv) (s : IoState) (fd : Nat) : Exec IoState :=
  match s.connectionTranslation fd with
  | none => .ok s
  | some c => do
    let conn ← Exec.deref (s.conns.get c)
    if conn.clientGone then .ok s
    else if s.clientsWithInput conn.fd then
      .ok { s with outputPending := bitSet s.outputPending conn.fd, newOutputPending := true }
    else do
      let (_, s) ← flushClient (env c) c [] s
      .ok s

def flushAllOutput (env : ConnPtr → FlushEnv) (s : IoState) : Exec IoState :=
  if ¬ s.newOutputPending then .ok s
  else
    ((List.range maxSocks).filter s.outputPending).foldlM (flushPending env)
      { s with criticalOutputPending := false, newOutputPending := false, outputPending := fun _ => false }

/-! ### Connections -/

/-- `FreeOsBuffers` -/
def freeOsBuffers (c : ConnPtr) (s : IoState) : Exec IoState := do
  let s := s.keepAvailable c
  let inputs ← (if (s.inputs.held c).isNone then .ok s.inputs
    else if s.inputs.free.isSome then s.inputs.drop c
    else (s.inputs.modify c (·.reset)).give c : Exec _)
  let outputs ← (if (s.outputs.held c).isNone then .ok s.outputs
    else if s.outputs.free.isSome then s.outputs.drop c
    else (s.outputs.modify c (·.clear)).give c : Exec _)
  .ok { s with inputs, outputs }

/-- `CloseDownConnection` -/
def closeDownConnection (env : FlushEnv) (c : ConnPtr) (s : IoState) : Exec IoState := do
  let conn ← Exec.deref (s.conn c)
  let s ← (if (s.outputs.record c).any (·.count ≠ 0) then (·.2) <$> flushClient env c [] s else .ok s : Exec _)
  let s ← freeOsBuffers c s
  let blocked := bitClear s.clientsWriteBlocked conn.fd
  .ok (modifyConn c (fun conn => { conn with clientGone := true }) { s with
    connectionTranslation := Function.update s.connectionTranslation conn.fd none
    clientsWithInput := bitClear s.clientsWithInput conn.fd
    clientsWriteBlocked := blocked
    anyClientsWriteBlocked := anySet blocked && s.anyClientsWriteBlocked
    outputPending := bitClear s.outputPending conn.fd })

/-! ### Runs -/

structure ServeEnv where
  read : ReadEnv
  flush : FlushEnv

/-- A request is put back with another beginning, and `ResetCurrentRequest` is called. -/
def rewriteRequest (c : ConnPtr) (start : List UInt8) (order : ByteOrder) (s : IoState) : Exec IoState := do
  let oci ← Exec.deref (s.inputs.record c)
  let req ← Memory.load oci.buffer oci.bufptr oci.lenLastReq
  let buffer ← Memory.store oci.buffer oci.bufptr (overwrite start req)
  resetCurrentRequest c (modifyConn c (fun conn => { conn with order }) (setInput c { oci with buffer } s))

/-- What the dispatcher does with the input of a client that it has just been given a request of. -/
def react (env : ServeEnv) (c : ConnPtr) (s : IoState) : Exec IoState := do
  let conn ← Exec.deref (s.conn c)
  match conn.origin.react conn.delivered with
  | .done => .ok s
  | .insertFake data => do
    let (done, s) ← insertFakeRequest env.read.alloc env.read.grow c data s
    if done then .ok s else closeDownConnection env.flush c s
  | .resetCurrent start order => rewriteRequest c start order s

/-- The dispatcher turns to a client. -/
def serve (env : ServeEnv) (c : ConnPtr) (s : IoState) : Exec IoState := do
  let (status, s) ← readRequestFromClient env.read c s
  match status with
  | .dead => closeDownConnection env.flush c s
  | .incomplete => .ok s
  | .request _ => react env c s

/-- `EstablishNewConnections` and `NextAvailableClient` -/
def connect (env : ServeEnv) (fd : Nat) (origin : Origin) (s : IoState) : Exec IoState := do
  let c := s.conns.next
  let (done, s) ← insertFakeRequest env.read.alloc env.read.grow c origin.fake { s with
    conns := s.conns.alloc { fd, origin, order := origin.order, socket := origin.stream }
    connectionTranslation := Function.update s.connectionTranslation fd (some c) }
  if done then .ok s else closeDownConnection env.flush c s

/-- `WaitForSomething` finds some blocked sockets ready. -/
def becomeWritable (clientsWritable : Nat → Bool) (s : IoState) : IoState :=
  if s.anyClientsWriteBlocked ∧ anySet clientsWritable then
    let blocked := fun fd => s.clientsWriteBlocked fd && ! clientsWritable fd
    { s with
      newOutputPending := true
      outputPending := fun fd => s.outputPending fd || clientsWritable fd
      clientsWriteBlocked := blocked, anyClientsWriteBlocked := anySet blocked }
  else s

inductive IoInput where
  | connect (env : ServeEnv) (fd : Nat) (origin : Origin)
  | serve (env : ServeEnv) (c : ConnPtr)
  | write (alloc : Bool) (env : FlushEnv) (c : ConnPtr) (buf : List UInt8)
  | flush (env : FlushEnv) (c : ConnPtr)
  | flushAll (env : ConnPtr → FlushEnv)
  | writable (clientsWritable : Nat → Bool)
  | close (env : FlushEnv) (c : ConnPtr)

def ioStep (s : IoState) : IoInput → Exec IoState
  | .connect env fd origin => connect env fd origin s
  | .serve env c => serve env c s
  | .write alloc env c buf => (·.2) <$> writeToClient alloc env c buf s
  | .flush env c => (·.2) <$> flushClient env c [] s
  | .flushAll env => flushAllOutput env s
  | .writable clientsWritable => .ok (becomeWritable clientsWritable s)
  | .close env c => closeDownConnection env c s

end Nas.Io
