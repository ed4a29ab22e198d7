import Nas.Audio
import Nas.Fields
import Nas.Serial

/-!
# Packets from the server

`_AuReadEvents`, `_AuEventsQueued`, `_AuReply` and `_AuWaitForWritable` of `Alibint.c` read what the server sends. Three
of them read as much as there is into a buffer without knowing where a packet ends: a reply may go on behind the buffer,
and the packet behind a reply may be there only in part. `_AuAsyncReply` sees to both.

The stream is a list of packets (`packetBytes`). Every pass over the buffer ends where a packet ends, the first one that
is not before the bytes it has read (`through`), and hands on each packet once (`readPackets_ok`). So does every call
(`step_ok`), as long as what `_AuReply` leaves of a reply is read before the next one. How much has arrived when a call
looks is up to the run.
-/

namespace Nas.Demux

def sizeofAuReply : Nat := 32

/-- `BUFSIZE` -/
def bufsize : Nat := 2048

/-- `Au_Error` -/
def auErrorType : Nat := 0

/-- `Au_Reply` -/
def auReplyType : Nat := 1

/-- What becomes of a packet. -/
inductive Delivery where
  /-- For `_AuError`, or for the caller of `_AuReply`. -/
  | error (packet : List UInt8)
  /-- For `_AuEnq`. -/
  | event (packet : List UInt8)
  /-- A reply, taken by the call that waits for it or thrown away. -/
  | reply (packet : List UInt8)
deriving DecidableEq, Repr

structure AuServer where
  /-- What the server sends, now or later, less what was read. -/
  stream : List UInt8
  request : Nat := 0
  lastRequestRead : Nat := 0
  /-- The events from `head` to `tail`. -/
  queue : List (List UInt8) := []
  /-- The events that were taken off the queue. -/
  taken : List (List UInt8) := []
  /-- What became of the packets so far. -/
  log : List Delivery := []
  /-- What is left of the reply for the caller of `_AuReply` to read. -/
  body : Nat := 0
deriving DecidableEq, Repr

/-- `_AuRead`. To wait for what is never sent is to use up the fuel. -/
def auRead (n : Nat) (s : AuServer) : Exec (List UInt8 × AuServer) :=
  if n ≤ s.stream.length then .ok (s.stream.take n, { s with stream := s.stream.drop n }) else .error .fuel

/-- `_AuEatData`, whose pieces of 2048 bytes are read one after the other. -/
def auEatData (n : Nat) (s : AuServer) : Exec AuServer := do
  let (_, s) ← auRead n s
  .ok s

section
variable (o : ByteOrder) (fuel : Nat)

/-- `_AuSetLastRequestRead` -/
def setLastRequestRead (m : List UInt8) (rep : Nat) (s : AuServer) : Exec AuServer := do
  let sequenceNumber ← o.load 2 m (rep + 2)
  let newseq ← Serial.setLastRequestRead fuel s.request s.lastRequestRead sequenceNumber
  .ok { s with lastRequestRead := newseq }

/-- `rep->generic.type` -/
def typeAt (m : List UInt8) (rep : Nat) : Exec Nat := o.load 1 m rep

/-- `_AuError` less what the handlers do. -/
def auError (m : List UInt8) (rep : Nat) (s : AuServer) : Exec AuServer := do
  let s ← setLastRequestRead o fuel m rep s
  let packet ← Memory.load m rep sizeofAuReply
  .ok { s with log := s.log ++ [.error packet] }

/-- `_AuEnq`, with `_AuWireToEvent` for the types that are events, which does not know all of them. -/
def auEnq (m : List UInt8) (rep : Nat) (s : AuServer) : Exec AuServer := do
  let packet ← Memory.load m rep sizeofAuReply
  let type ← typeAt o m rep
  let s := { s with log := s.log ++ [.event packet] }
  let type := type % 128
  if 2 ≤ type ∧ type ≤ 4 then do
    let s ← setLastRequestRead o fuel m rep s
    .ok (if type = 3 then s else { s with queue := s.queue ++ [packet] })
  else .ok s

/-- `while (len > SIZEOF(auReply))` in `_AuAsyncReply`: what is left of the buffer behind the packets that are there as
a whole, if there is no reply among them. -/
def seekReply (m : List UInt8) : (rounds : Nat) → (buf : Nat) → (len : Int) → Exec (Option Int)
  | 0, _, _ => .error .fuel
  | rounds + 1, buf, len =>
    if len > sizeofAuReply then do
      let type ← typeAt o m buf
      if type = auReplyType then .ok none else seekReply m rounds (buf + sizeofAuReply) (len - sizeofAuReply)
    else .ok (some len)

/-- Where a pass over the buffer is, and what it has of it. -/
structure Pass where
  m : List UInt8
  rep : Nat
  len : Int
  s : AuServer

/-- `_AuAsyncReply` with `discard` on, from "unexpected async reply" on: over a reply of `len` bytes. -/
def skipReply (len : Int) (p : Pass) : Exec Pass := do
  let s ← (if len > p.len then auEatData (len - p.len).toNat p.s else .ok p.s : Exec AuServer)
  if len ≥ p.len then .ok { p with rep := p.rep + p.len.toNat, len := 0, s }
  else if len < 0 then .error .fault
  else do
    let lenp := p.len - len
    let nbuf := p.rep + len.toNat
    match ← seekReply o p.m (lenp.toNat + 1) nbuf lenp with
    | none => .ok { p with rep := nbuf, len := lenp, s }
    | some rest =>
      if 0 < rest ∧ rest < sizeofAuReply then do
        -- the rest of a packet is read behind its beginning, which makes room for it
        let missing := (sizeofAuReply - rest).toNat
        if nbuf < missing then .error .fault
        else do
          let m ← Memory.move p.m nbuf (nbuf - missing) lenp.toNat
          let (bytes, s) ← auRead missing s
          let m ← Memory.store m (nbuf - missing + lenp.toNat) bytes
          .ok { m, rep := nbuf - missing, len := lenp + missing, s }
      else .ok { p with rep := nbuf, len := lenp, s }

/-- `_AuAsyncReply` with `discard` on. The only handler there is does not take replies. -/
def auAsyncReply (p : Pass) : Exec Pass := do
  let s ← setLastRequestRead o fuel p.m p.rep p.s
  let length ← o.load 4 p.m (p.rep + 4)
  let packet ← Memory.load p.m p.rep sizeofAuReply
  skipReply o (asInt32 (sizeofAuReply + length * 4)) { p with s := { s with log := s.log ++ [.reply packet] } }

/-- `STARTITERATE(rep, auReply, buf.buf, len > 0)` -/
def iterate : (rounds : Nat) → Pass → Exec AuServer
  | 0, _ => .error .fuel
  | rounds + 1, p =>
    if p.len > 0 then do
      let type ← typeAt o p.m p.rep
      if type = auReplyType then do
        let p ← auAsyncReply o fuel p
        iterate rounds p
      else do
        let s ← (if type = auErrorType then auError o fuel p.m p.rep p.s
          else auEnq o fuel p.m p.rep p.s : Exec AuServer)
        iterate rounds { p with rep := p.rep + sizeofAuReply, len := p.len - sizeofAuReply, s }
    else .ok p.s

/-- `BytesReadable` when `arrived` bytes could have come by now. -/
def bytesReadable (arrived : Nat) (s : AuServer) : Nat := min arrived s.stream.length

/-- How much of what has arrived is read: at least one packet, no more than the buffer holds, and whole packets. -/
def readSize (pend : Nat) : Nat :=
  min (max pend sizeofAuReply) bufsize / sizeofAuReply * sizeofAuReply

/-- A read into the buffer and the pass over it. -/
def readPackets (pend : Nat) (s : AuServer) : Exec AuServer := do
  let (bytes, s) ← auRead (readSize pend) s
  let m ← Memory.store (List.replicate bufsize 0) 0 bytes
  iterate o fuel (bytes.length + 1) ⟨m, 0, bytes.length, s⟩

/-- `_AuWaitForWritable`, for what has arrived each time it waits. -/
def auWaitForWritable : List Nat → AuServer → Exec AuServer
  | [], s => .ok s
  | arrived :: later, s => do
    let pend := bytesReadable arrived s
    let s ← (if pend = 0 then .ok s else readPackets o fuel pend s : Exec AuServer)
    auWaitForWritable later s

/-- `_AuFlush`, less what it writes. -/
def auFlush (arrived : List Nat) (s : AuServer) : Exec AuServer := auWaitForWritable o fuel arrived s

/-- `_AuEventsQueued`; `flush` is the mode `AuEventsQueuedAfterFlush`, with what arrives while it flushes. -/
def auEventsQueued (flush : Option (List Nat)) (arrived : Nat) (s : AuServer) : Exec AuServer := do
  let (done, s) ← (match flush with
    | none => .ok (false, s)
    | some during => do
      let s ← auFlush o fuel during s
      .ok (!s.queue.isEmpty, s) : Exec (Bool × AuServer))
  let pend := bytesReadable arrived s
  if done ∨ pend = 0 then .ok s else readPackets o fuel pend s

/-- `_AuReadEvents`, for what has arrived in each round. -/
def auReadEvents (during : List Nat) : (notYetFlushed : Bool) → List Nat → AuServer → Exec AuServer
  | _, [], _ => .error .fuel
  | notYetFlushed, arrived :: later, s => do
    let pend := bytesReadable arrived s
    let (done, notYetFlushed, s) ← (if pend < sizeofAuReply ∧ notYetFlushed then do
        let t ← auFlush o fuel during s
        .ok (s.queue.length != t.queue.length, false, t)
      else .ok (false, notYetFlushed, s) : Exec (Bool × Bool × AuServer))
    if done then .ok s
    else do
      let s ← readPackets o fuel pend s
      if s.queue.isEmpty then auReadEvents during notYetFlushed later s else .ok s

/-- The loop of `_AuReply`, which reads one packet after the other; `extra` is 0. -/
def replyLoop (discard : Bool) (retStatus : Bool) (curRequest : Nat) : (rounds : Nat) → AuServer → Exec AuServer
  | 0, _ => .error .fuel
  | rounds + 1, s => do
    let (rep, s) ← auRead sizeofAuReply s
    let type ← typeAt o rep 0
    if type = auReplyType then do
      let sequenceNumber ← o.load 2 rep 2
      let s ← (if sequenceNumber = curRequest % 2 ^ 16 then .ok { s with lastRequestRead := curRequest }
        else setLastRequestRead o fuel rep 0 s : Exec AuServer)
      let length ← o.load 4 rep 4
      let s := { s with log := s.log ++ [.reply rep] }
      let bytes := length * 4 % 2 ^ 32
      if discard then auEatData bytes s else .ok { s with body := bytes }
    else if type = auErrorType then do
      let s ← setLastRequestRead o fuel rep 0 s
      if s.lastRequestRead = curRequest ∧ retStatus then .ok { s with log := s.log ++ [.error rep] }
      else do
        let s' ← auError o fuel rep 0 s
        if s.lastRequestRead = curRequest then .ok s' else replyLoop discard retStatus curRequest rounds s'
    else do
      let s ← auEnq o fuel rep 0 s
      replyLoop discard retStatus curRequest rounds s

/-- `_AuReply`. There cannot be more packets than bytes. -/
def auReply (discard retStatus : Bool) (during : List Nat) (s : AuServer) : Exec AuServer := do
  let curRequest := s.request
  let s ← auFlush o fuel during s
  replyLoop o fuel discard retStatus curRequest (s.stream.length + 1) s

/-- `_AuGetReq`, which flushes the output where there is no room for the request. -/
def auGetReq (flush : Option (List Nat)) (s : AuServer) : Exec AuServer :=
  let getReq (s : AuServer) : AuServer := { s with request := (s.request + 1) % 2 ^ 32 }
  match flush with
  | none => .ok (getReq s)
  | some during => getReq <$> auFlush o fuel during s

/-- A read of the caller of `_AuReply`, of what is behind the head of the reply. -/
def auReadBody (n : Nat) (s : AuServer) : Exec AuServer := do
  let s ← auEatData n s
  .ok { s with body := s.body - n }

/-- What a program does with the connection. -/
inductive Call where
  | getReq (flush : Option (List Nat))
  | eventsQueued (flush : Option (List Nat)) (arrived : Nat)
  | readEvents (during arrived : List Nat)
  | reply (discard retStatus : Bool) (during : List Nat)
  | readBody (n : Nat)
  /-- An event is taken off the queue. -/
  | dequeue
deriving DecidableEq, Repr

def step (s : AuServer) : Call → Exec AuServer
  | .getReq flush => auGetReq o fuel flush s
  | .eventsQueued flush arrived => auEventsQueued o fuel flush arrived s
  | .readEvents during arrived => auReadEvents o fuel during true arrived s
  | .reply discard retStatus during => auReply o fuel discard retStatus during s
  | .readBody n => auReadBody n s
  | .dequeue => .ok { s with queue := s.queue.tail, taken := s.taken ++ s.queue.take 1 }

end

/-! ### The stream -/

/-- A packet: its head, and the data of a reply. -/
structure Packet (o : ByteOrder) where
  head : List UInt8
  body : List UInt8
  head_length : head.length = sizeofAuReply
  body_length : body.length = if o.read 1 head 0 = auReplyType then o.read 4 head 4 * 4 else 0
  /-- The size of a packet is an `int`. -/
  short : sizeofAuReply + body.length < 2 ^ 31

namespace Packet
variable {o : ByteOrder} (p : Packet o)

def type : Nat := o.read 1 p.head 0

def bytes : List UInt8 := p.head ++ p.body

def size : Nat := sizeofAuReply + p.body.length

/-- What is to become of it. -/
def delivery : Delivery :=
  if p.type = auReplyType then .reply p.head else if p.type = auErrorType then .error p.head else .event p.head

/-- What it adds to the queue. -/
def queued : List (List UInt8) :=
  if p.type = auReplyType ∨ p.type = auErrorType then []
  else if p.type % 128 = 2 ∨ p.type % 128 = 4 then [p.head] else []

end Packet

def packetBytes {o : ByteOrder} (ps : List (Packet o)) : List UInt8 := ps.flatMap Packet.bytes

/-- How many packets begin before the first `n` bytes are over. -/
def through {o : ByteOrder} : (n : Nat) → List (Packet o) → Nat
  | _, [] => 0
  | n, p :: ps => if n = 0 then 0 else through (n - p.size) ps + 1

/-- The packets have been handed on. -/
structure Hands {o : ByteOrder} (done : List (Packet o)) (s s' : AuServer) : Prop where
  log : s'.log = s.log ++ done.map Packet.delivery
  queue : s'.queue = s.queue ++ done.flatMap Packet.queued
  taken : s'.taken = s.taken
  request : s'.request = s.request
  body : s'.body = s.body
  last : s'.lastRequestRead < 2 ^ 32

/-- The requests are counted with 32 bits, and not up to the end. -/
structure Counted (s : AuServer) : Prop where
  request : s.request < 2 ^ 32 - 2 ^ 16
  last : s.lastRequestRead < 2 ^ 32

section
variable {o : ByteOrder} {fuel n k a : Nat} {m xs ys zs : List UInt8} {s s' t : AuServer} {p : Packet o}
  {ps done done' : List (Packet o)}

theorem Hands.nil (h : Counted s) : Hands ([] : List (Packet o)) s s :=
  ⟨by simp, by simp, rfl, rfl, rfl, h.last⟩

theorem Hands.trans (h : Hands done s s') (h' : Hands done' s' t) : Hands (done ++ done') s t where
  log := by rw [h'.log, h.log, List.map_append, List.append_assoc]
  queue := by rw [h'.queue, h.queue, List.flatMap_append, List.append_assoc]
  taken := h'.taken.trans h.taken
  request := h'.request.trans h.request
  body := h'.body.trans h.body
  last := h'.last

/-- What was read of the stream, and what the last request was, does not count. -/
theorem Hands.of_eq (h : Hands done t s') (hlog : t.log = s.log) (hqueue : t.queue = s.queue)
    (htaken : t.taken = s.taken) (hrequest : t.request = s.request) (hbody : t.body = s.body) : Hands done s s' where
  log := hlog ▸ h.log
  queue := hqueue ▸ h.queue
  taken := h.taken.trans htaken
  request := h.request.trans hrequest
  body := h.body.trans hbody
  last := h.last

theorem Hands.counted (h : Hands done s s') (hs : Counted s) : Counted s' :=
  ⟨by rw [h.request]; exact hs.request, h.last⟩

theorem Packet.length_bytes : p.bytes.length = p.size := by
  rw [bytes, List.length_append, p.head_length, size]

theorem Packet.size_ge : sizeofAuReply ≤ p.size := Nat.le_add_right ..

/-- Only replies have data. -/
theorem Packet.body_nil (h : p.type ≠ auReplyType) : p.body = [] := by
  have hlength := p.body_length
  rw [if_neg (show o.read 1 p.head 0 ≠ auReplyType from h)] at hlength
  exact List.eq_nil_of_length_eq_zero hlength

theorem Packet.size_eq (h : p.type ≠ auReplyType) : p.size = sizeofAuReply := by
  rw [size, p.body_nil h]
  rfl

theorem packetBytes_cons : packetBytes (p :: ps) = p.bytes ++ packetBytes ps := rfl

theorem length_packetBytes_cons : (packetBytes (p :: ps)).length = p.size + (packetBytes ps).length := by
  rw [packetBytes_cons, List.length_append, Packet.length_bytes]

/-- There are not more packets than bytes. -/
theorem length_le : ps.length ≤ (packetBytes ps).length := by
  induction ps with
  | nil => exact Nat.zero_le _
  | cons p ps ih =>
    have hsize := p.size_ge
    have hpos : 0 < sizeofAuReply := by decide
    rw [length_packetBytes_cons, List.length_cons]
    omega

/-! ### Serial numbers -/

/-- The search for the serial number ends, if there are no more candidates than numbers. -/
theorem seekSerial_ok {request last newseq : Nat} (hrequest : request < 2 ^ 32 - 2 ^ 16) (hle : newseq ≤ request)
    (hn : request < newseq + n * 2 ^ 16) (hfuel : n + 1 ≤ fuel) :
    ∃ r < 2 ^ 32, Serial.seekSerial request last fuel newseq = .ok r := by
  induction n generalizing newseq fuel with
  | zero => omega
  | succ n ih =>
    obtain ⟨fuel, rfl⟩ : ∃ k, fuel = k + 1 := ⟨fuel - 1, by omega⟩
    rw [Serial.seekSerial]
    by_cases hlow : newseq < last
    · have hnext : (newseq + 0x10000) % 2 ^ 32 = newseq + 0x10000 := Nat.mod_eq_of_lt (by omega)
      rw [if_pos hlow]
      dsimp only
      rw [hnext]
      split
      · exact ⟨newseq, by omega, rfl⟩
      · exact ih (by omega) (by omega) (by omega)
    · rw [if_neg hlow]
      exact ⟨newseq, by omega, rfl⟩

theorem serial_ok {request last sequenceNumber : Nat} (hrequest : request < 2 ^ 32 - 2 ^ 16) (hlast : last < 2 ^ 32)
    (hseq : sequenceNumber < 2 ^ 16) (hfuel : 2 ^ 16 + 2 ≤ fuel) :
    ∃ r < 2 ^ 32, Serial.setLastRequestRead fuel request last sequenceNumber = .ok r := by
  rw [Serial.setLastRequestRead, Serial.candidate_eq hlast hseq]
  obtain ⟨fuel, rfl⟩ : ∃ k, fuel = k + 1 := ⟨fuel - 1, by omega⟩
  rw [Serial.seekSerial]
  split
  · dsimp only
    split
    · exact ⟨_, by omega, rfl⟩
    · -- the number may have gone over
      exact seekSerial_ok (n := 2 ^ 16) hrequest (by omega) (by omega) (by omega)
  · exact ⟨_, by omega, rfl⟩

/-! ### Where a packet is in the buffer -/

/-- What is in the buffer and behind it, cut at the end of a piece that is inside. -/
theorem slice_split (h : Memory.slice m a (a + n) ++ zs = xs ++ ys) (hlen : xs.length ≤ n) (hin : a + n ≤ m.length) :
    Memory.slice m a (a + xs.length) = xs ∧ Memory.slice m (a + xs.length) (a + n) ++ zs = ys := by
  have hcut : Memory.slice m a (a + xs.length) ++ (Memory.slice m (a + xs.length) (a + n) ++ zs) = xs ++ ys := by
    rw [← List.append_assoc, Memory.slice_append (by omega) (by omega), h]
  refine List.append_inj hcut ?_
  rw [Memory.length_slice (by omega)]
  omega

theorem read_slice {w : Nat} (h : Memory.slice m a (a + n) = xs) (hk : k + w ≤ n) :
    o.read w m (a + k) = o.read w xs k := by
  unfold ByteOrder.read
  congr 1
  rw [← h, Memory.slice_eq, Memory.slice_eq, Memory.slice_eq, List.drop_take, List.drop_drop, List.take_take]
  congr 1
  omega

/-- The head of the packet is at `a`. -/
structure HeadAt (m : List UInt8) (a : Nat) (p : Packet o) : Prop where
  inside : a + sizeofAuReply ≤ m.length
  head : Memory.slice m a (a + sizeofAuReply) = p.head

namespace HeadAt

theorem read (h : HeadAt m a p) {w : Nat} (hk : k + w ≤ sizeofAuReply) :
    o.load w m (a + k) = .ok (o.read w p.head k) := by
  have hin := h.inside
  rw [ByteOrder.load_ok (by omega), read_slice h.head hk]

theorem typeAt (h : HeadAt m a p) : typeAt o m a = .ok p.type := h.read (k := 0) (by decide)

theorem load (h : HeadAt m a p) : Memory.load m a sizeofAuReply = .ok p.head := by
  rw [Memory.load_ok h.inside, h.head]

end HeadAt

/-- The first packet of what is in the buffer. -/
theorem headAt_of_slice (h : Memory.slice m a (a + n) ++ zs = packetBytes (p :: ps)) (hn : sizeofAuReply ≤ n)
    (hin : a + n ≤ m.length) : HeadAt m a p := by
  rw [packetBytes_cons, Packet.bytes, List.append_assoc] at h
  obtain ⟨hhead, -⟩ := slice_split h (by rw [p.head_length]; exact hn) hin
  rw [p.head_length] at hhead
  exact ⟨by omega, hhead⟩

/-! ### One packet -/

theorem setLastRequestRead_ok (hs : Counted s) (hfuel : 2 ^ 16 + 2 ≤ fuel) (h : HeadAt m a p) :
    ∃ r < 2 ^ 32, setLastRequestRead o fuel m a s = .ok { s with lastRequestRead := r } := by
  have hseq : o.read 2 p.head 2 < 256 ^ 2 := ByteOrder.read_lt (by rw [p.head_length]; decide)
  obtain ⟨r, hr, hserial⟩ := serial_ok hs.request hs.last hseq hfuel
  refine ⟨r, hr, ?_⟩
  unfold setLastRequestRead
  rw [h.read (k := 2) (by decide), Exec.ok_bind, hserial, Exec.ok_bind]

theorem auError_ok (hs : Counted s) (hfuel : 2 ^ 16 + 2 ≤ fuel) (h : HeadAt m a p) (htype : p.type = auErrorType) :
    ∃ s', auError o fuel m a s = .ok s' ∧ Hands [p] s s' ∧ s'.stream = s.stream := by
  obtain ⟨r, hr, hlast⟩ := setLastRequestRead_ok hs hfuel h
  refine ⟨{ s with lastRequestRead := r, log := s.log ++ [.error p.head] }, ?_, ⟨?_, ?_, rfl, rfl, rfl, hr⟩, rfl⟩
  · rw [auError, hlast, Exec.ok_bind, h.load, Exec.ok_bind]
  · simp [Packet.delivery, htype, auErrorType, auReplyType]
  · simp [Packet.queued, htype]

theorem auEnq_ok (hs : Counted s) (hfuel : 2 ^ 16 + 2 ≤ fuel) (h : HeadAt m a p) (hreply : p.type ≠ auReplyType)
    (herror : p.type ≠ auErrorType) :
    ∃ s', auEnq o fuel m a s = .ok s' ∧ Hands [p] s s' ∧ s'.stream = s.stream := by
  have hdelivery : [p].map Packet.delivery = [.event p.head] := by simp [Packet.delivery, hreply, herror]
  have hqueued : [p].flatMap Packet.queued = if p.type % 128 = 2 ∨ p.type % 128 = 4 then [p.head] else [] := by
    simp [Packet.queued, hreply, herror]
  rw [auEnq, h.load, Exec.ok_bind, h.typeAt, Exec.ok_bind]
  dsimp only
  by_cases hevent : 2 ≤ p.type % 128 ∧ p.type % 128 ≤ 4
  · obtain ⟨r, hr, hlast⟩ :=
      setLastRequestRead_ok (s := { s with log := s.log ++ [.event p.head] }) ⟨hs.request, hs.last⟩ hfuel h
    rw [if_pos hevent, hlast, Exec.ok_bind]
    refine ⟨_, rfl, ?_, ?_⟩
    · by_cases hthree : p.type % 128 = 3
      · rw [if_pos hthree]
        refine ⟨by rw [hdelivery], ?_, rfl, rfl, rfl, hr⟩
        rw [hqueued, if_neg (by omega), List.append_nil]
      · rw [if_neg hthree]
        refine ⟨by rw [hdelivery], ?_, rfl, rfl, rfl, hr⟩
        rw [hqueued, if_pos (by omega)]
    · split <;> rfl
  · rw [if_neg hevent]
    refine ⟨_, rfl, ⟨by rw [hdelivery], ?_, rfl, rfl, rfl, hs.last⟩, rfl⟩
    rw [hqueued, if_neg (by omega), List.append_nil]

/-! ### Whole packets in the buffer -/

/-- Each packet that begins in the first `n` bytes has its head there, up to the first reply. -/
def Whole : List (Packet o) → Nat → Prop
  | [], n => n = 0
  | p :: ps, n => n = 0 ∨ sizeofAuReply ≤ n ∧ (p.type = auReplyType ∨ Whole ps (n - sizeofAuReply))

theorem Whole.zero : (ps : List (Packet o)) → Whole ps 0
  | [] => rfl
  | _ :: _ => .inl rfl

/-- So it is when a number of packet heads was read, and there is as much. -/
theorem Whole.of_multiple (hle : sizeofAuReply * k ≤ (packetBytes ps).length) : Whole ps (sizeofAuReply * k) := by
  induction ps generalizing k with
  | nil =>
    unfold packetBytes at hle
    simp only [List.flatMap_nil, List.length_nil] at hle
    exact Nat.le_zero.1 hle
  | cons p ps ih =>
    rcases k with - | k
    · exact .inl rfl
    · have hsub : sizeofAuReply * (k + 1) - sizeofAuReply = sizeofAuReply * k := by
        rw [Nat.mul_succ, Nat.add_sub_cancel]
      refine .inr ⟨by rw [Nat.mul_succ]; exact Nat.le_add_left .., ?_⟩
      by_cases hreply : p.type = auReplyType
      · exact .inl hreply
      · right
        rw [hsub]
        rw [length_packetBytes_cons, p.size_eq hreply, Nat.mul_succ] at hle
        exact ih (by omega)

theorem through_zero : (ps : List (Packet o)) → through 0 ps = 0
  | [] => rfl
  | _ :: _ => if_pos rfl

theorem through_cons (hn : n ≠ 0) : through n (p :: ps) = through (n - p.size) ps + 1 := if_neg hn

theorem Whole.one : Whole (p :: ps) sizeofAuReply := by
  refine .inr ⟨Nat.le_refl _, .inr ?_⟩
  rw [Nat.sub_self]
  exact .zero ps

theorem length_of_slice (h : Memory.slice m a (a + n) ++ zs = packetBytes ps) (hin : a + n ≤ m.length) :
    n + zs.length = (packetBytes ps).length := by
  rw [← h, List.length_append, Memory.length_slice hin]
  omega

/-- Behind a packet that is no reply comes the next one. -/
theorem slice_next (h : Memory.slice m a (a + n) ++ zs = packetBytes (p :: ps)) (hn : sizeofAuReply ≤ n)
    (hin : a + n ≤ m.length) (hreply : p.type ≠ auReplyType) :
    Memory.slice m (a + sizeofAuReply) (a + sizeofAuReply + (n - sizeofAuReply)) ++ zs = packetBytes ps := by
  have hsize : p.bytes.length = sizeofAuReply := by rw [Packet.length_bytes, p.size_eq hreply]
  have hbytes : Memory.slice m a (a + n) ++ zs = p.bytes ++ packetBytes ps := h
  obtain ⟨-, hrest⟩ := slice_split hbytes (by omega) hin
  rw [hsize] at hrest
  rwa [show a + sizeofAuReply + (n - sizeofAuReply) = a + n by omega]

/-- What `seekReply` finds: a reply, or how much is there of the last packet. -/
theorem seekReply_ok {rounds : Nat} (h : Memory.slice m a (a + n) ++ zs = packetBytes ps) (hin : a + n ≤ m.length)
    (hrounds : n < rounds) :
    seekReply o m rounds a n = .ok none ∧ Whole ps n ∨
      ∃ rest : Nat, seekReply o m rounds a n = .ok (some (rest : Int)) ∧ rest ≤ sizeofAuReply ∧
        (rest = 0 ∨ rest = sizeofAuReply → Whole ps n) ∧
        (0 < rest → rest < sizeofAuReply → sizeofAuReply - rest ≤ zs.length ∧
          Whole ps (n + (sizeofAuReply - rest)) ∧ through (n + (sizeofAuReply - rest)) ps = through n ps) := by
  induction ps generalizing a n rounds with
  | nil =>
    obtain ⟨rounds, rfl⟩ : ∃ k, rounds = k + 1 := ⟨rounds - 1, by omega⟩
    have hlen := length_of_slice h hin
    simp only [packetBytes, List.flatMap_nil, List.length_nil] at hlen
    obtain rfl : n = 0 := by omega
    exact .inr ⟨0, rfl, Nat.zero_le _, fun _ => rfl, fun hpos => absurd hpos (Nat.lt_irrefl 0)⟩
  | cons p ps ih =>
    obtain ⟨rounds, rfl⟩ : ∃ k, rounds = k + 1 := ⟨rounds - 1, by omega⟩
    have hlen := length_of_slice h hin
    rw [length_packetBytes_cons] at hlen
    have hsize := p.size_ge
    unfold seekReply
    by_cases hmore : n > sizeofAuReply
    · have hcast : (n : Int) - sizeofAuReply = ((n - sizeofAuReply : Nat) : Int) := by omega
      rw [if_pos (by exact_mod_cast hmore), (headAt_of_slice h (Nat.le_of_lt hmore) hin).typeAt, Exec.ok_bind]
      by_cases hreply : p.type = auReplyType
      · rw [if_pos hreply]
        exact .inl ⟨rfl, .inr ⟨Nat.le_of_lt hmore, .inl hreply⟩⟩
      · have hsize' := p.size_eq hreply
        have hpos : 0 < sizeofAuReply := by decide
        have hwhole {k : Nat} (hk : Whole ps (n + k - sizeofAuReply)) : Whole (p :: ps) (n + k) :=
          .inr ⟨by omega, .inr hk⟩
        rw [if_neg hreply, hcast]
        obtain ⟨hnone, hw⟩ | ⟨rest, hsome, hle, hw, hmissing⟩ :=
          ih (slice_next h (Nat.le_of_lt hmore) hin hreply) (by omega)
            (show n - sizeofAuReply < rounds by omega)
        · exact .inl ⟨hnone, hwhole (k := 0) hw⟩
        · refine .inr ⟨rest, hsome, hle, fun hrest => hwhole (k := 0) (hw hrest), fun hrest hlt => ?_⟩
          obtain ⟨hzs, hw', hthrough⟩ := hmissing hrest hlt
          have hsub : n - sizeofAuReply + (sizeofAuReply - rest) = n + (sizeofAuReply - rest) - sizeofAuReply := by
            omega
          rw [hsub] at hw' hthrough
          refine ⟨hzs, hwhole hw', ?_⟩
          rw [through_cons (by omega), through_cons (by omega), hsize', hthrough]
    · rw [if_neg (by exact_mod_cast hmore)]
      refine .inr ⟨n, rfl, Nat.le_of_not_lt hmore, fun hn => ?_, fun hpos hlt => ?_⟩
      · rcases hn with rfl | rfl
        · exact .zero _
        · exact .one
      · have hsum : n + (sizeofAuReply - n) = sizeofAuReply := by omega
        refine ⟨by omega, by rw [hsum]; exact .one, ?_⟩
        rw [hsum, through_cons (by decide), through_cons (by omega), Nat.sub_eq_zero_of_le hsize,
          Nat.sub_eq_zero_of_le (by omega)]

theorem auRead_ok (h : n ≤ s.stream.length) :
    auRead n s = .ok (s.stream.take n, { s with stream := s.stream.drop n }) := if_pos h

/-! ### A pass over the buffer -/

/-- What is in the buffer, `n` bytes of it, and behind it are the packets. -/
structure Covers (w : Pass) (n : Nat) (ps : List (Packet o)) : Prop where
  len : w.len = n
  inside : w.rep + n ≤ w.m.length
  bytes : Memory.slice w.m w.rep (w.rep + n) ++ w.s.stream = packetBytes ps
  whole : Whole ps n

/-- Bytes that are moved back and followed by those that were missing. -/
theorem complete_ok {nbuf missing : Nat} (hin : nbuf + n ≤ m.length) (hroom : missing ≤ nbuf)
    (hx : xs.length = missing) :
    ∃ m₁ m₂, Memory.move m nbuf (nbuf - missing) n = .ok m₁ ∧ Memory.store m₁ (nbuf - missing + n) xs = .ok m₂ ∧
      m₂.length = m.length ∧
      Memory.slice m₂ (nbuf - missing) (nbuf - missing + (n + missing)) = Memory.slice m nbuf (nbuf + n) ++ xs := by
  obtain ⟨m₁, hm₁, hmoved⟩ := Memory.move_ok hin (show nbuf - missing + n ≤ m.length by omega)
  have hfits : nbuf - missing + n + xs.length ≤ m₁.length := by
    rw [hmoved.length]
    omega
  obtain ⟨m₂, hm₂, hstored⟩ := Memory.store_ok hfits
  refine ⟨m₁, m₂, hm₁, hm₂, hstored.length.trans hmoved.length, ?_⟩
  have hfirst : Memory.slice m₂ (nbuf - missing) (nbuf - missing + n) = Memory.slice m nbuf (nbuf + n) := by
    rw [hstored.slice_below (Nat.le_refl _)]
    have hself := hmoved.slice_self
    rwa [Memory.length_slice hin, Nat.add_sub_cancel_left] at hself
  have hsecond := hstored.slice_self
  rw [hx, show nbuf - missing + n + missing = nbuf - missing + (n + missing) by omega] at hsecond
  rw [← hfirst, ← hsecond, Memory.slice_append (by omega) (by omega)]

/-- Behind a reply comes a packet, and all of it that has to be in the buffer is there. -/
theorem auAsyncReply_ok {w : Pass} (hw : Covers w n (p :: ps)) (hn : 0 < n) (hreply : p.type = auReplyType)
    (hs : Counted w.s) (hfuel : 2 ^ 16 + 2 ≤ fuel) :
    ∃ w' n', auAsyncReply o fuel w = .ok w' ∧ Covers w' n' ps ∧ Hands [p] w.s w'.s ∧ n' < n ∧
      through n' ps = through (n - p.size) ps := by
  obtain ⟨m, rep, len, s⟩ := w
  obtain ⟨rfl, hin, hbytes, hwhole⟩ := hw
  dsimp only at hin hbytes hs ⊢
  have hn32 : sizeofAuReply ≤ n := by
    rcases hwhole with hzero | ⟨hle, -⟩
    · omega
    · exact hle
  have hhead := headAt_of_slice hbytes hn32 hin
  have hlen := length_of_slice hbytes hin
  rw [length_packetBytes_cons] at hlen
  have hpos : 0 < sizeofAuReply := by decide
  have hsize : asInt32 (sizeofAuReply + o.read 4 p.head 4 * 4) = (p.size : Int) := by
    have hshort := p.short
    have hbody := p.body_length
    rw [if_pos (show o.read 1 p.head 0 = auReplyType from hreply)] at hbody
    rw [← hbody, asInt32, Nat.mod_eq_of_lt (by omega), if_pos hshort]
    rfl
  obtain ⟨r, hr, hlast⟩ := setLastRequestRead_ok hs hfuel hhead
  let t : AuServer := { s with lastRequestRead := r, log := s.log ++ [.reply p.head] }
  have hhands : Hands [p] s t :=
    ⟨by simp [t, Packet.delivery, hreply], by simp [t, Packet.queued, hreply], rfl, rfl, rfl, hr⟩
  have hstart : auAsyncReply o fuel ⟨m, rep, n, s⟩ = skipReply o p.size ⟨m, rep, n, t⟩ := by
    unfold auAsyncReply
    rw [hlast, Exec.ok_bind, hhead.read (k := 4) (by decide), Exec.ok_bind, hhead.load, Exec.ok_bind]
    dsimp only
    rw [hsize]
  rw [hstart, skipReply]
  dsimp only
  by_cases hlong : n < p.size
  · -- the reply goes on behind the buffer
    have hcast : ((p.size : Int) - n).toNat = p.size - n := by omega
    have hrest : s.stream.drop (p.size - n) = packetBytes ps := by
      have hdrop := congrArg (List.drop p.size) hbytes
      rw [List.drop_append, Memory.length_slice hin, List.drop_eq_nil_of_le (by rw [Memory.length_slice hin]; omega),
        packetBytes_cons, List.drop_append_of_le_length (Nat.le_of_eq p.length_bytes.symm),
        List.drop_eq_nil_of_le (Nat.le_of_eq p.length_bytes), List.nil_append, List.nil_append,
        show p.size - (rep + n - rep) = p.size - n by omega] at hdrop
      exact hdrop
    rw [if_pos (by exact_mod_cast hlong), hcast, auEatData, auRead_ok (show p.size - n ≤ t.stream.length by
      show p.size - n ≤ s.stream.length
      omega), Exec.ok_bind, Exec.ok_bind, if_pos (by omega)]
    refine ⟨_, 0, rfl, ⟨rfl, by dsimp only; omega, ?_, .zero ps⟩, ⟨hhands.log, hhands.queue, rfl, rfl, rfl, hr⟩, hn, ?_⟩
    · dsimp only
      rw [Nat.add_zero, Memory.slice_self, List.nil_append]
      exact hrest
    · rw [Nat.sub_eq_zero_of_le (by omega)]
  · rw [if_neg (by omega), Exec.ok_bind]
    have hbytes' : Memory.slice m rep (rep + n) ++ s.stream = p.bytes ++ packetBytes ps := hbytes
    obtain ⟨-, hrest⟩ := slice_split hbytes' (by rw [p.length_bytes]; omega) hin
    rw [p.length_bytes, show rep + n = rep + p.size + (n - p.size) by omega] at hrest
    by_cases heq : n = p.size
    · subst heq
      rw [if_pos (Int.le_refl _)]
      refine ⟨_, 0, rfl, ⟨rfl, by dsimp only; omega, ?_, .zero ps⟩, hhands, hn, by rw [Nat.sub_self]⟩
      rw [Nat.sub_self] at hrest
      exact hrest
    · have hcast : (n : Int) - p.size = ((n - p.size : Nat) : Int) := by omega
      have hsub : n - p.size < n := by
        have := p.size_ge
        omega
      rw [if_neg (by omega), if_neg (by omega)]
      rw [hcast, Int.toNat_natCast, Int.toNat_natCast]
      obtain ⟨hnone, hw⟩ | ⟨rest, hsome, hle, hw, hmissing⟩ :=
        seekReply_ok hrest (by omega) (Nat.lt_succ_self (n - p.size))
      · rw [hnone, Exec.ok_bind]
        exact ⟨_, n - p.size, rfl, ⟨rfl, by dsimp only; omega, hrest, hw⟩, hhands, hsub, rfl⟩
      · rw [hsome, Exec.ok_bind]
        dsimp only
        by_cases hpart : 0 < rest ∧ rest < sizeofAuReply
        · obtain ⟨hzs, hw', hthrough⟩ := hmissing hpart.1 hpart.2
          have hmiss : ((sizeofAuReply : Int) - rest).toNat = sizeofAuReply - rest := by omega
          have hsize32 := p.size_ge
          have htake : (s.stream.take (sizeofAuReply - rest)).length = sizeofAuReply - rest := by
            rw [List.length_take]
            omega
          obtain ⟨m₁, m₂, hm₁, hm₂, hlength, hslice⟩ := complete_ok
            (show rep + p.size + (n - p.size) ≤ m.length by omega)
            (show sizeofAuReply - rest ≤ rep + p.size by omega) htake
          rw [if_pos (by omega), hmiss, if_neg (by omega), hm₁, Exec.ok_bind, auRead_ok (show sizeofAuReply - rest ≤
            t.stream.length from hzs), Exec.ok_bind]
          dsimp only [t]
          rw [hm₂, Exec.ok_bind]
          refine ⟨_, n - p.size + (sizeofAuReply - rest), rfl, ⟨?_, ?_, ?_, hw'⟩,
            ⟨hhands.log, hhands.queue, rfl, rfl, rfl, hr⟩, by omega, hthrough⟩
          · dsimp only
            omega
          · dsimp only
            omega
          · dsimp only
            rw [hslice, List.append_assoc, List.take_append_drop]
            exact hrest
        · rw [if_neg (by omega)]
          exact ⟨_, n - p.size, rfl, ⟨rfl, by dsimp only; omega, hrest, hw (by omega)⟩, hhands, hsub, rfl⟩

/-- A pass hands on the packets that begin in the buffer, and leaves the stream at the end of the last of them. -/
theorem iterate_ok {rounds : Nat} {w : Pass} (hw : Covers w n ps) (hs : Counted w.s) (hfuel : 2 ^ 16 + 2 ≤ fuel)
    (hrounds : n < rounds) :
    ∃ s', iterate o fuel rounds w = .ok s' ∧ Hands (ps.take (through n ps)) w.s s' ∧
      s'.stream = packetBytes (ps.drop (through n ps)) := by
  induction rounds generalizing n w ps with
  | zero => omega
  | succ rounds ih =>
    have hlen := hw.len
    unfold iterate
    rcases Nat.eq_zero_or_pos n with hzero | hpos
    · -- the buffer is done
      subst hzero
      have hbytes := hw.bytes
      rw [Nat.add_zero, Memory.slice_self, List.nil_append] at hbytes
      rw [if_neg (by omega), through_zero]
      exact ⟨w.s, rfl, .nil hs, hbytes⟩
    · rw [if_pos (by omega)]
      cases ps with
      | nil => exact absurd hw.whole (Nat.ne_of_gt hpos)
      | cons p ps =>
        have hcons : through n (p :: ps) = through (n - p.size) ps + 1 := through_cons (Nat.ne_of_gt hpos)
        have hn32 : sizeofAuReply ≤ n := by
          rcases hw.whole with hzero | ⟨hle, -⟩
          · omega
          · exact hle
        have hhead := headAt_of_slice hw.bytes hn32 hw.inside
        rw [hhead.typeAt, Exec.ok_bind]
        by_cases hreply : p.type = auReplyType
        · obtain ⟨w', n', he, hw', hhands, hlt, hthrough⟩ := auAsyncReply_ok hw hpos hreply hs hfuel
          obtain ⟨s', hs', hhands', hstream⟩ := ih hw' (hhands.counted hs) (by omega)
          rw [if_pos hreply, he, Exec.ok_bind, hcons, ← hthrough]
          exact ⟨s', hs', hhands.trans hhands', hstream⟩
        · rw [if_neg hreply]
          obtain ⟨t, ht, hhands, hstream⟩ : ∃ t, (if p.type = auErrorType then auError o fuel w.m w.rep w.s
              else auEnq o fuel w.m w.rep w.s : Exec AuServer) = .ok t ∧ Hands [p] w.s t ∧ t.stream = w.s.stream := by
            by_cases herror : p.type = auErrorType
            · rw [if_pos herror]
              exact auError_ok hs hfuel hhead herror
            · rw [if_neg herror]
              exact auEnq_ok hs hfuel hhead hreply herror
          have hsize := p.size_eq hreply
          have hnext : Covers { w with rep := w.rep + sizeofAuReply, len := w.len - sizeofAuReply, s := t }
              (n - sizeofAuReply) ps := by
            refine ⟨by dsimp only; omega, ?_, ?_, ?_⟩
            · have hin := hw.inside
              dsimp only
              omega
            · dsimp only
              rw [hstream]
              exact slice_next hw.bytes hn32 hw.inside hreply
            · rcases hw.whole with hzero | ⟨-, hrep | hwhole⟩
              · omega
              · exact absurd hrep hreply
              · exact hwhole
          have hpos32 : 0 < sizeofAuReply := by decide
          obtain ⟨s', hs', hhands', hstream'⟩ := ih hnext (hhands.counted hs) (by omega)
          rw [ht, Exec.ok_bind, hcons, hsize]
          exact ⟨s', hs', hhands.trans hhands', hstream'⟩

/-! ### Calls -/

theorem readSize_le (hps : ps ≠ []) (hle : n ≤ (packetBytes ps).length ∨ n < sizeofAuReply) :
    readSize n ≤ (packetBytes ps).length := by
  have hlow : sizeofAuReply ≤ (packetBytes ps).length := by
    obtain ⟨p, rest, rfl⟩ := List.exists_cons_of_ne_nil hps
    have := p.size_ge
    rw [length_packetBytes_cons]
    omega
  have hdiv := Nat.div_mul_le_self (min (max n sizeofAuReply) bufsize) sizeofAuReply
  unfold readSize
  omega

/-- At least one packet is read. -/
theorem readSize_ge : sizeofAuReply ≤ readSize n := by
  unfold readSize
  have hone : 1 ≤ min (max n sizeofAuReply) bufsize / sizeofAuReply := by
    refine (Nat.le_div_iff_mul_le (by decide)).2 ?_
    rw [Nat.one_mul]
    exact Nat.le_min.2 ⟨Nat.le_max_right .., by decide⟩
  exact Nat.le_trans (by decide) (Nat.mul_le_mul_right sizeofAuReply hone)

/-- A read hands on packets, and at least one, up to the first end of one that is not before the bytes it has read. -/
theorem readPackets_ok (hstream : s.stream = packetBytes ps) (hs : Counted s) (hfuel : 2 ^ 16 + 2 ≤ fuel)
    (hsize : readSize n ≤ s.stream.length) :
    ∃ s', readPackets o fuel n s = .ok s' ∧ Hands (ps.take (through (readSize n) ps)) s s' ∧
      s'.stream = packetBytes (ps.drop (through (readSize n) ps)) := by
  have htake : (s.stream.take (readSize n)).length = readSize n := by
    rw [List.length_take]
    omega
  have hbuf : 0 + (s.stream.take (readSize n)).length ≤ (List.replicate bufsize (0 : UInt8)).length := by
    rw [htake, List.length_replicate]
    unfold readSize
    have := Nat.div_mul_le_self (min (max n sizeofAuReply) bufsize) sizeofAuReply
    omega
  obtain ⟨m, hm, hstored⟩ := Memory.store_ok hbuf
  have hself := hstored.slice_self
  rw [htake] at hself
  have hcovers :
      Covers ⟨m, 0, (readSize n : Nat), { s with stream := s.stream.drop (readSize n) }⟩ (readSize n) ps := by
    refine ⟨rfl, ?_, ?_, ?_⟩
    · rw [hstored.length]
      rw [htake] at hbuf
      exact hbuf
    · dsimp only
      rw [hself, List.take_append_drop, hstream]
    · have hmul : readSize n = sizeofAuReply * (min (max n sizeofAuReply) bufsize / sizeofAuReply) := Nat.mul_comm ..
      rw [hmul]
      refine .of_multiple ?_
      rw [← hmul, ← hstream]
      exact hsize
  obtain ⟨s', he, hhands, hstream'⟩ := iterate_ok hcovers ⟨hs.request, hs.last⟩ hfuel (Nat.lt_succ_self _)
  refine ⟨s', ?_, hhands.of_eq rfl rfl rfl rfl rfl, hstream'⟩
  rw [readPackets, auRead_ok hsize, Exec.ok_bind]
  dsimp only
  rw [hm, Exec.ok_bind, htake]
  exact he

/-- Some of the packets were handed on, and the others are still to come. -/
def Moved (ps : List (Packet o)) (s s' : AuServer) : Prop :=
  ∃ done rest, ps = done ++ rest ∧ Hands done s s' ∧ s'.stream = packetBytes rest

theorem Moved.refl (hs : Counted s) (hstream : s.stream = packetBytes ps) : Moved ps s s :=
  ⟨[], ps, rfl, .nil hs, hstream⟩

theorem Moved.trans {rest : List (Packet o)} (hps : ps = done ++ rest) (h : Hands done s s') (h' : Moved rest s' t) :
    Moved ps s t := by
  obtain ⟨done', rest', hrest, hhands, hstream⟩ := h'
  exact ⟨done ++ done', rest', by rw [hps, hrest, List.append_assoc], h.trans hhands, hstream⟩

/-- A read of what has arrived, if that is anything. -/
theorem readArrived_ok (arrived : Nat) (hstream : s.stream = packetBytes ps) (hs : Counted s)
    (hfuel : 2 ^ 16 + 2 ≤ fuel) :
    ∃ s', (if bytesReadable arrived s = 0 then .ok s else readPackets o fuel (bytesReadable arrived s) s :
      Exec AuServer) = .ok s' ∧ Moved ps s s' := by
  by_cases hpend : bytesReadable arrived s = 0
  · rw [if_pos hpend]
    exact ⟨s, rfl, .refl hs hstream⟩
  · have hps : ps ≠ [] := by
      rintro rfl
      refine hpend ?_
      rw [bytesReadable, hstream]
      exact Nat.min_zero _
    have hsize : readSize (bytesReadable arrived s) ≤ s.stream.length := by
      rw [hstream]
      exact readSize_le hps (.inl (hstream ▸ Nat.min_le_right ..))
    obtain ⟨s', he, hhands, hstream'⟩ := readPackets_ok hstream hs hfuel hsize
    rw [if_neg hpend]
    exact ⟨s', he, _, _, (List.take_append_drop ..).symm, hhands, hstream'⟩

theorem auWaitForWritable_ok (arrived : List Nat) (hstream : s.stream = packetBytes ps) (hs : Counted s)
    (hfuel : 2 ^ 16 + 2 ≤ fuel) : ∃ s', auWaitForWritable o fuel arrived s = .ok s' ∧ Moved ps s s' := by
  induction arrived generalizing s ps with
  | nil => exact ⟨s, rfl, .refl hs hstream⟩
  | cons now later ih =>
    obtain ⟨t, ht, done, rest, hps, hhands, hrest⟩ := readArrived_ok now hstream hs hfuel
    obtain ⟨s', hs', hmoved⟩ := ih hrest (hhands.counted hs)
    exact ⟨s', by rw [auWaitForWritable, ht, Exec.ok_bind, hs'], .trans hps hhands hmoved⟩

/-- `_AuEventsQueued` never waits for more than is sent. -/
theorem auEventsQueued_ok (flush : Option (List Nat)) (arrived : Nat) (hstream : s.stream = packetBytes ps)
    (hs : Counted s) (hfuel : 2 ^ 16 + 2 ≤ fuel) :
    ∃ s', auEventsQueued o fuel flush arrived s = .ok s' ∧ Moved ps s s' := by
  have hread {b : Bool} {s : AuServer} {ps : List (Packet o)} (hstream : s.stream = packetBytes ps) (hs : Counted s) :
      ∃ s', (if b ∨ bytesReadable arrived s = 0 then .ok s else readPackets o fuel (bytesReadable arrived s) s :
        Exec AuServer) = .ok s' ∧ Moved ps s s' := by
    cases b with
    | true => exact ⟨s, rfl, .refl hs hstream⟩
    | false =>
      obtain ⟨s', he, hmoved⟩ := readArrived_ok arrived hstream hs hfuel
      refine ⟨s', ?_, hmoved⟩
      rw [← he]
      simp
  cases flush with
  | none => exact hread hstream hs
  | some during =>
    obtain ⟨t, ht, done, rest, hps, hhands, hrest⟩ := auWaitForWritable_ok during hstream hs hfuel
    obtain ⟨s', hs', hmoved⟩ := hread (b := !t.queue.isEmpty) hrest (hhands.counted hs)
    refine ⟨s', ?_, .trans hps hhands hmoved⟩
    unfold auEventsQueued auFlush
    dsimp only
    rw [ht, Exec.ok_bind, Exec.ok_bind]
    exact hs'

/-- A read that waits if there is no packet to come. -/
theorem readWaiting_ok (hstream : s.stream = packetBytes ps) (hs : Counted s) (hfuel : 2 ^ 16 + 2 ≤ fuel)
    (hn : n ≤ s.stream.length ∨ n < sizeofAuReply) :
    (∃ s' done rest, readPackets o fuel n s = .ok s' ∧ ps = done ++ rest ∧ done ≠ [] ∧ Hands done s s' ∧
      s'.stream = packetBytes rest) ∨ readPackets o fuel n s = .error .fuel ∧ ps = [] := by
  have hlow : sizeofAuReply ≤ readSize n := readSize_ge
  cases ps with
  | nil =>
    refine .inr ⟨?_, rfl⟩
    have hnone : ¬ readSize n ≤ s.stream.length := by
      rw [hstream]
      exact Nat.not_le.2 (Nat.lt_of_lt_of_le (show 0 < sizeofAuReply by decide) hlow)
    rw [readPackets, auRead, if_neg hnone, Exec.error_bind]
  | cons p ps =>
    left
    rw [hstream] at hn
    obtain ⟨s', he, hhands, hstream'⟩ :=
      readPackets_ok hstream hs hfuel (hstream ▸ readSize_le (List.cons_ne_nil p ps) hn)
    refine ⟨s', _, _, he, (List.take_append_drop ..).symm, ?_, hhands, hstream'⟩
    rw [through_cons (Nat.ne_of_gt (Nat.lt_of_lt_of_le (by decide) hlow)), List.take_succ_cons]
    exact List.cons_ne_nil _ _

/-- What `_AuReadEvents` comes to: it returns with an event, or it waits and no event is sent, for as many rounds. -/
def Read (ps : List (Packet o)) (s : AuServer) (rounds : Nat) (x : Exec AuServer) : Prop :=
  (∃ t, x = .ok t ∧ Moved ps s t ∧ t.queue ≠ []) ∨
    x = .error .fuel ∧ (ps.length < rounds → ∀ p ∈ ps, p.queued = [])

/-- No event was among the packets so far. -/
theorem Read.trans {rest : List (Packet o)} {rounds : Nat} {x : Exec AuServer} (hps : ps = done ++ rest)
    (h : Hands done s s') (hqueued : done.flatMap Packet.queued = []) (hrounds : ps.length < rounds → rest.length < k)
    (h' : Read rest s' k x) : Read ps s rounds x := by
  obtain ⟨t, rfl, hmoved, hne⟩ | ⟨rfl, hnone⟩ := h'
  · exact .inl ⟨t, rfl, .trans hps h hmoved, hne⟩
  · refine .inr ⟨rfl, fun hlt p hp => ?_⟩
    rw [hps] at hp
    rcases List.mem_append.1 hp with hdone | hrest
    · exact List.flatMap_eq_nil_iff.1 hqueued p hdone
    · exact hnone (hrounds hlt) p hrest

/-- One round of `_AuReadEvents` behind the flush, if what comes behind it is right. -/
theorem readRound {rounds : Nat} {x : AuServer → Exec AuServer} (hstream : s.stream = packetBytes ps) (hs : Counted s)
    (hfuel : 2 ^ 16 + 2 ≤ fuel) (hn : n ≤ s.stream.length ∨ n < sizeofAuReply)
    (hx : ∀ t rest, t.stream = packetBytes rest → Counted t → Read (o := o) rest t rounds (x t)) :
    Read ps s (rounds + 1) (readPackets o fuel n s >>= fun t => if t.queue.isEmpty then x t else .ok t) := by
  obtain ⟨t, done, rest, he, hps, hne, hhands, hrest⟩ | ⟨he, hps⟩ := readWaiting_ok hstream hs hfuel hn
  · rw [he, Exec.ok_bind]
    split
    · rename_i hempty
      have hqueue := hhands.queue
      rw [List.isEmpty_iff.1 hempty] at hqueue
      obtain ⟨-, hqueued⟩ := List.append_eq_nil_iff.1 hqueue.symm
      refine .trans hps hhands hqueued (fun hlt => ?_) (hx t rest hrest (hhands.counted hs))
      have hpos := List.length_pos_of_ne_nil hne
      rw [hps, List.length_append] at hlt
      omega
    · rename_i hqueue
      exact .inl ⟨t, rfl, ⟨done, rest, hps, hhands, hrest⟩, fun h => hqueue (List.isEmpty_iff.2 h)⟩
  · rw [he, Exec.error_bind]
    refine .inr ⟨rfl, fun _ p hp => ?_⟩
    rw [hps] at hp
    cases hp

theorem auReadEvents_ok (during arrived : List Nat) (notYetFlushed : Bool) (hstream : s.stream = packetBytes ps)
    (hs : Counted s) (hfuel : 2 ^ 16 + 2 ≤ fuel) :
    Read ps s arrived.length (auReadEvents o fuel during notYetFlushed arrived s) := by
  induction arrived generalizing s ps notYetFlushed with
  | nil => exact .inr ⟨rfl, fun hlt => absurd hlt (Nat.not_lt_zero _)⟩
  | cons now later ih =>
    have hround {b : Bool} {t : AuServer} {rest : List (Packet o)} (hrest : t.stream = packetBytes rest)
        (ht : Counted t) (hn : bytesReadable now s ≤ t.stream.length ∨ bytesReadable now s < sizeofAuReply) :
        Read rest t (later.length + 1) (readPackets o fuel (bytesReadable now s) t >>= fun t =>
          if t.queue.isEmpty then auReadEvents o fuel during b later t else .ok t) :=
      readRound hrest ht hfuel hn fun t rest hrest ht => ih _ hrest ht
    unfold auReadEvents
    dsimp only
    by_cases hflush : bytesReadable now s < sizeofAuReply ∧ notYetFlushed
    · obtain ⟨t, ht, done, rest, hps, hhands, hrest⟩ := auWaitForWritable_ok during hstream hs hfuel
      rw [if_pos hflush, auFlush, ht, Exec.ok_bind, Exec.ok_bind]
      dsimp only
      by_cases hqueue : s.queue.length = t.queue.length
      · have hqueued : done.flatMap Packet.queued = [] := by
          rw [hhands.queue, List.length_append] at hqueue
          exact List.eq_nil_of_length_eq_zero (by omega)
        rw [if_neg (by simpa using hqueue)]
        refine .trans hps hhands hqueued (fun hlt => ?_) (hround hrest (hhands.counted hs) (.inr hflush.1))
        rw [hps, List.length_append] at hlt
        exact Nat.lt_of_le_of_lt (Nat.le_add_left ..) hlt
      · rw [if_pos (by simpa using hqueue)]
        refine .inl ⟨t, rfl, ⟨done, rest, hps, hhands, hrest⟩, fun hnil => hqueue ?_⟩
        have happend := hhands.queue
        rw [hnil] at happend
        rw [(List.append_eq_nil_iff.1 happend.symm).1, hnil]
    · rw [if_neg hflush, Exec.ok_bind]
      exact hround hstream hs (.inl (Nat.min_le_right ..))

/-- `_AuReply` has handed on `done` and stopped with `p`. -/
structure Answered (discard : Bool) (done : List (Packet o)) (p : Packet o) (rest : List (Packet o)) (s t : AuServer) :
    Prop where
  hands : Hands (done ++ [p]) s { t with body := s.body }
  body : t.body = if discard then 0 else p.body.length
  stream : t.stream = (if discard then [] else p.body) ++ packetBytes rest
  type : p.type = auReplyType ∨ p.type = auErrorType

/-- What `_AuReply` comes to behind the flush: it stops with a reply or an error, or it waits and no reply is sent. -/
def Replied (discard : Bool) (ps : List (Packet o)) (s : AuServer) (x : Exec AuServer) : Prop :=
  (∃ t done p rest, x = .ok t ∧ ps = done ++ p :: rest ∧ Answered discard done p rest s t) ∨
    x = .error .fuel ∧ ∀ p ∈ ps, p.type ≠ auReplyType

theorem Replied.trans {discard : Bool} {x : Exec AuServer} (h : Hands [p] s t) (htype : p.type ≠ auReplyType)
    (h' : Replied discard ps t x) : Replied discard (p :: ps) s x := by
  obtain ⟨u, done, q, rest, rfl, rfl, hq⟩ | ⟨rfl, hnone⟩ := h'
  · refine .inl ⟨u, p :: done, q, rest, rfl, rfl, ⟨?_, hq.body, hq.stream, hq.type⟩⟩
    have hhands := h.trans hq.hands
    rw [h.body] at hhands
    exact hhands
  · exact .inr ⟨rfl, fun q hq => (List.mem_cons.1 hq).elim (fun he => he ▸ htype) (hnone q)⟩

/-- It stops with a packet that has no data. -/
theorem Answered.head {discard : Bool} (h : Hands [p] s t) (hbody : s.body = 0) (htype : p.type = auErrorType)
    (hstream : t.stream = p.body ++ packetBytes ps) : Answered discard [] p ps s t := by
  have hnil : p.body = [] := p.body_nil (by rw [htype]; decide)
  refine ⟨⟨h.log, h.queue, h.taken, h.request, rfl, h.last⟩, ?_, ?_, .inr htype⟩
  · rw [h.body, hbody, hnil]
    cases discard <;> rfl
  · rw [hstream, hnil]
    cases discard <;> rfl

theorem replyLoop_ok (discard retStatus : Bool) {curRequest rounds : Nat} (hstream : s.stream = packetBytes ps)
    (hs : Counted s) (hbody : s.body = 0) (hcur : curRequest < 2 ^ 32) (hfuel : 2 ^ 16 + 2 ≤ fuel)
    (hrounds : ps.length < rounds) :
    Replied discard ps s (replyLoop o fuel discard retStatus curRequest rounds s) := by
  induction rounds generalizing s ps with
  | zero => exact absurd hrounds (Nat.not_lt_zero _)
  | succ rounds ih =>
    unfold replyLoop
    cases ps with
    | nil =>
      have hnone : ¬ sizeofAuReply ≤ s.stream.length := by
        rw [hstream]
        exact show ¬ sizeofAuReply ≤ 0 by decide
      rw [auRead, if_neg hnone, Exec.error_bind]
      exact .inr ⟨rfl, fun p hp => nomatch hp⟩
    | cons p ps =>
      have hbytes : s.stream = p.head ++ (p.body ++ packetBytes ps) := by
        rw [hstream, packetBytes_cons, Packet.bytes, List.append_assoc]
      have hread : auRead sizeofAuReply s = .ok (p.head, { s with stream := p.body ++ packetBytes ps }) := by
        rw [auRead_ok (by rw [hbytes, List.length_append, p.head_length]; exact Nat.le_add_right ..), hbytes,
          ← p.head_length, List.take_left, List.drop_left]
      have hhead : HeadAt p.head 0 p := by
        refine ⟨by rw [p.head_length, Nat.zero_add], ?_⟩
        rw [← p.head_length, Nat.zero_add, Memory.slice_eq, List.drop_zero, Nat.sub_zero, List.take_length]
      let t : AuServer := { s with stream := p.body ++ packetBytes ps }
      have ht : Counted t := ⟨hs.request, hs.last⟩
      have hlater : ps.length < rounds := Nat.lt_of_succ_lt_succ hrounds
      rw [hread, Exec.ok_bind]
      dsimp only
      rw [hhead.typeAt, Exec.ok_bind]
      by_cases hreply : p.type = auReplyType
      · obtain ⟨r, hr, hlast⟩ : ∃ r < 2 ^ 32, (if o.read 2 p.head 2 = curRequest % 2 ^ 16 then
            .ok { t with lastRequestRead := curRequest } else setLastRequestRead o fuel p.head 0 t : Exec AuServer) =
            .ok { t with lastRequestRead := r } := by
          split
          · exact ⟨curRequest, hcur, rfl⟩
          · exact setLastRequestRead_ok ht hfuel hhead
        have hlength : o.read 4 p.head 4 * 4 % 2 ^ 32 = p.body.length := by
          have hshort := p.short
          have hdata := p.body_length
          rw [if_pos (show o.read 1 p.head 0 = auReplyType from hreply)] at hdata
          rw [← hdata]
          exact Nat.mod_eq_of_lt (by omega)
        rw [if_pos hreply, show (2 : Nat) = 0 + 2 from rfl, hhead.read (k := 2) (by decide), Exec.ok_bind, Nat.zero_add,
          hlast, Exec.ok_bind, show (4 : Nat) = 0 + 4 from rfl, hhead.read (k := 4) (by decide), Exec.ok_bind,
          Nat.zero_add]
        dsimp only
        rw [hlength]
        cases discard with
        | true =>
          rw [if_pos rfl, auEatData, auRead_ok (by rw [List.length_append]; exact Nat.le_add_right ..), Exec.ok_bind,
            List.drop_left]
          refine .inl ⟨_, [], p, ps, rfl, rfl, ⟨?_, hbody, rfl, .inl hreply⟩⟩
          exact ⟨by simp [t, Packet.delivery, hreply], by simp [t, Packet.queued, hreply], rfl, rfl, rfl, hr⟩
        | false =>
          rw [if_neg (by decide)]
          refine .inl ⟨_, [], p, ps, rfl, rfl, ⟨?_, rfl, rfl, .inl hreply⟩⟩
          exact ⟨by simp [t, Packet.delivery, hreply], by simp [t, Packet.queued, hreply], rfl, rfl, rfl, hr⟩
      · have hrest : p.body ++ packetBytes ps = packetBytes ps := by rw [p.body_nil hreply, List.nil_append]
        rw [if_neg hreply]
        by_cases herror : p.type = auErrorType
        · obtain ⟨r, hr, hlast⟩ := setLastRequestRead_ok ht hfuel hhead
          rw [if_pos herror, hlast, Exec.ok_bind]
          dsimp only
          split
          · refine .inl ⟨_, [], p, ps, rfl, rfl, .head ⟨?_, ?_, rfl, rfl, rfl, hr⟩ hbody herror rfl⟩
            · simp [t, Packet.delivery, herror, auErrorType, auReplyType]
            · simp [t, Packet.queued, herror]
          · obtain ⟨u, hu, hhands, hstream'⟩ :=
              auError_ok (s := { t with lastRequestRead := r }) ⟨hs.request, hr⟩ hfuel hhead herror
            have hhands' : Hands [p] s u := hhands.of_eq rfl rfl rfl rfl rfl
            rw [hu, Exec.ok_bind]
            split
            · exact .inl ⟨u, [], p, ps, rfl, rfl, .head hhands' hbody herror hstream'⟩
            · exact .trans hhands' hreply
                (ih (hstream'.trans hrest) (hhands'.counted hs) (hhands'.body.trans hbody) hlater)
        · obtain ⟨u, hu, hhands, hstream'⟩ := auEnq_ok ht hfuel hhead hreply herror
          have hhands' : Hands [p] s u := hhands.of_eq rfl rfl rfl rfl rfl
          rw [if_neg herror, hu, Exec.ok_bind]
          exact .trans hhands' hreply
            (ih (hstream'.trans hrest) (hhands'.counted hs) (hhands'.body.trans hbody) hlater)

/-! ### Runs -/

/-- The packets that are still to come. -/
def toCome (ps : List (Packet o)) (s : AuServer) : List (Packet o) := ps.drop s.log.length

/-- The packets so far were handed on, each once and in their order, and the stream is where the next one begins, but
for what is left of a reply. -/
structure InPhase (ps : List (Packet o)) (s : AuServer) : Prop where
  log : s.log = (ps.take s.log.length).map Packet.delivery
  events : s.taken ++ s.queue = (ps.take s.log.length).flatMap Packet.queued
  body : s.body ≤ s.stream.length
  stream : s.stream.drop s.body = packetBytes (toCome ps s)
  counted : Counted s

/-- What is behind the head of a reply is read before the next packet, and the requests are counted. -/
def Good (s : AuServer) : Call → Prop
  | .getReq flush => (flush.isSome → s.body = 0) ∧ s.request + 1 < 2 ^ 32 - 2 ^ 16
  | .eventsQueued .. | .readEvents .. | .reply .. => s.body = 0
  | .readBody n => n ≤ s.body
  | .dequeue => True

/-- What the call waits for is sent. -/
def Answerable (fuel : Nat) (ps : List (Packet o)) (s : AuServer) : Call → Prop
  | .readEvents _ arrived => (toCome ps s).length < arrived.length ∧ ∃ p ∈ toCome ps s, p.queued ≠ []
  | .reply _ _ during => ∀ t, auFlush o fuel during s = .ok t → ∃ p ∈ toCome ps t, p.type = auReplyType
  | _ => True

/-- What the call has come to when it returns. -/
def Effect (ps : List (Packet o)) (t : AuServer) : Call → Prop
  | .readEvents .. => t.queue ≠ []
  | .reply discard .. => ∃ p, ps[t.log.length - 1]? = some p ∧ (p.type = auReplyType ∨ p.type = auErrorType) ∧
      t.stream.take t.body = if discard then [] else p.body
  | _ => True

/-- How a call ends. -/
def Proceeds (fuel : Nat) (ps : List (Packet o)) (s : AuServer) (c : Call) : Prop :=
  (∃ t, step o fuel s c = .ok t ∧ InPhase ps t ∧ Effect ps t c) ∨
    step o fuel s c = .error .fuel ∧ ¬ Answerable fuel ps s c

theorem InPhase.start (h : InPhase ps s) (hbody : s.body = 0) : s.stream = packetBytes (toCome ps s) := by
  rw [← h.stream, hbody, List.drop_zero]

theorem InPhase.advance (left : List UInt8) {rest : List (Packet o)} (h : InPhase ps s)
    (hps : toCome ps s = done ++ rest) (hlog : t.log = s.log ++ done.map Packet.delivery)
    (hevents : t.taken ++ t.queue = s.taken ++ s.queue ++ done.flatMap Packet.queued)
    (hstream : t.stream = left ++ packetBytes rest) (hleft : t.body = left.length) (hcounted : Counted t) :
    InPhase ps t ∧ toCome ps t = rest := by
  have hlength : t.log.length = s.log.length + done.length := by rw [hlog, List.length_append, List.length_map]
  have htake : ps.take t.log.length = ps.take s.log.length ++ done := by
    rw [hlength, List.take_add]
    exact congrArg _ (show (toCome ps s).take done.length = done by rw [hps, List.take_left])
  have hcome : toCome ps t = rest := by
    rw [toCome, hlength, ← List.drop_drop]
    exact show (toCome ps s).drop done.length = rest by rw [hps, List.drop_left]
  refine ⟨⟨?_, ?_, ?_, ?_, hcounted⟩, hcome⟩
  · rw [htake, List.map_append, ← h.log]
    exact hlog
  · rw [htake, List.flatMap_append, ← h.events]
    exact hevents
  · rw [hleft, hstream, List.length_append]
    exact Nat.le_add_right ..
  · rw [hleft, hstream, List.drop_left, hcome]

theorem InPhase.moved (h : InPhase ps s) (hbody : s.body = 0) (hmoved : Moved (toCome ps s) s t) :
    InPhase ps t ∧ t.body = 0 := by
  obtain ⟨done, rest, hps, hhands, hstream⟩ := hmoved
  have hbody' : t.body = 0 := hhands.body.trans hbody
  refine ⟨(h.advance [] hps hhands.log ?_ hstream hbody' (hhands.counted h.counted)).1, hbody'⟩
  rw [hhands.taken, hhands.queue, List.append_assoc]

/-- The packet that `_AuReply` has stopped with. -/
theorem InPhase.answered {discard : Bool} {rest : List (Packet o)} (h : InPhase ps s)
    (hps : toCome ps s = done ++ p :: rest) (ha : Answered discard done p rest s t) :
    InPhase ps t ∧ ps[t.log.length - 1]? = some p := by
  have hhands := ha.hands
  have hlog : t.log = s.log ++ (done ++ [p]).map Packet.delivery := hhands.log
  have hlength : t.log.length - 1 = s.log.length + done.length := by
    rw [hlog, List.length_append, List.length_map, List.length_append]
    exact Nat.add_sub_cancel (s.log.length + done.length) 1
  refine ⟨(h.advance (if discard then [] else p.body) ?_ hlog ?_ ha.stream ?_ ?_).1, ?_⟩
  · rw [hps, List.append_assoc]
    rfl
  · rw [show t.taken = s.taken from hhands.taken, show t.queue = _ from hhands.queue, List.append_assoc]
  · rw [ha.body]
    cases discard <;> rfl
  · exact ⟨hhands.request.trans_lt h.counted.request, hhands.last⟩
  · rw [hlength, ← List.getElem?_drop, show ps.drop s.log.length = done ++ p :: rest from hps,
      List.getElem?_append_right (Nat.le_refl _), Nat.sub_self]
    rfl

/-- A call keeps the stream in phase. -/
theorem step_ok (hfuel : 2 ^ 16 + 2 ≤ fuel) (h : InPhase ps s) {c : Call} (hgood : Good s c) :
    Proceeds fuel ps s c := by
  cases c with
  | getReq flush =>
    left
    have hnext {t : AuServer} (hphase : InPhase ps t) (hrequest : t.request = s.request) :
        InPhase ps { t with request := (t.request + 1) % 2 ^ 32 } := by
      refine ⟨hphase.log, hphase.events, hphase.body, hphase.stream, ?_, hphase.counted.last⟩
      dsimp only
      rw [hrequest, Nat.mod_eq_of_lt (Nat.lt_of_lt_of_le hgood.2 (Nat.sub_le ..))]
      exact hgood.2
    cases flush with
    | none => exact ⟨_, rfl, hnext h rfl, trivial⟩
    | some during =>
      have hbody := hgood.1 rfl
      obtain ⟨t, ht, hmoved⟩ := auWaitForWritable_ok during (h.start hbody) h.counted hfuel
      refine ⟨_, congrArg (Functor.map _) ht, hnext (h.moved hbody hmoved).1 ?_, trivial⟩
      obtain ⟨_, _, _, hhands, _⟩ := hmoved
      exact hhands.request
  | eventsQueued flush arrived =>
    obtain ⟨t, ht, hmoved⟩ := auEventsQueued_ok flush arrived (h.start hgood) h.counted hfuel
    exact .inl ⟨t, ht, (h.moved hgood hmoved).1, trivial⟩
  | readEvents during arrived =>
    obtain ⟨t, ht, hmoved, hne⟩ | ⟨he, hnone⟩ :=
      auReadEvents_ok during arrived true (h.start hgood) h.counted hfuel
    · exact .inl ⟨t, ht, (h.moved hgood hmoved).1, hne⟩
    · exact .inr ⟨he, fun ⟨hlt, p, hp, hq⟩ => hq (hnone hlt p hp)⟩
  | reply discard retStatus during =>
    obtain ⟨t, ht, hmoved⟩ := auWaitForWritable_ok during (h.start hgood) h.counted hfuel
    obtain ⟨hphase, hbody⟩ := h.moved hgood hmoved
    have hstream := hphase.start hbody
    have hrounds : (toCome ps t).length < t.stream.length + 1 := by
      rw [hstream]
      exact Nat.lt_succ_of_le length_le
    have heq : step o fuel s (.reply discard retStatus during) =
        replyLoop o fuel discard retStatus s.request (t.stream.length + 1) t := by
      unfold step auReply auFlush
      dsimp only
      rw [ht, Exec.ok_bind]
    have hcur : s.request < 2 ^ 32 := Nat.lt_of_lt_of_le h.counted.request (Nat.sub_le ..)
    obtain ⟨u, done, p, rest, hu, hps, ha⟩ | ⟨he, hnone⟩ :=
      replyLoop_ok discard retStatus hstream hphase.counted hbody hcur hfuel hrounds
    · obtain ⟨hphase', hp⟩ := hphase.answered hps ha
      refine .inl ⟨u, heq.trans hu, hphase', p, hp, ha.type, ?_⟩
      rw [ha.body, ha.stream]
      cases discard
      · exact List.take_left
      · rfl
    · refine .inr ⟨heq.trans he, fun hsent => ?_⟩
      obtain ⟨p, hp, htype⟩ := hsent t ht
      exact hnone p hp htype
  | readBody n =>
    refine .inl ⟨{ s with stream := s.stream.drop n, body := s.body - n }, ?_, ?_, trivial⟩
    · show auReadBody n s = _
      rw [auReadBody, auEatData, auRead_ok (Nat.le_trans hgood h.body), Exec.ok_bind, Exec.ok_bind]
    · have hn : n ≤ s.body := hgood
      refine ⟨h.log, h.events, ?_, ?_, h.counted.request, h.counted.last⟩
      · dsimp only
        rw [List.length_drop]
        exact Nat.sub_le_sub_right h.body n
      · dsimp only
        rw [List.drop_drop, Nat.add_sub_cancel' hn]
        exact h.stream
  | dequeue =>
    refine .inl ⟨_, rfl, ⟨h.log, ?_, h.body, h.stream, h.counted.request, h.counted.last⟩, trivial⟩
    have hevents := h.events
    dsimp only
    rw [List.append_assoc, ← List.drop_one, List.take_append_drop]
    exact hevents

/-- The connection is set up, and nothing was read since. -/
structure Fresh (ps : List (Packet o)) (s : AuServer) : Prop where
  stream : s.stream = packetBytes ps
  log : s.log = []
  queue : s.queue = []
  taken : s.taken = []
  body : s.body = 0
  counted : Counted s

theorem Fresh.inPhase (h : Fresh ps s) : InPhase ps s where
  log := by
    rw [h.log]
    rfl
  events := by
    rw [h.log, h.queue, h.taken]
    rfl
  body := h.body ▸ Nat.zero_le _
  stream := by
    rw [toCome, h.log, h.body, h.stream]
    rfl
  counted := h.counted

end

/-! ### A stream -/

/-- An event and a reply with eight bytes of data. -/
def sampleEvent : Packet .little where
  head := [2, 0, 1, 0] ++ List.replicate 28 0
  body := []
  head_length := rfl
  body_length := rfl
  short := by decide

def sampleReply : Packet .little where
  head := [1, 0, 1, 0, 2, 0, 0, 0] ++ List.replicate 24 0
  body := [1, 2, 3, 4, 5, 6, 7, 8]
  head_length := rfl
  body_length := rfl
  short := by decide

def samplePackets : List (Packet .little) := [sampleEvent, sampleReply, sampleEvent, sampleReply, sampleEvent]

def sampleStart : AuServer := { stream := packetBytes samplePackets }

end Nas.Demux
