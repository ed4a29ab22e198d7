import Nas.Memory

/-!
# The socket primitives of the library

`_AuFlush`, `_AuSend` and `_AuReadPad` of `Alibint.c`: loops around `write`, `writev` and `readv`, each of which moves only
some of the bytes, or none. `pump` is such a loop, run on what the calls do one after another.

The two that write hand over the bytes in order, each once. `_AuReadPad` subtracts what it has read from a length that
has no sign, and so does not see when the data is there and only a part of the pad (`Call.Good`).
-/

namespace Nas.Transport

/-! ### Loops around a system call -/

/-- How a loop ends. -/
inductive Ended (σ : Type) where
  | returned (s : σ)
  /-- What the next call does is not known yet. -/
  | waiting (s : σ)
  /-- `_AuIOError`, which does not return. -/
  | exited
  /-- An overflow, or a store outside the caller's memory. -/
  | undefined
deriving DecidableEq, Repr

def Ended.map {σ τ : Type} (f : σ → τ) : Ended σ → Ended τ
  | returned s => .returned (f s)
  | waiting s => .waiting (f s)
  | exited => .exited
  | undefined => .undefined

/-- A loop that makes a call in each turn, on the results of the calls. A turn that is `waiting` is followed by
the next. -/
def pump {σ ρ : Type} (finished : σ → Bool) (step : σ → ρ → Ended σ) : List ρ → σ → Ended σ
  | [], s => if finished s then .returned s else .waiting s
  | r :: results, s =>
    if finished s then .returned s
    else match step s r with
      | .waiting s' => pump finished step results s'
      | e => e

theorem pump_cons {σ ρ : Type} {finished : σ → Bool} {step : σ → ρ → Ended σ} {s : σ} (h : finished s = false) (r : ρ)
    (results : List ρ) : pump finished step (r :: results) s = match step s r with
      | .waiting s' => pump finished step results s'
      | e => e := by
  rw [pump, h]
  rfl

/-! ### Writing -/

/-- What a `write` does. -/
inductive Write where
  /-- It takes at most `n` bytes. -/
  | upTo (n : Nat)
  | again
  | emsgsize
  | intr
  | fails
deriving DecidableEq, Repr

/-- What the functions need of the connection: `AuServerFlagsIOError`, and the bytes from `buffer` to `bufptr`. -/
structure AuServer where
  ioError : Bool := false
  buffer : List UInt8
  bufmax : buffer.length ≤ 2048
deriving DecidableEq, Repr

def AuServer.flushed (aud : AuServer) : AuServer := { aud with buffer := [], bufmax := Nat.zero_le _ }

/-- `padlength[size & 3]` -/
def padlength (size : Nat) : Nat := [0, 3, 2, 1].getD (size % 4) 0

structure Flush where
  size : Nat
  todo : Nat
  /-- The bytes from `bufindex` on. -/
  bufindex : List UInt8
  wire : List UInt8
deriving DecidableEq, Repr

def Flush.step (s : Flush) : Write → Ended Flush
  | .upTo n =>
    let writeStat := min n s.todo
    .waiting { size := s.size - writeStat, todo := s.size - writeStat, bufindex := s.bufindex.drop writeStat
               wire := s.wire ++ s.bufindex.take writeStat }
  | .again | .intr => .waiting s
  | .emsgsize => .waiting (if s.todo > 1 then { s with todo := s.todo / 2 } else s)
  | .fails => .exited

def auFlush (results : List Write) (wire : List UInt8) (aud : AuServer) : Ended (AuServer × List UInt8) :=
  if aud.ioError then .returned (aud, wire)
  else
    (pump (fun s => s.size = 0) Flush.step results
      { size := aud.buffer.length, todo := aud.buffer.length, bufindex := aud.buffer, wire }).map
      fun s => (aud.flushed, s.wire)

/-- The pieces of a `writev`, with what of the whole is still to be skipped and to be taken. -/
structure Iov where
  before : Int
  remain : Int
  iov : List (List UInt8) := []
deriving DecidableEq, Repr

/-- `InsertIOV` -/
def insertIOV (pointer : List UInt8) (length : Int) (x : Iov) : Iov :=
  let len := length - x.before
  let len := if len > x.remain then x.remain else len
  if len ≤ 0 then { x with before := -len }
  else { iov := x.iov ++ [(pointer.drop x.before.toNat).take len.toNat], remain := x.remain - len, before := 0 }

structure Send where
  skip : Int
  total : Int
  todo : Int
  wire : List UInt8
deriving DecidableEq, Repr

def Send.step (buffer data pad : List UInt8) (s : Send) (r : Write) : Ended Send :=
  let x := insertIOV pad pad.length (insertIOV data data.length (insertIOV buffer buffer.length
    { before := s.skip, remain := s.todo }))
  match r with
  | .upTo n =>
    let written := x.iov.flatten.take n
    .waiting { skip := s.skip + written.length, total := s.total - written.length, todo := s.total - written.length
               wire := s.wire ++ written }
  | .again | .intr => .waiting s
  | .emsgsize => .waiting (if s.todo > 1 then { s with todo := s.todo / 2 } else s)
  | .fails => .exited

/-- The pad of a data block. -/
def padOf (data : List UInt8) : List UInt8 := List.replicate (padlength data.length) 0

def auSend (results : List Write) (wire : List UInt8) (data : List UInt8) (aud : AuServer) :
    Ended (AuServer × List UInt8) :=
  let total := aud.buffer.length + data.length + padlength data.length
  if total ≥ 2 ^ 31 then .undefined
  else if aud.ioError then .returned (aud, wire)
  else
    (pump (fun s => s.total = 0) (Send.step aud.buffer data (padOf data)) results
      { skip := 0, total, todo := total, wire }).map fun s => (aud.flushed, s.wire)

/-! ### Reading -/

/-- What a `readv` does. -/
inductive Read where
  /-- It stores at most `n` bytes. -/
  | upTo (n : Nat)
  | again
  | intr
  | eof
  | fails
deriving DecidableEq, Repr

/-- The two pieces of the `readv` are at offsets of the data and of the pad. -/
structure ReadPad where
  size : Int
  len₀ : Nat
  base₀ : Nat
  len₁ : Nat
  base₁ : Nat
  data : List UInt8
  pad : List UInt8
  /-- What the peer has sent. -/
  input : List UInt8
deriving DecidableEq, Repr

/-- What is done about some bytes, fewer than are needed. The lengths are `size_t`s. -/
def ReadPad.advance (s : ReadPad) (bytesRead : Nat) : ReadPad :=
  let size := s.size - bytesRead
  let len₀ := (s.len₀ + (2 ^ 64 - bytesRead)) % 2 ^ 64
  if len₀ < 0 then
    { s with size, len₁ := (s.len₁ + len₀) % 2 ^ 64, base₁ := s.base₁ - len₀, len₀ := 0 }
  else { s with size, len₀, base₀ := s.base₀ + bytesRead }

def ReadPad.step (s : ReadPad) (r : Read) : Ended ReadPad :=
  -- EINVAL
  if s.len₀ + s.len₁ ≥ 2 ^ 63 then .exited
  else match r with
    | .upTo n =>
      let bytes := s.input.take (min n (s.len₀ + s.len₁))
      if bytes = [] then .waiting s
      else match Memory.store s.data s.base₀ (bytes.take s.len₀), Memory.store s.pad s.base₁ (bytes.drop s.len₀) with
        | .ok data, .ok pad =>
          let s := { s with data, pad, input := s.input.drop bytes.length }
          if (bytes.length : Int) = s.size then .returned s else .waiting (s.advance bytes.length)
        | _, _ => .undefined
    | .again | .intr => .waiting s
    | .eof | .fails => .exited

/-- The bytes are stored in `data`, which is as long as the caller says. -/
def auReadPad (results : List Read) (input data : List UInt8) (aud : AuServer) : Ended (List UInt8 × List UInt8) :=
  if aud.ioError ∨ data.length = 0 then .returned (data, input)
  else if data.length + padlength data.length ≥ 2 ^ 31 then .undefined
  else
    (pump (fun _ => false) ReadPad.step results {
      size := data.length + padlength data.length, len₀ := data.length, base₀ := 0, len₁ := padlength data.length
      base₁ := 0, data, pad := [0, 0, 0], input }).map fun s => (s.data, s.input)

/-! ### What they are for -/

/-- A result by which at least one byte is moved. -/
def Write.moves : Write → Bool
  | upTo n => n ≠ 0
  | _ => false

def Read.moves : Read → Bool
  | upTo n => n ≠ 0
  | _ => false

/-- The bytes are put on the wire in order, each once, and the function returns when the last one is. -/
def Sends (all wire : List UInt8) (results : List Write) : Ended (AuServer × List UInt8) → Prop
  | .returned (aud, wire') => aud.buffer = [] ∧ wire' = wire ++ all
  | .waiting (_, wire') => ∃ k < all.length, wire' = wire ++ all.take k ∧ results.countP Write.moves ≤ k
  | .exited | .undefined => False

/-- The first bytes of the input are stored, the pad behind them is dropped, and the function returns when the last
one is there; `moved` results move at least a byte, while there is one. -/
def Delivers (input data : List UInt8) (total moved : Nat) : Ended (List UInt8 × List UInt8) → Prop
  | .returned (data', input') => total ≤ input.length ∧ data' = input.take data.length ∧ input' = input.drop total
  | .waiting (data', input') => ∃ k < total, k ≤ input.length ∧
      data' = input.take (min k data.length) ++ data.drop (min k data.length) ∧ input' = input.drop k ∧
      (moved ≤ k ∨ k = input.length)
  | .exited | .undefined => False

/-- How many bytes have been read after a result, of those that are wanted and those that there are. -/
def readTo (total avail k : Nat) : Read → Nat
  | .upTo n => k + min n (min (total - k) (avail - k))
  | _ => k

/-- How many bytes have been read after each result. -/
def stops (total avail : Nat) : Nat → List Read → List Nat
  | _, [] => []
  | k, r :: results => readTo total avail k r :: stops total avail (readTo total avail k r) results

inductive Call where
  | flush (results : List Write) (wire : List UInt8) (aud : AuServer)
  | send (results : List Write) (wire data : List UInt8) (aud : AuServer)
  | readPad (results : List Read) (input data : List UInt8) (aud : AuServer)

namespace Call

/-- A call on a connection that works and keeps working. -/
def Working : Call → Prop
  | flush results _ aud | send results _ _ aud => aud.ioError = false ∧ .fails ∉ results
  | readPad results _ _ aud => aud.ioError = false ∧ .fails ∉ results ∧ .eof ∉ results

def Correct : Call → Prop
  | flush results wire aud => Sends aud.buffer wire results (auFlush results wire aud)
  | send results wire data aud => Sends (aud.buffer ++ data ++ padOf data) wire results (auSend results wire data aud)
  | readPad results input data aud =>
    Delivers input data (data.length + padlength data.length) (results.countP Read.moves) (auReadPad results input data aud)

/-- The sizes are numbers of 32 bits, and no `readv` but the last stops between the first byte of the pad and its last. -/
def Good : Call → Prop
  | flush .. => True
  | send _ _ data aud => aud.buffer.length + data.length + padlength data.length < 2 ^ 31
  | readPad results input data _ => data.length + padlength data.length < 2 ^ 31 ∧
      ∀ k ∈ (stops (data.length + padlength data.length) input.length 0 results).dropLast,
        ¬ (data.length < k ∧ k < data.length + padlength data.length)

end Call

/-! ### Writing is right -/

section Writing
variable {σ : Type} {finished : σ → Bool} {turn : σ → Write → Ended σ} {wireOf : σ → List UInt8} {all wire : List UInt8}
  {I : Nat → σ → Prop} {results : List Write} {k : Nat} {s : σ}

variable (finished turn wireOf) in
/-- A loop that writes: `I k` says that it has written `k` bytes. -/
theorem pump_sends
    (hI : ∀ k s, I k s → k ≤ all.length ∧ wireOf s = wire ++ all.take k ∧ (finished s = true ↔ k = all.length))
    (hstep : ∀ k s r, I k s → k < all.length → r ≠ .fails →
      ∃ k' s', turn s r = .waiting s' ∧ I k' s' ∧ k ≤ k' ∧ (r.moves = true → k < k'))
    (hr : .fails ∉ results) (h : I k s) :
    (∃ s', pump finished turn results s = .returned s' ∧ wireOf s' = wire ++ all) ∨
      ∃ s' k', pump finished turn results s = .waiting s' ∧ k' < all.length ∧ wireOf s' = wire ++ all.take k' ∧
        k + results.countP Write.moves ≤ k' := by
  induction results generalizing k s with
  | nil =>
    obtain ⟨hle, hwire, hfin⟩ := hI k s h
    unfold pump
    by_cases hk : k = all.length
    · rw [if_pos (hfin.2 hk)]
      exact .inl ⟨s, rfl, by rw [hwire, hk, List.take_length]⟩
    · rw [if_neg (fun hf => hk (hfin.1 hf))]
      exact .inr ⟨s, k, rfl, by omega, hwire, by simp⟩
  | cons r results ih =>
    obtain ⟨hle, hwire, hfin⟩ := hI k s h
    unfold pump
    by_cases hk : k = all.length
    · rw [if_pos (hfin.2 hk)]
      exact .inl ⟨s, rfl, by rw [hwire, hk, List.take_length]⟩
    · obtain ⟨k', s', he, hI', hle', hmoves⟩ := hstep k s r h (by omega) (fun heq => hr (by simp [heq]))
      rw [if_neg (fun hf => hk (hfin.1 hf)), he]
      rcases ih (fun hmem => hr (by simp [hmem])) hI' with ⟨t, ht, hw⟩ | ⟨t, j, ht, hlt, hw, hj⟩
      · exact .inl ⟨t, ht, hw⟩
      · refine .inr ⟨t, j, ht, hlt, hw, ?_⟩
        rw [List.countP_cons]
        split
        · have := hmoves ‹_›
          omega
        · omega

theorem take_append_drop_take (l : List UInt8) (k n : Nat) : l.take k ++ (l.drop k).take n = l.take (k + n) :=
  (List.take_add ..).symm

/-- `_AuFlush` has written `k` bytes. -/
structure Flushed (all wire : List UInt8) (k : Nat) (s : Flush) : Prop where
  le : k ≤ all.length
  size : s.size = all.length - k
  todo : s.todo ≤ s.size
  pos : 0 < s.size → 0 < s.todo
  bufindex : s.bufindex = all.drop k
  wire : s.wire = wire ++ all.take k

theorem Flushed.step {s : Flush} {r : Write} (h : Flushed all wire k s) (hk : k < all.length) (hr : r ≠ .fails) :
    ∃ k' s', s.step r = .waiting s' ∧ Flushed all wire k' s' ∧ k ≤ k' ∧ (r.moves = true → k < k') := by
  have hsize := h.size
  have htodo := h.todo
  have hpos := h.pos (by omega)
  cases r with
  | upTo n =>
    refine ⟨k + min n s.todo, _, rfl, ⟨by omega, ?_, Nat.le_refl _, id, ?_, ?_⟩, by omega, fun hn => ?_⟩
    · dsimp only
      omega
    · rw [h.bufindex, List.drop_drop]
    · rw [h.wire, h.bufindex, List.append_assoc, take_append_drop_take]
    · have hne : n ≠ 0 := by simpa [Write.moves] using hn
      omega
  | again | intr => exact ⟨k, s, rfl, h, Nat.le_refl k, fun hn => by cases hn⟩
  | emsgsize =>
    refine ⟨k, _, rfl, ?_, Nat.le_refl k, fun hn => by cases hn⟩
    split
    · exact { h with todo := by dsimp only; omega, pos := fun _ => by dsimp only; omega }
    · exact h
  | fails => exact absurd rfl hr

theorem sends_flush {aud : AuServer} (h : aud.ioError = false) (hr : .fails ∉ results) :
    Sends aud.buffer wire results (auFlush results wire aud) := by
  have hstart : Flushed aud.buffer wire 0
      { size := aud.buffer.length, todo := aud.buffer.length, bufindex := aud.buffer, wire } :=
    ⟨Nat.zero_le _, rfl, Nat.le_refl _, id, rfl, by simp⟩
  unfold auFlush
  rw [h, if_neg (by simp)]
  rcases pump_sends (fun s : Flush => s.size = 0) Flush.step Flush.wire (I := Flushed aud.buffer wire)
    (fun k s hI => ⟨hI.le, hI.wire, by have := hI.size; have := hI.le; simp only [decide_eq_true_iff]; omega⟩)
    (fun k s r hI hk hne => hI.step hk hne) hr hstart with ⟨t, ht, hw⟩ | ⟨t, j, ht, hlt, hw, hj⟩
  · rw [ht]
    exact ⟨rfl, hw⟩
  · rw [ht]
    exact ⟨j, hlt, hw, by omega⟩

/-- What an `InsertIOV` has made of the pieces so far, `all`, of which the first `k` bytes are to be skipped and `t` to
be taken. -/
structure Gathered (all : List UInt8) (k t : Nat) (x : Iov) : Prop where
  iov : x.iov.flatten = (all.drop k).take t
  remain : x.remain = (t - ((all.drop k).take t).length : Nat)
  before : x.before = (k - all.length : Nat)

theorem Gathered.insertIOV {k t : Nat} {x : Iov} (h : Gathered all k t x) (piece : List UInt8) :
    Gathered (all ++ piece) k t (insertIOV piece piece.length x) := by
  obtain ⟨hiov, hremain, hbefore⟩ := h
  have hlen : ((all.drop k).take t).length = min t (all.length - k) := by rw [List.length_take, List.length_drop]
  have hlen' : (((all ++ piece).drop k).take t).length = min t (all.length + piece.length - k) := by
    rw [List.length_take, List.length_drop, List.length_append]
  have hdrop : ((all ++ piece).drop k).take t = (all.drop k).take t ++ (piece.drop (k - all.length)).take (t - (all.length - k)) := by
    rw [List.drop_append, List.take_append, List.length_drop]
  unfold Transport.insertIOV
  dsimp only
  by_cases hskip : k ≥ all.length + piece.length ∨ t ≤ all.length - k ∨ piece.length = 0
  · -- nothing of the piece is taken
    have hnone : (piece.drop (k - all.length)).take (t - (all.length - k)) = [] := by
      rcases hskip with hskip | hskip | hskip
      · rw [List.drop_eq_nil_of_le (by omega), List.take_nil]
      · rw [Nat.sub_eq_zero_of_le hskip, List.take_zero]
      · rw [List.drop_eq_nil_of_le (by omega), List.take_nil]
    rw [if_pos (by split <;> omega)]
    refine ⟨by rw [hdrop, hnone, List.append_nil]; exact hiov, ?_, ?_⟩
    · rw [hlen']
      dsimp only
      omega
    · rw [List.length_append]
      dsimp only
      split <;> omega
  · have hlt : ¬ (if (piece.length : Int) - x.before > x.remain then x.remain else piece.length - x.before) ≤ 0 := by
      split <;> omega
    rw [if_neg hlt]
    refine ⟨?_, ?_, ?_⟩
    · dsimp only
      rw [List.flatten_append, List.flatten_singleton, hiov, hdrop]
      congr 1
      rw [show x.before.toNat = k - all.length by omega]
      split
      · rw [show x.remain.toNat = t - (all.length - k) by omega]
      · rw [List.take_of_length_le (by rw [List.length_drop]; omega), List.take_of_length_le (by rw [List.length_drop]; omega)]
    · rw [hlen']
      dsimp only
      split <;> omega
    · rw [List.length_append]
      dsimp only
      omega

/-- `_AuSend` has written `k` bytes. -/
structure Sent (all wire : List UInt8) (k : Nat) (s : Send) : Prop where
  le : k ≤ all.length
  skip : s.skip = k
  total : s.total = (all.length - k : Nat)
  todo : s.todo ≤ s.total
  pos : 0 < s.total → 0 < s.todo
  wire : s.wire = wire ++ all.take k

theorem Sent.step {buffer data pad : List UInt8} {s : Send} {r : Write} (h : Sent (buffer ++ data ++ pad) wire k s)
    (hk : k < (buffer ++ data ++ pad).length) (hr : r ≠ .fails) :
    ∃ k' s', s.step buffer data pad r = .waiting s' ∧ Sent (buffer ++ data ++ pad) wire k' s' ∧ k ≤ k' ∧
      (r.moves = true → k < k') := by
  have htotal := h.total
  have htodo := h.todo
  have hpos := h.pos (by omega)
  have hstart : Gathered [] k s.todo.toNat { before := s.skip, remain := s.todo } :=
    ⟨by simp, by simp; omega, by rw [h.skip]; simp⟩
  have hiov := (((hstart.insertIOV buffer).insertIOV data).insertIOV pad).iov
  rw [List.nil_append] at hiov
  unfold Send.step
  dsimp only
  rw [hiov]
  cases r with
  | upTo n =>
    generalize hall : buffer ++ data ++ pad = all at *
    have hlen : (((all.drop k).take s.todo.toNat).take n).length = min n s.todo.toNat := by
      rw [List.length_take, List.length_take, List.length_drop]
      omega
    have hbytes : ((all.drop k).take s.todo.toNat).take n = (all.drop k).take (min n s.todo.toNat) := List.take_take
    dsimp only
    rw [hlen, hbytes]
    refine ⟨k + min n s.todo.toNat, _, rfl, ⟨by omega, ?_, ?_, Int.le_refl _, id, ?_⟩, by omega, fun hn => ?_⟩
    · rw [h.skip]
      dsimp only
      omega
    · dsimp only
      omega
    · rw [h.wire, List.append_assoc, take_append_drop_take]
    · have hne : n ≠ 0 := by simpa [Write.moves] using hn
      omega
  | again | intr => exact ⟨k, s, rfl, h, Nat.le_refl k, fun hn => by cases hn⟩
  | emsgsize =>
    refine ⟨k, _, rfl, ?_, Nat.le_refl k, fun hn => by cases hn⟩
    split
    · exact { h with todo := by dsimp only; omega, pos := fun _ => by dsimp only; omega }
    · exact h
  | fails => exact absurd rfl hr

theorem sends_send_iff {aud : AuServer} {data : List UInt8} (h : aud.ioError = false) (hr : .fails ∉ results) :
    Sends (aud.buffer ++ data ++ padOf data) wire results (auSend results wire data aud) ↔
      aud.buffer.length + data.length + padlength data.length < 2 ^ 31 := by
  have hpad : (padOf data).length = padlength data.length := List.length_replicate ..
  unfold auSend
  dsimp only
  by_cases hbig : aud.buffer.length + data.length + padlength data.length ≥ 2 ^ 31
  · rw [if_pos hbig]
    exact ⟨fun h => absurd h id, fun h => absurd h (by omega)⟩
  rw [if_neg hbig, h, if_neg (by simp)]
  have hall : (aud.buffer ++ data ++ padOf data).length = aud.buffer.length + data.length + padlength data.length := by
    rw [List.length_append, List.length_append, hpad]
  refine ⟨fun _ => by omega, fun _ => ?_⟩
  have hstart : Sent (aud.buffer ++ data ++ padOf data) wire 0
      ⟨0, (aud.buffer.length + data.length + padlength data.length : Nat),
        (aud.buffer.length + data.length + padlength data.length : Nat), wire⟩ :=
    ⟨Nat.zero_le _, rfl, by rw [hall]; rfl, Int.le_refl _, id, by simp⟩
  rcases pump_sends (fun s : Send => s.total = 0) (Send.step aud.buffer data (padOf data)) Send.wire
    (I := Sent (aud.buffer ++ data ++ padOf data) wire)
    (fun k s hI => ⟨hI.le, hI.wire, by have := hI.total; have := hI.le; simp only [decide_eq_true_iff]; omega⟩)
    (fun k s r hI hk hne => hI.step hk hne) hr hstart with ⟨t, ht, hw⟩ | ⟨t, j, ht, hlt, hw, hj⟩
  · rw [ht]
    exact ⟨rfl, hw⟩
  · rw [ht]
    exact ⟨j, hlt, hw, by omega⟩

end Writing

/-! ### Reading -/

section Reading
variable {input data : List UInt8} {results : List Read} {s : ReadPad} {k : Nat}

theorem padlength_le (size : Nat) : padlength size ≤ 3 := by
  have h : size % 4 < 4 := Nat.mod_lt _ (by decide)
  unfold padlength
  generalize size % 4 = m at h
  rcases (by omega : m = 0 ∨ m = 1 ∨ m = 2 ∨ m = 3) with rfl | rfl | rfl | rfl <;> decide

theorem store_behind (a b xs : List UInt8) (h : xs.length ≤ b.length) :
    Memory.store (a ++ b) a.length xs = .ok (a ++ xs ++ b.drop xs.length) := by
  unfold Memory.store
  rw [if_pos (by rw [List.length_append]; omega)]
  unfold Ring.splice
  rw [List.take_left', ← List.drop_drop, List.drop_left']
  · rfl
  · rfl

/-- The first `k` bytes have been read, none of them into the pad. -/
structure ReadAt (input data : List UInt8) (k : Nat) (s : ReadPad) : Prop where
  le : k ≤ data.length
  lt : k < data.length + padlength data.length
  avail : k ≤ input.length
  size : s.size = (data.length + padlength data.length - k : Nat)
  len₀ : s.len₀ = data.length - k
  base₀ : s.base₀ = k
  len₁ : s.len₁ = padlength data.length
  base₁ : s.base₁ = 0
  data : s.data = input.take k ++ data.drop k
  pad : s.pad.length = 3
  input : s.input = input.drop k

/-- Some of the pad has been read, not all of it: the lengths are of no use any more. -/
structure Stuck (input data : List UInt8) (k : Nat) (s : ReadPad) : Prop where
  inside : data.length < k ∧ k < data.length + padlength data.length
  avail : k ≤ input.length
  lengths : 2 ^ 63 ≤ s.len₀ + s.len₁
  data : s.data = input.take data.length
  input : s.input = input.drop k

theorem readTo_bounds (total avail : Nat) {k : Nat} {r : Read} (hk : k ≤ total) (ha : k ≤ avail) :
    k ≤ readTo total avail k r ∧ readTo total avail k r ≤ total ∧ readTo total avail k r ≤ avail ∧
      (r.moves = true → k < total → k < readTo total avail k r ∨ k = avail) := by
  unfold readTo
  cases r with
  | upTo n =>
    refine ⟨by dsimp only; omega, by dsimp only; omega, by dsimp only; omega, fun hn hlt => ?_⟩
    have hne : n ≠ 0 := by simpa [Read.moves] using hn
    dsimp only
    omega
  | again | intr | eof | fails => exact ⟨Nat.le_refl k, hk, ha, fun hn => by cases hn⟩

/-- The bytes of one `readv`. -/
theorem ReadAt.upTo (h : ReadAt input data k s) (hfits : data.length + padlength data.length < 2 ^ 31) (n : Nat) :
    (readTo (data.length + padlength data.length) input.length k (.upTo n) = k ∧ s.step (.upTo n) = .waiting s) ∨
    ∃ m pad', 0 < m ∧ readTo (data.length + padlength data.length) input.length k (.upTo n) = k + m ∧ pad'.length = 3 ∧
      s.step (.upTo n) =
        (let s' := { s with
          data := input.take (min (k + m) data.length) ++ data.drop (min (k + m) data.length), pad := pad'
          input := input.drop (k + m) }
        if (m : Int) = s.size then .returned s' else .waiting (s'.advance m)) := by
  have hpad := padlength_le data.length
  have hle := h.le
  have hbytes : s.input.take (min n (s.len₀ + s.len₁)) = (input.drop k).take (min n (data.length + padlength data.length - k)) := by
    rw [h.input, h.len₀, h.len₁, show data.length - k + padlength data.length = data.length + padlength data.length - k by omega]
  have hlen : ((input.drop k).take (min n (data.length + padlength data.length - k))).length =
      min n (min (data.length + padlength data.length - k) (input.length - k)) := by
    rw [List.length_take, List.length_drop, Nat.min_assoc]
  unfold ReadPad.step readTo
  rw [if_neg (by rw [h.len₀, h.len₁]; omega)]
  dsimp only
  rw [hbytes]
  obtain ⟨m, hm⟩ : ∃ m, m = min n (min (data.length + padlength data.length - k) (input.length - k)) := ⟨_, rfl⟩
  obtain ⟨bytes, hb⟩ : ∃ bytes, bytes = (input.drop k).take (min n (data.length + padlength data.length - k)) := ⟨_, rfl⟩
  rw [← hm, ← hb] at hlen
  rw [← hm, ← hb]
  have hbm : bytes = (input.drop k).take m := by
    rw [hb, List.take_eq_take_iff, List.length_drop, hm]
    omega
  by_cases hzero : m = 0
  · rw [if_pos (List.length_eq_zero_iff.1 (hlen.trans hzero))]
    exact .inl ⟨by omega, rfl⟩
  · have hne : bytes ≠ [] := fun heq => hzero (by rw [← hlen, heq]; rfl)
    rw [if_neg hne]
    have hfront : (bytes.take s.len₀).length = min m (data.length - k) := by
      rw [List.length_take, h.len₀, hlen, Nat.min_comm]
    have hback : (bytes.drop s.len₀).length = m - (data.length - k) := by
      rw [List.length_drop, h.len₀, hlen]
    have hk : (input.take k).length = k := by
      rw [List.length_take]
      exact Nat.min_eq_left h.avail
    have hdata : Memory.store s.data s.base₀ (bytes.take s.len₀) =
        .ok (input.take (min (k + m) data.length) ++ data.drop (min (k + m) data.length)) := by
      have hstore := store_behind (input.take k) (data.drop k) (bytes.take s.len₀) (by rw [hfront, List.length_drop]; omega)
      rw [hk] at hstore
      rw [h.data, h.base₀, hstore, hfront, List.drop_drop]
      have hsum : k + min m (data.length - k) = min (k + m) data.length := by omega
      rw [hsum, hbm, h.len₀, List.take_take, Nat.min_comm, take_append_drop_take, hsum]
    have hfits : s.base₁ + (bytes.drop s.len₀).length ≤ s.pad.length := by
      rw [h.base₁, hback, h.pad]
      omega
    obtain ⟨pad', hstored, hpad'⟩ := Memory.store_ok hfits
    rw [hdata, hstored, hlen, h.input, List.drop_drop]
    exact .inr ⟨m, pad', by omega, rfl, by rw [hpad'.length, h.pad], rfl⟩

/-- One `readv`. -/
theorem ReadAt.step {r : Read} (h : ReadAt input data k s) (hfits : data.length + padlength data.length < 2 ^ 31)
    (hr : r ≠ .fails ∧ r ≠ .eof) {k' : Nat} (hk' : readTo (data.length + padlength data.length) input.length k r = k') :
    (k' = data.length + padlength data.length ∧ ∃ s', s.step r = .returned s' ∧ s'.data = input.take data.length ∧
        s'.input = input.drop k') ∨
      (∃ s', s.step r = .waiting s' ∧ ReadAt input data k' s') ∨ ∃ s', s.step r = .waiting s' ∧ Stuck input data k' s' := by
  have hpad := padlength_le data.length
  have hle := h.le
  have hsame : ∀ s', s' = s → k' = k → ReadAt input data k' s' := fun s' hs hk => by
    subst hs hk
    exact h
  cases r with
  | upTo n =>
    obtain ⟨hmono, htotal, havail, -⟩ := readTo_bounds (data.length + padlength data.length) input.length (r := .upTo n)
      (Nat.le_of_lt h.lt) h.avail
    rcases h.upTo hfits n with ⟨heq, hs⟩ | ⟨m, pad', hm, heq, hp, hs⟩
    · exact .inr (.inl ⟨s, hs, hsame s rfl (by omega)⟩)
    rw [hk'] at heq hmono htotal havail
    have hsize := h.size
    by_cases hdone : (m : Int) = s.size
    · rw [if_pos hdone] at hs
      refine .inl ⟨by omega, _, hs, ?_, by rw [heq]⟩
      dsimp only
      rw [Nat.min_eq_right (by omega), List.drop_length, List.append_nil]
    · rw [if_neg hdone] at hs
      right
      by_cases hin : k' ≤ data.length
      · refine .inl ⟨_, hs, hin, by omega, havail, ?_, ?_, ?_, h.len₁, h.base₁, ?_, hp, ?_⟩
        · show s.size - m = _
          omega
        · show (s.len₀ + (2 ^ 64 - m)) % 2 ^ 64 = _
          rw [h.len₀]
          omega
        · show s.base₀ + m = _
          rw [h.base₀, heq]
        · show input.take (min (k + m) data.length) ++ data.drop (min (k + m) data.length) = _
          rw [← heq, Nat.min_eq_left hin]
        · show input.drop (k + m) = _
          rw [heq]
      · refine .inr ⟨_, hs, ⟨by omega, by omega⟩, havail, ?_, ?_, ?_⟩
        · show 2 ^ 63 ≤ (s.len₀ + (2 ^ 64 - m)) % 2 ^ 64 + s.len₁
          rw [h.len₀]
          omega
        · show input.take (min (k + m) data.length) ++ data.drop (min (k + m) data.length) = _
          rw [Nat.min_eq_right (by omega), List.drop_length, List.append_nil]
        · show input.drop (k + m) = _
          rw [heq]
  | again | intr =>
    refine .inr (.inl ⟨s, ?_, hsame s rfl hk'.symm⟩)
    unfold ReadPad.step
    rw [if_neg (by rw [h.len₀, h.len₁]; omega)]
  | eof => exact absurd rfl hr.2
  | fails => exact absurd rfl hr.1

theorem stops_total {total avail : Nat} (ha : total ≤ avail) (results : List Read) :
    ∀ j ∈ stops total avail total results, j = total := by
  induction results with
  | nil => simp [stops]
  | cons r results ih =>
    obtain ⟨hmono, hle, -, -⟩ := readTo_bounds total avail (r := r) (Nat.le_refl total) ha
    have hr : readTo total avail total r = total := Nat.le_antisymm hle hmono
    intro j hj
    rw [stops, hr] at hj
    rcases List.mem_cons.1 hj with rfl | hj
    · rfl
    · exact ih j hj

theorem forall_mem_dropLast_cons {P : Nat → Prop} {k : Nat} {l : List Nat} (hk : P k) :
    (∀ j ∈ (k :: l).dropLast, P j) ↔ ∀ j ∈ l.dropLast, P j := by
  cases l with
  | nil => simp
  | cons j l =>
    rw [List.dropLast_cons_cons]
    exact ⟨fun h j' hj' => h j' (List.mem_cons_of_mem k hj'), fun h j' hj' => by
      rcases List.mem_cons.1 hj' with rfl | hj'
      · exact hk
      · exact h j' hj'⟩

/-- What the function has read when it waits. -/
theorem ReadAt.delivers {count : Nat} (h : ReadAt input data k s) (hcount : count ≤ k ∨ k = input.length) :
    Delivers input data (data.length + padlength data.length) count (.waiting (s.data, s.input)) := by
  have hle := h.le
  exact ⟨k, h.lt, h.avail, by rw [Nat.min_eq_left h.le]; exact h.data, h.input, hcount⟩

theorem readAt_delivers_iff {count : Nat} (h : ReadAt input data k s) (hfits : data.length + padlength data.length < 2 ^ 31)
    (hr : ∀ r ∈ results, r ≠ .fails ∧ r ≠ .eof) (hcount : count ≤ k ∨ k = input.length) :
    Delivers input data (data.length + padlength data.length) (count + results.countP Read.moves)
      ((pump (fun _ => false) ReadPad.step results s).map fun s => (s.data, s.input)) ↔
    ∀ j ∈ (stops (data.length + padlength data.length) input.length k results).dropLast,
      ¬ (data.length < j ∧ j < data.length + padlength data.length) := by
  induction results generalizing k s count with
  | nil => exact ⟨fun _ j hj => absurd hj (by simp [stops]), fun _ => h.delivers hcount⟩
  | cons r results ih =>
    obtain ⟨k', hk'⟩ : ∃ k', readTo (data.length + padlength data.length) input.length k r = k' := ⟨_, rfl⟩
    obtain ⟨hmono, htotal, havail, hmoves⟩ := readTo_bounds (data.length + padlength data.length) input.length (r := r)
      (Nat.le_of_lt h.lt) h.avail
    rw [hk'] at hmono htotal havail hmoves
    have hcount' : count + (if r.moves = true then 1 else 0) ≤ k' ∨ k' = input.length := by
      split
      · rcases hmoves ‹_› h.lt with hlt | heq
        · omega
        · omega
      · omega
    rw [stops, hk', List.countP_cons, pump_cons rfl]
    rcases h.step hfits (hr r (by simp)) hk' with ⟨hdone, s', hs, hdata, hinput⟩ | ⟨s', hs, hat⟩ | ⟨s', hs, hstuck⟩
    · -- everything has been read
      rw [hs]
      refine ⟨fun _ j hj => ?_, fun _ => ⟨hdone ▸ havail, hdata, hdone ▸ hinput⟩⟩
      have hj' : j = data.length + padlength data.length := by
        rcases List.mem_cons.1 (List.mem_of_mem_dropLast hj) with rfl | hj
        · exact hdone
        · exact stops_total (hdone ▸ havail) results j (hdone ▸ hj)
      omega
    · rw [hs, forall_mem_dropLast_cons (fun hin => absurd hat.le (by omega)),
        ← ih hat (fun r' hr' => hr r' (by simp [hr'])) hcount']
      dsimp only
      rw [Nat.add_assoc, Nat.add_comm (List.countP _ _)]
    · rw [hs]
      cases results with
      | nil =>
        refine ⟨fun _ j hj => absurd hj (by simp [stops]), fun _ => ⟨k', hstuck.inside.2, havail, ?_, hstuck.input, ?_⟩⟩
        · rw [Nat.min_eq_right (Nat.le_of_lt hstuck.inside.1), List.drop_length, List.append_nil]
          exact hstuck.data
        · rwa [List.countP_nil, Nat.zero_add]
      | cons r' results =>
        -- the next call is refused
        have hexit : s'.step r' = .exited := by
          unfold ReadPad.step
          rw [if_pos hstuck.lengths]
        dsimp only
        rw [pump_cons rfl, hexit]
        refine ⟨fun h => absurd h id, fun h => absurd hstuck.inside (h k' ?_)⟩
        rw [stops, List.dropLast_cons_cons]
        exact List.mem_cons_self

theorem delivers_readPad_iff {aud : AuServer} (h : aud.ioError = false) (hr : ∀ r ∈ results, r ≠ .fails ∧ r ≠ .eof) :
    Delivers input data (data.length + padlength data.length) (results.countP Read.moves) (auReadPad results input data aud) ↔
      data.length + padlength data.length < 2 ^ 31 ∧
        ∀ j ∈ (stops (data.length + padlength data.length) input.length 0 results).dropLast,
          ¬ (data.length < j ∧ j < data.length + padlength data.length) := by
  have hpad := padlength_le data.length
  unfold auReadPad
  by_cases hzero : data.length = 0
  · have hnone : padlength data.length = 0 := by
      rw [hzero]
      rfl
    rw [if_pos (.inr hzero)]
    refine ⟨fun _ => ⟨by omega, fun j _ => by omega⟩, fun _ => ⟨by omega, ?_, by rw [hzero, ← hzero, hnone, hzero]; rfl⟩⟩
    rw [hzero, List.take_zero]
    exact List.length_eq_zero_iff.1 hzero
  rw [if_neg (by simp [h, hzero])]
  by_cases hbig : data.length + padlength data.length ≥ 2 ^ 31
  · rw [if_pos hbig]
    exact ⟨fun h => absurd h id, fun h => absurd h.1 (by omega)⟩
  rw [if_neg hbig]
  have hstart : ReadAt input data 0 {
      size := data.length + padlength data.length, len₀ := data.length, base₀ := 0, len₁ := padlength data.length
      base₁ := 0, data, pad := [0, 0, 0], input } :=
    ⟨Nat.zero_le _, by omega, Nat.zero_le _, rfl, rfl, rfl, rfl, rfl, rfl, rfl, rfl⟩
  have hiff := readAt_delivers_iff hstart (by omega) hr (.inl (Nat.le_refl 0))
  rw [Nat.zero_add] at hiff
  rw [hiff]
  exact ⟨fun h => ⟨by omega, h⟩, fun h => h.2⟩

end Reading

/-- The primitives do what they are for if and only if the call is a good one. -/
theorem correct_iff_good (call : Call) (h : call.Working) : call.Correct ↔ call.Good := by
  cases call with
  | flush results wire aud => exact ⟨fun _ => trivial, fun _ => sends_flush h.1 h.2⟩
  | send results wire data aud => exact sends_send_iff h.1 h.2
  | readPad results input data aud =>
    refine delivers_readPad_iff h.1 fun r hr => ⟨?_, ?_⟩
    · rintro rfl
      exact h.2.1 hr
    · rintro rfl
      exact h.2.2 hr

/-- Three bytes of data and one of pad, in two pieces. -/
def wholeRead : Call := .readPad [.again, .upTo 2, .upTo 2] [7, 8, 9, 0] [0, 0, 0] { buffer := [], bufmax := by decide }

theorem wholeRead_correct : wholeRead.Correct :=
  (correct_iff_good wholeRead ⟨rfl, by decide, by decide⟩).2 ⟨by decide, by decide⟩

/-- One byte of data and three of pad, of which the first one comes with the data: the rest is never read. -/
def cutRead : Call := .readPad [.upTo 2, .upTo 2] [7, 0, 0, 0] [0] { buffer := [], bufmax := by decide }

theorem cutRead_not_correct : cutRead.Working ∧ ¬ cutRead.Correct := by
  refine ⟨⟨rfl, by decide, by decide⟩, fun h => ?_⟩
  have hexit : auReadPad [.upTo 2, .upTo 2] [7, 0, 0, 0] [0] { buffer := [], bufmax := by decide } = .exited := by decide
  unfold cutRead Call.Correct at h
  dsimp only at h
  rw [hexit] at h
  exact h

end Nas.Transport
