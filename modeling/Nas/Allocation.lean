import Nas.Port

/-!
# The memory of ports and buckets

How `createPort` of `auutil.c` and `ProcAuCreateBucket` of `audispatch.c` come to the size of the memory
they ask for, and how they divide what they get. Sizes are `AuUint32` values, and so is the argument of
`aualloc`. A block is `Enough` if it has room for what the request asks for, counted without bounds, and all
pointers are inside of it; `allocations_iff` is that this is so unless the sum exceeds an `AuUint32`.
-/

namespace Nas.Allocation

/-- What the server has: memory for a block of some size or not, and what is read behind the end of
`auBytesPerSample` for a format that is not one. -/
structure AllocEnv where
  memory : Nat → Bool
  behind : Nat → Nat
  auMinibufSamples : Nat

/-- Memory of `size` bytes, and the pointers into it: the data, then the rest. -/
structure Block where
  size : Nat
  data : Nat
  dataEnd : Nat
  /-- `minibuf` of a port, `description.string` of a bucket. -/
  rest : Nat
  restEnd : Nat
deriving DecidableEq, Repr

variable (env : AllocEnv)

/-- `auBytesPerSample[format]`, whatever the format. -/
def AllocEnv.bytesPerSample (format : Nat) : Nat :=
  if format < 8 then sizeofFormat format else env.behind format % 2 ^ 32

/-- `Xalloc`, with the number of bytes that it returns. -/
def xalloc (amount : Nat) : Option Nat :=
  if amount = 0 then none
  else
    let amount := (amount + 3) / 4 * 4
    if env.memory amount then some amount else none

/-- `auProtectedAlloc` -/
def aualloc (size : Nat) : Option Nat := xalloc env (size % 2 ^ 32)

/-- `aucalloc` -/
def aucalloc (nelem elsize : Nat) : Option Nat := aualloc env (nelem * (elsize % 2 ^ 32) % 2 ^ 32)

/-- What a client asks for when it makes a port. -/
structure PortRequest where
  format : Nat
  numTracks : Nat
  numSamples : Nat
deriving DecidableEq, Repr

/-- `createPort` as far as its memory goes. The sum of the check has the 64 bits of `sizeof`. -/
def createPort (r : PortRequest) : Option Block :=
  let dataSize := r.numSamples * env.bytesPerSample r.format * r.numTracks % 2 ^ 32
  let minibufSize := auNativeBytesPerSample * env.auMinibufSamples * r.numTracks % 2 ^ 32
  if dataSize > sizeofComponentRec + pad4u dataSize + pad4u minibufSize * 2 % 2 ^ 32 then none
  else do
    let size ← aualloc env (sizeofComponentRec + pad4u dataSize + pad4u minibufSize * 2 % 2 ^ 32)
    let data := sizeofComponentRec
    let minibuf := data + pad4u dataSize
    some { size, data, dataEnd := data + dataSize, rest := minibuf, restEnd := minibuf + 2 * minibufSize }

/-- What a client asks for when it makes a bucket: the length of the request in words, and of the attributes
those that decide about the memory. -/
structure BucketRequest where
  length : Nat
  valueMask : Nat
  format : Nat
  numTracks : Nat
  numSamples : Nat
  descriptionLen : Nat
deriving DecidableEq, Repr

def sizeofResourceReq : Nat := 8
def sizeofBucketAttributes : Nat := 36

/-- `AuCompBucketAllMasks & ~(AuCompCommonKindMask | AuCompCommonUseMask)`, of which the description is
a part. -/
def auBucketCreateMasks : Nat := 0x3007f - (2 + 4)

/-- `ProcAuCreateBucket` up to the copy of the description in `AuSetComponentAttributes`, which has a defined
result only inside the block. -/
def procAuCreateBucket (r : BucketRequest) : Exec (Except AuStatus Block) :=
  let len : Int := r.length * 4 - sizeofResourceReq - sizeofBucketAttributes
  if len < 0 then .ok (.error .auBadLength)
  else if r.valueMask ≠ auBucketCreateMasks then .ok (.error .auBadValue)
  else if len ≠ pad4u r.descriptionLen then .ok (.error .auBadLength)
  else
    let dataSize := r.numSamples * env.bytesPerSample r.format * r.numTracks % 2 ^ 32
    match aucalloc env 1 (sizeofComponentRec + pad4u dataSize + pad4u r.descriptionLen) with
    | none => .ok (.error .auBadAlloc)
    | some size =>
      let data := sizeofComponentRec
      let string := data + pad4u dataSize
      if r.descriptionLen ≠ 0 ∧ string + r.descriptionLen > size then .error .fault
      else .ok (.ok { size, data, dataEnd := data + dataSize, rest := string, restEnd := string + r.descriptionLen })

/-! ### What is asked for -/

/-- The bytes of a client's data. -/
def AllocEnv.dataBytes (format numTracks numSamples : Nat) : Nat :=
  numSamples * env.bytesPerSample format * numTracks

/-- The bytes of one of the two minibuffers of a port. -/
def AllocEnv.minibufBytes (numTracks : Nat) : Nat := auNativeBytesPerSample * env.auMinibufSamples * numTracks

/-- There are as many bytes as are wanted, and no pointer leads out of the block. -/
structure Block.Enough (b : Block) (wanted : Nat) : Prop where
  bytes : wanted ≤ b.size
  data : b.data ≤ b.dataEnd ∧ b.dataEnd ≤ b.size
  rest : b.dataEnd ≤ b.rest ∧ b.rest ≤ b.restEnd ∧ b.restEnd ≤ b.size

variable {env} {size n dataBytes rest : Nat} {b : Block}

theorem aualloc_size (h : aualloc env n = some size) : size = pad4 (n % 2 ^ 32) := by
  unfold aualloc xalloc at h
  split at h
  · cases h
  · dsimp only at h
    split at h
    · cases h
      rfl
    · cases h

/-- Padding in 32 bits is padding, and then cut off. -/
theorem pad4u_mod (n : Nat) : pad4u (n % 2 ^ 32) = pad4 n % 2 ^ 32 := by
  unfold pad4u pad4
  omega

theorem pad4u_eq (n : Nat) : pad4u n = pad4 n % 2 ^ 32 := by
  unfold pad4u pad4
  omega

theorem pad4_dvd (n : Nat) : 4 ∣ pad4 n := Nat.dvd_mul_left ..

theorem le_pad4 (n : Nat) : n ≤ pad4 n := by
  unfold pad4
  omega

/-- A header, the data and more, of which no more is used than is asked for. The size is the sum modulo 2^32,
so that it has room for all exactly if it is the sum. -/
theorem enough_iff {used : Nat} (hrest : 4 ∣ rest) (hused : used ≤ rest)
    (h : aualloc env (sizeofComponentRec + pad4u (dataBytes % 2 ^ 32) + rest % 2 ^ 32) = some size) :
    (Block.mk size sizeofComponentRec (sizeofComponentRec + dataBytes % 2 ^ 32)
        (sizeofComponentRec + pad4u (dataBytes % 2 ^ 32))
        (sizeofComponentRec + pad4u (dataBytes % 2 ^ 32) + used)).Enough (sizeofComponentRec + dataBytes + rest) ↔
      sizeofComponentRec + pad4 dataBytes + rest < 2 ^ 32 := by
  have hsize : size = (sizeofComponentRec + pad4 dataBytes + rest) % 2 ^ 32 := by
    rw [aualloc_size h, pad4u_mod]
    unfold pad4 sizeofComponentRec
    omega
  constructor
  · intro he
    have hle : sizeofComponentRec + dataBytes + rest ≤ size := he.bytes
    -- both the size and the sum are multiples of four
    have := pad4_dvd dataBytes
    unfold pad4 sizeofComponentRec at *
    omega
  · intro hlt
    have hpad := le_pad4 dataBytes
    rw [Nat.mod_eq_of_lt hlt] at hsize
    rw [pad4u_mod, Nat.mod_eq_of_lt (by omega : pad4 dataBytes < 2 ^ 32), Nat.mod_eq_of_lt (by omega : dataBytes < 2 ^ 32)]
    refine ⟨?_, ⟨?_, ?_⟩, ?_, ?_, ?_⟩ <;> dsimp only <;> omega

/-- A port that is made. -/
theorem createPort_enough_iff {r : PortRequest} (h : createPort env r = some b) :
    b.Enough (sizeofComponentRec + env.dataBytes r.format r.numTracks r.numSamples + 2 * pad4 (env.minibufBytes r.numTracks)) ↔
      sizeofComponentRec + pad4 (env.dataBytes r.format r.numTracks r.numSamples) +
        2 * pad4 (env.minibufBytes r.numTracks) < 2 ^ 32 := by
  unfold createPort at h
  dsimp only at h
  split at h
  · cases h
  · obtain ⟨size, hsize, hb⟩ := Option.bind_eq_some_iff.1 h
    have htwice : pad4u (auNativeBytesPerSample * env.auMinibufSamples * r.numTracks % 2 ^ 32) * 2 % 2 ^ 32 =
        2 * pad4 (env.minibufBytes r.numTracks) % 2 ^ 32 := by
      rw [pad4u_mod, AllocEnv.minibufBytes]
      omega
    have hused : 2 * (env.minibufBytes r.numTracks % 2 ^ 32) ≤ 2 * pad4 (env.minibufBytes r.numTracks) := by
      have := le_pad4 (env.minibufBytes r.numTracks)
      omega
    rw [htwice] at hsize
    rw [← Option.some_inj.1 hb]
    exact enough_iff (Nat.dvd_mul_left_of_dvd (pad4_dvd _) 2) hused hsize

/-- A bucket that is made. -/
theorem createBucket_enough_iff {r : BucketRequest} (h : procAuCreateBucket env r = .ok (.ok b)) :
    b.Enough (sizeofComponentRec + env.dataBytes r.format r.numTracks r.numSamples + pad4 r.descriptionLen) ↔
      sizeofComponentRec + pad4 (env.dataBytes r.format r.numTracks r.numSamples) + pad4 r.descriptionLen < 2 ^ 32 := by
  unfold procAuCreateBucket at h
  dsimp only at h
  split at h
  · cases h
  split at h
  · cases h
  split at h
  · cases h
  split at h
  · cases h
  · rename_i size hsize
    split at h
    · cases h
    · have hb := Except.ok.inj (Except.ok.inj h)
      have halloc : aualloc env (sizeofComponentRec + pad4u (env.dataBytes r.format r.numTracks r.numSamples % 2 ^ 32) +
          pad4 r.descriptionLen % 2 ^ 32) = some size := by
        rw [← pad4u_eq]
        unfold aucalloc aualloc at *
        rw [Nat.one_mul, Nat.mod_mod, Nat.mod_mod] at hsize
        exact hsize
      rw [← hb]
      exact enough_iff (pad4_dvd _) (le_pad4 _) halloc

/-- A server with memory for anything, and zeros behind its table. -/
def plenty : AllocEnv := { memory := fun _ => true, behind := fun _ => 0, auMinibufSamples := 64 }

/-- Where the format is one and the minibuffers are as small as those of the server, the port is that of
`Nas.createPort`. -/
theorem createPort_component {r : PortRequest} (hformat : r.format < 8) (hm : env.auMinibufSamples < 2 ^ 21)
    (ht : r.numTracks < 2 ^ 8) (h : createPort env r = some b) (lowWater highWater : Nat) (discard : Bool) :
    ∃ c, Nas.createPort env.auMinibufSamples r.format r.numTracks r.numSamples lowWater highWater discard = some c ∧
      b.dataEnd = b.data + c.dataSize ∧ b.restEnd = b.rest + 2 * c.minibufSize := by
  have hmul : env.auMinibufSamples * r.numTracks < 2 ^ 29 :=
    calc env.auMinibufSamples * r.numTracks < 2 ^ 21 * 2 ^ 8 := Nat.mul_lt_mul'' hm ht
      _ = 2 ^ 29 := (Nat.pow_add 2 21 8).symm
  have hbps : env.bytesPerSample r.format = sizeofFormat r.format := if_pos hformat
  unfold createPort at h
  rw [hbps] at h
  dsimp only at h
  split at h
  · cases h
  · rename_i hcheck
    obtain ⟨size, -, hb⟩ := Option.bind_eq_some_iff.1 h
    rw [← Option.some_inj.1 hb]
    have hsmall : pad4u (auNativeBytesPerSample * env.auMinibufSamples * r.numTracks % 2 ^ 32) * 2 % 2 ^ 32 =
        pad4u (auNativeBytesPerSample * env.auMinibufSamples * r.numTracks % 2 ^ 32) * 2 := by
      rw [Nat.mul_assoc, auNativeBytesPerSample]
      unfold pad4u
      omega
    rw [hsmall] at hcheck
    exact ⟨_, if_neg hcheck, rfl, rfl⟩

end Nas.Allocation
