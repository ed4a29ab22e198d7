import Nas.Struct
import Nas.Matching
import Nas.RequestLayout
import Nas.Io
import Mathlib.Algebra.Order.BigOperators.Group.List
import Mathlib.Algebra.Order.Group.Nat

/-!
# Connection set-up

What a server tells a client that it has let in (`AuSendInitResponse`), and what the client makes of it
(`AuOpenServer`). The length in front is added up when the server starts, by what `AU_ADD_DEVICE` and `AU_ADD_BUCKET`
say of each component. `WriteToClient` pads what is sent, and the swappers turn the numbers for a client of the other
byte order. The client walks through a block of the length it is told, and a read behind that is a fault.

The lengths of lists are sent as a `CARD8`, the rates and the length in front as a `CARD16`. `connectionSetup_iff` says that
nothing else limits what a server may have.
-/

namespace Nas.ConnectionSetup
open Matching (ComponentRec Hardware)
open Io (padlength)
open Struct (Member)
open Allocation (pad4_dvd le_pad4)

/-! ### The server -/

/-- The C types of what a component says of itself. -/
structure Typed (c : ComponentRec) : Prop where
  valueMask : c.valueMask < 2 ^ 32
  changableMask : c.changableMask < 2 ^ 32
  id : c.id < 2 ^ 32
  kind : c.kind < 2 ^ 8
  use : c.use < 2 ^ 8
  access : c.access < 2 ^ 8
  format : c.format < 2 ^ 8
  numTracks : c.numTracks < 2 ^ 8
  descriptionType : c.descriptionType < 2 ^ 8
  description : c.description.length < 2 ^ 32
  minSampleRate : c.minSampleRate < 2 ^ 32
  maxSampleRate : c.maxSampleRate < 2 ^ 32
  location : c.location < 2 ^ 32
  gain : c.gain < 2 ^ 32
  lineMode : c.lineMode < 2 ^ 8
  children : c.children.length < 2 ^ 8
  sampleRate : c.sampleRate < 2 ^ 32
  numSamples : c.numSamples < 2 ^ 32

/-- What a server has, with what its hardware says when a client comes. -/
structure Configuration where
  auFormats : List UInt8
  auElementTypes : List UInt8
  auWaveForms : List UInt8
  auActions : List UInt8
  auServerDevices : List ComponentRec
  auServerBuckets : List ComponentRec
  auVendorString : List UInt8
  auServerMinRate : Nat
  auServerMaxRate : Nat
  hardware : Hardware
  devices_typed : ∀ c ∈ auServerDevices, Typed (c.refresh hardware)
  buckets_typed : ∀ c ∈ auServerBuckets, Typed c

structure AuConnSetupPrefix where
  success : Nat
  lengthReason : Nat
  majorVersion : Nat
  minorVersion : Nat
  length : Nat
deriving DecidableEq, Repr

structure AuConnSetup where
  release : Nat
  ridBase : Nat
  ridMask : Nat
  minSampleRate : Nat
  maxSampleRate : Nat
  nbytesVendor : Nat
  maxRequestSize : Nat
  maxTracks : Nat
  numFormats : Nat
  numElementTypes : Nat
  numWaveForms : Nat
  numActions : Nat
  numDevices : Nat
  numBuckets : Nat
  numRadios : Nat
deriving DecidableEq, Repr

def auProtocolMajorVersion : Nat := 2
def auProtocolMinorVersion : Nat := 2
def auTrue : Nat := 1
def vendorRelease : Nat := 1
def maxRequestSize : Nat := 65535
def auMaxTracks : Nat := 32
def resourceIdMask : Nat := 0x3FFFFF
def sizeofAuConnSetupPrefix : Nat := 8
def sizeofAuConnSetup : Nat := 28

/-- What `AU_ADD_DEVICE` adds to the size of the list. -/
def deviceSize (c : ComponentRec) : Nat :=
  sizeofAuDeviceAttributes + pad4 c.description.length + pad4 (c.children.length * sizeofAuDeviceID)

/-- What `AU_ADD_BUCKET` adds. -/
def bucketSize (c : ComponentRec) : Nat := sizeofAuBucketAttributes + pad4 c.description.length

section
variable (cfg : Configuration)

/-- The `len` of `AuInitDevice`, whose drivers have no radios. -/
def auInitDevice : Nat :=
  pad4 cfg.auFormats.length + pad4 cfg.auElementTypes.length + pad4 cfg.auWaveForms.length + pad4 cfg.auActions.length +
    (cfg.auServerDevices.map deviceSize).sum + (cfg.auServerBuckets.map bucketSize).sum

/-- `auSetup`, as it is before a client comes. -/
def auSetup : AuConnSetup where
  release := vendorRelease
  ridBase := 0
  ridMask := 0
  minSampleRate := cfg.auServerMinRate % 2 ^ 16
  maxSampleRate := cfg.auServerMaxRate % 2 ^ 16
  nbytesVendor := cfg.auVendorString.length % 2 ^ 16
  maxRequestSize := maxRequestSize
  maxTracks := auMaxTracks
  numFormats := cfg.auFormats.length % 2 ^ 8
  numElementTypes := cfg.auElementTypes.length % 2 ^ 8
  numWaveForms := cfg.auWaveForms.length % 2 ^ 8
  numActions := cfg.auActions.length % 2 ^ 8
  numDevices := cfg.auServerDevices.length % 2 ^ 8
  numBuckets := cfg.auServerBuckets.length % 2 ^ 8
  numRadios := 0

/-- `auSetupPrefix`, with the length that `AuInitSetupReply` computes. -/
def auSetupPrefix : AuConnSetupPrefix where
  success := auTrue
  lengthReason := 0
  majorVersion := auProtocolMajorVersion
  minorVersion := auProtocolMinorVersion
  length := replyLength (sizeofAuConnSetup + pad4 (auSetup cfg).nbytesVendor) (auInitDevice cfg) % 2 ^ 16

end

/-! ### `AuSendInitResponse` -/

def AuConnSetupPrefix.members (s : AuConnSetupPrefix) : List Member :=
  [⟨1, s.success⟩, ⟨1, s.lengthReason⟩, ⟨2, s.majorVersion⟩, ⟨2, s.minorVersion⟩, ⟨2, s.length⟩]

def AuConnSetup.members (s : AuConnSetup) : List Member :=
  [⟨4, s.release⟩, ⟨4, s.ridBase⟩, ⟨4, s.ridMask⟩, ⟨2, s.minSampleRate⟩, ⟨2, s.maxSampleRate⟩, ⟨2, s.nbytesVendor⟩,
    ⟨2, s.maxRequestSize⟩, ⟨1, s.maxTracks⟩, ⟨1, s.numFormats⟩, ⟨1, s.numElementTypes⟩, ⟨1, s.numWaveForms⟩,
    ⟨1, s.numActions⟩, ⟨1, s.numDevices⟩, ⟨1, s.numBuckets⟩, ⟨1, s.numRadios⟩]

/-- What is in a structure on the stack before it is filled in, by its component and position. -/
abbrev Junk := ComponentRec → Nat → Nat

section
variable (junk : Junk) (c : ComponentRec)

/-- `xferCommonAttributes` -/
def commonMembers : List Member :=
  [⟨4, c.valueMask⟩, ⟨4, c.changableMask⟩, ⟨4, c.id⟩, ⟨1, c.kind⟩, ⟨1, c.use⟩, ⟨1, c.format⟩, ⟨1, c.numTracks⟩,
    ⟨4, c.access⟩, ⟨1, c.descriptionType⟩, ⟨1, junk c 21⟩, ⟨1, junk c 22⟩, ⟨1, junk c 23⟩, ⟨4, c.description.length⟩]

/-- `xferDeviceAttributes` -/
def deviceMembers : List Member :=
  commonMembers junk c ++ [⟨4, c.location⟩, ⟨4, c.gain⟩, ⟨2, c.minSampleRate⟩, ⟨2, c.maxSampleRate⟩, ⟨1, c.lineMode⟩,
    ⟨1, c.children.length⟩, ⟨1, junk c 42⟩, ⟨1, junk c 43⟩]

/-- `xferBucketAttributes` -/
def bucketMembers : List Member :=
  commonMembers junk c ++ [⟨2, c.sampleRate⟩, ⟨1, junk c 30⟩, ⟨1, junk c 31⟩, ⟨4, c.numSamples⟩]

end

/-- `WriteToClient`, before the padding. The count is an `int`. -/
def writeToClient (count : Nat) (buf : List UInt8) : Exec (List UInt8) :=
  if asInt32 count < 0 then .error .fault else Memory.load buf 0 count

/-- `WriteAuSwappedDataToClient`, with the numbers that the swapper turns. -/
def writeSwapped (swapped : Bool) (fields : List Field) (bs : List UInt8) : Exec (List UInt8) :=
  if swapped then do
    let s ← swapFields fields ⟨bs, []⟩
    .ok s.mem
  else .ok bs

/-- `AuSwapSetupPrefix` -/
def setupPrefixFields : List Field := [⟨2, 2⟩, ⟨4, 2⟩, ⟨6, 2⟩]

/-- `AuSwapSetup` -/
def setupFields : List Field := [⟨0, 4⟩, ⟨4, 4⟩, ⟨8, 4⟩, ⟨12, 2⟩, ⟨14, 2⟩, ⟨16, 2⟩, ⟨18, 2⟩]

/-- `Swap32Write` -/
def swap32Fields (size : Nat) : List Field := spaced 0 4 4 (size / 4)

/-- What is written for each component. -/
def writeAll (write : ComponentRec → Exec (List (List UInt8))) : List ComponentRec → Exec (List (List UInt8))
  | [] => .ok []
  | c :: cs => do
    let ps ← write c
    let qs ← writeAll write cs
    .ok (ps ++ qs)

structure Client where
  order : ByteOrder
  clientAsMask : Nat

section
variable (o : ByteOrder) (cfg : Configuration) (client : Client) (junk : Junk)

/-- `client->swapped` -/
def Client.swapped : Bool := client.order ≠ o

/-- The loop over the devices. -/
def writeDevice (d : ComponentRec) : Exec (List (List UInt8)) := do
  let d := d.refresh cfg.hardware
  let da ← writeSwapped (client.swapped o) Requests.auDeviceAttributes (Struct.bytes o (deviceMembers junk d))
  let description ← writeToClient d.description.length d.description
  if d.children.length = 0 then .ok [da, description]
  else do
    let ids := swap32Fields (d.children.length * sizeofAuDeviceID)
    let children ← writeSwapped (client.swapped o) ids (d.childBytes o)
    .ok [da, description, children]

/-- The loop over the buckets. -/
def writeBucket (c : ComponentRec) : Exec (List (List UInt8)) := do
  let ba ← writeSwapped (client.swapped o) Requests.auBucketAttributes (Struct.bytes o (bucketMembers junk c))
  let description ← writeToClient c.description.length c.description
  .ok [ba, description]

/-- `AuSendInitResponse`: what is written, piece by piece. -/
def auSendInitResponse : Exec (List (List UInt8)) := do
  let setup := { auSetup cfg with ridBase := client.clientAsMask, ridMask := resourceIdMask }
  let front ← writeSwapped (client.swapped o) setupPrefixFields (Struct.bytes o (auSetupPrefix cfg).members)
  let fixed ← writeSwapped (client.swapped o) setupFields (Struct.bytes o setup.members)
  let vendor ← writeToClient setup.nbytesVendor cfg.auVendorString
  let formats ← writeToClient setup.numFormats cfg.auFormats
  let elementTypes ← writeToClient setup.numElementTypes cfg.auElementTypes
  let waveForms ← writeToClient setup.numWaveForms cfg.auWaveForms
  let actions ← writeToClient setup.numActions cfg.auActions
  let devices ← writeAll (writeDevice o cfg client junk) cfg.auServerDevices
  let buckets ← writeAll (writeBucket o client junk) cfg.auServerBuckets
  .ok ([front, fixed, vendor, formats, elementTypes, waveForms, actions] ++ (devices ++ buckets))

end

/-! ### `AuOpenServer` -/

/-- An `AuCommonPart`, less the text of the description. -/
structure AuCommonPart where
  valueMask : Nat
  changableMask : Nat
  id : Nat
  kind : Nat
  use : Nat
  format : Nat
  numTracks : Nat
  access : Nat
  descriptionType : Nat
  descriptionLen : Nat
deriving DecidableEq, Repr

structure AuDeviceAttributes where
  common : AuCommonPart
  /-- `common.description.data`, less its NUL -/
  description : List UInt8
  minSampleRate : Nat
  maxSampleRate : Nat
  location : Nat
  gain : Nat
  lineMode : Nat
  numChildren : Nat
  children : List Nat
deriving DecidableEq, Repr

structure AuBucketAttributes where
  common : AuCommonPart
  description : List UInt8
  sampleRate : Nat
  numSamples : Nat
deriving DecidableEq, Repr

/-- `aud->connsetup` -/
structure ConnSetup where
  minSampleRate : Nat
  maxSampleRate : Nat
  maxTracks : Nat
  formats : List UInt8
  elementTypes : List UInt8
  waveForms : List UInt8
  actions : List UInt8
  devices : List AuDeviceAttributes
  buckets : List AuBucketAttributes
deriving DecidableEq, Repr

/-- The part of an `AuServer` that comes from the server. -/
structure AuServer where
  protoMajorVersion : Nat
  protoMinorVersion : Nat
  release : Nat
  resourceBase : Nat
  resourceMask : Nat
  maxRequestSize : Nat
  vendor : List UInt8
  connsetup : ConnSetup
deriving DecidableEq, Repr

section
variable (o : ByteOrder) (m : List UInt8)

/-- `_xferCommonPart` -/
def xferCommonPart (p : Nat) : Exec AuCommonPart := do
  let valueMask ← o.load 4 m (p + 0)
  let changableMask ← o.load 4 m (p + 4)
  let id ← o.load 4 m (p + 8)
  let kind ← o.load 1 m (p + 12)
  let use ← o.load 1 m (p + 13)
  let format ← o.load 1 m (p + 14)
  let numTracks ← o.load 1 m (p + 15)
  let access ← o.load 4 m (p + 16)
  let descriptionType ← o.load 1 m (p + 20)
  let descriptionLen ← o.load 4 m (p + 24)
  .ok { valueMask, changableMask, id, kind, use, format, numTracks, access, descriptionType, descriptionLen }

/-- A list of small numbers, and where what follows it is. -/
def xferList (n p : Nat) : Exec (List UInt8 × Nat) := do
  let l ← Memory.load m p n
  .ok (l, p + pad4 n)

/-- The text of a description, if it has one. -/
def xferDescription (len p : Nat) : Exec (List UInt8 × Nat) := if len = 0 then .ok ([], p) else xferList m len p

/-- So many ids. -/
def xferIds : (n p : Nat) → Exec (List Nat)
  | 0, _ => .ok []
  | n + 1, p => do
    let id ← o.load 4 m p
    let ids ← xferIds n (p + 4)
    .ok (id :: ids)

/-- The loop over the devices: the next of them, and where what follows it is. -/
def xferDevice (p : Nat) : Exec (AuDeviceAttributes × Nat) := do
  let common ← xferCommonPart o m p
  let minSampleRate ← o.load 2 m (p + 36)
  let maxSampleRate ← o.load 2 m (p + 38)
  let location ← o.load 4 m (p + 28)
  let gain ← o.load 4 m (p + 32)
  let lineMode ← o.load 1 m (p + 40)
  let numChildren ← o.load 1 m (p + 41)
  let (description, q) ← xferDescription m common.descriptionLen (p + sizeofAuDeviceAttributes)
  let children ← xferIds o m numChildren q
  let device := {
    common, description, minSampleRate, maxSampleRate, location, gain, lineMode, numChildren, children }
  .ok (device, q + numChildren * sizeofAuDeviceID)

/-- The loop over the buckets. -/
def xferBucket (p : Nat) : Exec (AuBucketAttributes × Nat) := do
  let common ← xferCommonPart o m p
  let sampleRate ← o.load 2 m (p + 28)
  let numSamples ← o.load 4 m (p + 32)
  let (description, q) ← xferDescription m common.descriptionLen (p + sizeofAuBucketAttributes)
  .ok ({ common, description, sampleRate, numSamples }, q)

/-- So many components. -/
def xferAll {α : Type} (xfer : Nat → Exec (α × Nat)) : (n p : Nat) → Exec (List α × Nat)
  | 0, p => .ok ([], p)
  | n + 1, p => do
    let (a, p) ← xfer p
    let (l, p) ← xferAll xfer n p
    .ok (a :: l, p)

/-- `xferConnectionSetup` -/
def xferConnectionSetup (varData : Nat) : Exec ConnSetup := do
  let minSampleRate ← o.load 2 m (0 + 12)
  let maxSampleRate ← o.load 2 m (0 + 14)
  let maxTracks ← o.load 1 m (0 + 20)
  let numFormats ← o.load 1 m (0 + 21)
  let numElementTypes ← o.load 1 m (0 + 22)
  let numWaveForms ← o.load 1 m (0 + 23)
  let numActions ← o.load 1 m (0 + 24)
  let numDevices ← o.load 1 m (0 + 25)
  let numBuckets ← o.load 1 m (0 + 26)
  let (formats, p) ← xferList m numFormats varData
  let (elementTypes, p) ← xferList m numElementTypes p
  let (waveForms, p) ← xferList m numWaveForms p
  let (actions, p) ← xferList m numActions p
  let (devices, p) ← xferAll (xferDevice o m) numDevices p
  let (buckets, _) ← xferAll (xferBucket o m) numBuckets p
  .ok { minSampleRate, maxSampleRate, maxTracks, formats, elementTypes, waveForms, actions, devices, buckets }

end

/-- `_AuRead`, which waits for what there is not. -/
def auRead (n : Nat) (stream : List UInt8) : Exec (List UInt8 × List UInt8) :=
  if n ≤ stream.length then .ok (stream.take n, stream.drop n) else .error .fuel

/-- `AuOpenServer` from where the server answers on, for a client of the byte order `o`: no server if it refuses, and
what has not been read. -/
def auOpenServer (o : ByteOrder) (stream : List UInt8) : Exec (Option AuServer × List UInt8) := do
  let (front, stream) ← auRead sizeofAuConnSetupPrefix stream
  let success ← o.load 1 front (0 + 0)
  let protoMajorVersion ← o.load 2 front (0 + 2)
  let protoMinorVersion ← o.load 2 front (0 + 4)
  let length ← o.load 2 front (0 + 6)
  let (setup, stream) ← auRead (4 * length) stream
  if success ≠ auTrue then .ok (none, stream)
  else do
    let release ← o.load 4 setup (0 + 0)
    let resourceBase ← o.load 4 setup (0 + 4)
    let resourceMask ← o.load 4 setup (0 + 8)
    let nbytesVendor ← o.load 2 setup (0 + 16)
    let maxRequestSize ← o.load 2 setup (0 + 18)
    let vendor ← Memory.load setup sizeofAuConnSetup nbytesVendor
    let connsetup ← xferConnectionSetup o setup (sizeofAuConnSetup + pad4 nbytesVendor)
    .ok (some {
      protoMajorVersion, protoMinorVersion, release, resourceBase, resourceMask, maxRequestSize
      vendor := vendor.takeWhile (· ≠ 0)
      connsetup }, stream)

/-! ### What the client is to get -/

def commonPart (c : ComponentRec) : AuCommonPart where
  valueMask := c.valueMask
  changableMask := c.changableMask
  id := c.id
  kind := c.kind
  use := c.use
  format := c.format
  numTracks := c.numTracks
  access := c.access
  descriptionType := c.descriptionType
  descriptionLen := c.description.length

def deviceAttributes (c : ComponentRec) : AuDeviceAttributes where
  common := commonPart c
  description := c.description
  minSampleRate := c.minSampleRate
  maxSampleRate := c.maxSampleRate
  location := c.location
  gain := c.gain
  lineMode := c.lineMode
  numChildren := c.children.length
  children := c.children.map UInt32.toNat

def bucketAttributes (c : ComponentRec) : AuBucketAttributes where
  common := commonPart c
  description := c.description
  sampleRate := c.sampleRate
  numSamples := c.numSamples

/-- The same lists, devices and buckets. -/
structure Same (cfg : Configuration) (s : ConnSetup) : Prop where
  formats : s.formats = cfg.auFormats
  elementTypes : s.elementTypes = cfg.auElementTypes
  waveForms : s.waveForms = cfg.auWaveForms
  actions : s.actions = cfg.auActions
  devices : s.devices = cfg.auServerDevices.map fun c => deviceAttributes (c.refresh cfg.hardware)
  buckets : s.buckets = cfg.auServerBuckets.map bucketAttributes

/-- Whatever is sent for padding, it is as long as it says, and the client gets the same out of it and reads nothing of
what comes later. -/
def RoundTrips (o : ByteOrder) (cfg : Configuration) (client : Client) (junk : Junk) : Prop :=
  ∃ pieces, auSendInitResponse o cfg client junk = .ok pieces ∧ ∀ bs, Struct.Padded padlength pieces bs →
    bs.length = sizeofAuConnSetupPrefix + 4 * (auSetupPrefix cfg).length ∧
      ∀ later, ∃ s, auOpenServer client.order (bs ++ later) = .ok (some s, later) ∧ Same cfg s.connsetup

/-- The size of what comes behind the prefix. -/
def Configuration.size (cfg : Configuration) : Nat :=
  sizeofAuConnSetup + pad4 (cfg.auVendorString.length % 2 ^ 16) + auInitDevice cfg

/-- The lengths of the lists, the rates and the size have room. -/
structure Fits (cfg : Configuration) : Prop where
  formats : cfg.auFormats.length < 2 ^ 8
  elementTypes : cfg.auElementTypes.length < 2 ^ 8
  waveForms : cfg.auWaveForms.length < 2 ^ 8
  actions : cfg.auActions.length < 2 ^ 8
  devices : cfg.auServerDevices.length < 2 ^ 8
  buckets : cfg.auServerBuckets.length < 2 ^ 8
  deviceRates : ∀ c ∈ cfg.auServerDevices, c.minSampleRate < 2 ^ 16 ∧ c.maxSampleRate < 2 ^ 16
  bucketRates : ∀ c ∈ cfg.auServerBuckets, c.sampleRate < 2 ^ 16
  size : cfg.size < 2 ^ 18

/-! ### Lengths -/

theorem add_padlength (n : Nat) : n + padlength n = pad4 n := by
  unfold padlength pad4
  have hmod : n % 4 = 0 ∨ n % 4 = 1 ∨ n % 4 = 2 ∨ n % 4 = 3 := by omega
  rcases hmod with h | h | h | h
  · simp only [h, List.getD_cons_zero]
    omega
  · simp only [h, List.getD_cons_succ, List.getD_cons_zero]
    omega
  · simp only [h, List.getD_cons_succ, List.getD_cons_zero]
    omega
  · simp only [h, List.getD_cons_succ, List.getD_cons_zero]
    omega

section Lengths
variable {cfg : Configuration}

theorem four_dvd_auInitDevice (cfg : Configuration) : 4 ∣ auInitDevice cfg := by
  have hdevices : 4 ∣ (cfg.auServerDevices.map deviceSize).sum := by
    refine List.dvd_sum fun n hn => ?_
    obtain ⟨c, -, rfl⟩ := List.mem_map.1 hn
    exact Nat.dvd_add (Nat.dvd_add (by decide) (pad4_dvd _)) (pad4_dvd _)
  have hbuckets : 4 ∣ (cfg.auServerBuckets.map bucketSize).sum := by
    refine List.dvd_sum fun n hn => ?_
    obtain ⟨c, -, rfl⟩ := List.mem_map.1 hn
    exact Nat.dvd_add (by decide) (pad4_dvd _)
  have hlists := Nat.dvd_add (Nat.dvd_add (Nat.dvd_add (pad4_dvd cfg.auFormats.length)
    (pad4_dvd cfg.auElementTypes.length)) (pad4_dvd cfg.auWaveForms.length)) (pad4_dvd cfg.auActions.length)
  exact Nat.dvd_add (Nat.dvd_add hlists hdevices) hbuckets

theorem auSetupPrefix_length_lt (cfg : Configuration) : (auSetupPrefix cfg).length < 2 ^ 16 := Nat.mod_lt _ (by decide)

/-- What fits is announced. -/
theorem auSetupPrefix_length_eq (h : cfg.size < 2 ^ 18) : 4 * (auSetupPrefix cfg).length = cfg.size := by
  have hsize : sizeofAuConnSetup + pad4 (auSetup cfg).nbytesVendor + auInitDevice cfg = cfg.size := rfl
  have hdvd : 4 ∣ sizeofAuConnSetup + pad4 (auSetup cfg).nbytesVendor + auInitDevice cfg :=
    Nat.dvd_add (Nat.dvd_add (by decide) (pad4_dvd _)) (four_dvd_auInitDevice cfg)
  have hreply := replyLength_eq ⟨by omega, .inl (by omega)⟩ hdvd
  have hmod : (auSetupPrefix cfg).length =
      replyLength (sizeofAuConnSetup + pad4 (auSetup cfg).nbytesVendor) (auInitDevice cfg) % 2 ^ 16 := rfl
  omega

/-- A description of a server that fits is not long. -/
theorem description_lt_of_device (h : cfg.size < 2 ^ 18) {c : ComponentRec} (hc : c ∈ cfg.auServerDevices) :
    c.description.length < 2 ^ 18 := by
  have hle : deviceSize c ≤ (cfg.auServerDevices.map deviceSize).sum := List.le_sum_of_mem (List.mem_map_of_mem hc)
  have hsize : c.description.length ≤ deviceSize c := by
    have hpad := le_pad4 c.description.length
    unfold deviceSize
    omega
  unfold Configuration.size auInitDevice at h
  omega

theorem description_lt_of_bucket (h : cfg.size < 2 ^ 18) {c : ComponentRec} (hc : c ∈ cfg.auServerBuckets) :
    c.description.length < 2 ^ 18 := by
  have hle : bucketSize c ≤ (cfg.auServerBuckets.map bucketSize).sum := List.le_sum_of_mem (List.mem_map_of_mem hc)
  have hsize : c.description.length ≤ bucketSize c := by
    have hpad := le_pad4 c.description.length
    unfold bucketSize
    omega
  unfold Configuration.size auInitDevice at h
  omega

end Lengths

/-! ### What is sent -/

def childMembers (c : ComponentRec) : List Member := c.children.map fun id => ⟨sizeofAuDeviceID, id.toNat⟩

/-- The pieces for a device in the client's byte order. -/
def devicePieces (o : ByteOrder) (junk : Junk) (d : ComponentRec) : List (List UInt8) :=
  [Struct.bytes o (deviceMembers junk d), d.description] ++
    if d.children.length = 0 then [] else [Struct.bytes o (childMembers d)]

def bucketPieces (o : ByteOrder) (junk : Junk) (c : ComponentRec) : List (List UInt8) :=
  [Struct.bytes o (bucketMembers junk c), c.description]

section Sent
variable {o : ByteOrder} {cfg : Configuration} {client : Client} {junk : Junk} {c d : ComponentRec} {l : List Member}

theorem writeSwapped_ok {fields : List Field} (h : fields = Struct.wideFields 0 l) :
    writeSwapped (client.swapped o) fields (Struct.bytes o l) = .ok (Struct.bytes client.order l) := by
  subst h
  unfold writeSwapped Client.swapped
  by_cases horder : client.order = o
  · rw [if_neg (by simpa using horder), horder]
  · have hother : client.order = o.other := by
      cases ho : o with
      | little =>
        cases hc : client.order with
        | little => exact absurd (hc.trans ho.symm) horder
        | big => rfl
      | big =>
        cases hc : client.order with
        | little => rfl
        | big => exact absurd (hc.trans ho.symm) horder
    rw [if_pos (by simpa using horder), Struct.swapFields_bytes, Exec.ok_bind, hother]

theorem wideFields_children (ids : List UInt32) (p : Nat) :
    Struct.wideFields p (ids.map fun id => ⟨sizeofAuDeviceID, id.toNat⟩) = spaced p 4 4 ids.length := by
  induction ids generalizing p with
  | nil => rfl
  | cons id ids ih =>
    have hwidth : (sizeofAuDeviceID : Nat) ≠ 1 := by decide
    rw [List.map_cons, List.length_cons, spaced_succ, Struct.wideFields, if_neg hwidth, ih]
    rfl

theorem size_children (c : ComponentRec) : Struct.size (childMembers c) = c.children.length * 4 := by
  unfold Struct.size childMembers
  rw [List.map_map]
  induction c.children with
  | nil => rfl
  | cons id ids ih =>
    rw [List.map_cons, List.sum_cons, ih, List.length_cons]
    dsimp only [Function.comp, sizeofAuDeviceID]
    omega

theorem setupPrefixFields_eq (s : AuConnSetupPrefix) : setupPrefixFields = Struct.wideFields 0 s.members := rfl

theorem setupFields_eq (s : AuConnSetup) : setupFields = Struct.wideFields 0 s.members := rfl

theorem deviceFields_eq (junk : Junk) (c : ComponentRec) :
    Requests.auDeviceAttributes = Struct.wideFields 0 (deviceMembers junk c) := rfl

theorem bucketFields_eq (junk : Junk) (c : ComponentRec) :
    Requests.auBucketAttributes = Struct.wideFields 0 (bucketMembers junk c) := rfl

theorem childFields_eq (c : ComponentRec) :
    swap32Fields (c.children.length * sizeofAuDeviceID) = Struct.wideFields 0 (childMembers c) := by
  unfold swap32Fields childMembers
  rw [wideFields_children, sizeofAuDeviceID, Nat.mul_div_cancel _ (by decide)]

theorem writeToClient_ok {n : Nat} {buf : List UInt8} (hn : n ≤ buf.length) (hlt : n < 2 ^ 31) :
    writeToClient n buf = .ok (buf.take n) := by
  have hint : ¬ asInt32 n < 0 := by
    unfold asInt32
    rw [Nat.mod_eq_of_lt (by omega), if_pos hlt]
    omega
  unfold writeToClient
  rw [if_neg hint, Memory.load_ok (by omega), Nat.zero_add]
  rfl

theorem writeToClient_all {buf : List UInt8} (hlt : buf.length < 2 ^ 31) : writeToClient buf.length buf = .ok buf := by
  rw [writeToClient_ok le_rfl hlt, List.take_length]

theorem childBytes_eq (o : ByteOrder) (c : ComponentRec) : c.childBytes o = Struct.bytes o (childMembers c) := by
  unfold ComponentRec.childBytes Struct.bytes childMembers
  rw [List.flatMap_map]

theorem writeDevice_ok (h : (d.refresh cfg.hardware).description.length < 2 ^ 31) :
    writeDevice o cfg client junk d = .ok (devicePieces client.order junk (d.refresh cfg.hardware)) := by
  unfold writeDevice devicePieces
  dsimp only
  rw [writeSwapped_ok (deviceFields_eq junk _), Exec.ok_bind, writeToClient_all h, Exec.ok_bind]
  split
  · rfl
  · rw [childBytes_eq, writeSwapped_ok (childFields_eq _)]
    rfl

theorem writeBucket_ok (h : c.description.length < 2 ^ 31) :
    writeBucket o client junk c = .ok (bucketPieces client.order junk c) := by
  unfold writeBucket
  rw [writeSwapped_ok (bucketFields_eq junk c), Exec.ok_bind, writeToClient_all h]
  rfl

theorem writeAll_ok {write : ComponentRec → Exec (List (List UInt8))} {pieces : ComponentRec → List (List UInt8)}
    {cs : List ComponentRec} (h : ∀ c ∈ cs, write c = .ok (pieces c)) :
    writeAll write cs = .ok (cs.flatMap pieces) := by
  induction cs with
  | nil => rfl
  | cons c cs ih =>
    unfold writeAll
    rw [h c List.mem_cons_self, Exec.ok_bind, ih fun c' hc' => h c' (List.mem_cons_of_mem _ hc')]
    rfl

/-- All pieces behind the two structures in front. -/
def variablePieces (cfg : Configuration) (o : ByteOrder) (junk : Junk) : List (List UInt8) :=
  [cfg.auVendorString.take (auSetup cfg).nbytesVendor, cfg.auFormats.take (auSetup cfg).numFormats,
    cfg.auElementTypes.take (auSetup cfg).numElementTypes, cfg.auWaveForms.take (auSetup cfg).numWaveForms,
    cfg.auActions.take (auSetup cfg).numActions] ++
  ((cfg.auServerDevices.flatMap fun c => devicePieces o junk (c.refresh cfg.hardware)) ++
    cfg.auServerBuckets.flatMap (bucketPieces o junk))

/-- `auSetup` for a client. -/
def setupFor (cfg : Configuration) (client : Client) : AuConnSetup :=
  { auSetup cfg with ridBase := client.clientAsMask, ridMask := resourceIdMask }

theorem length_prefixMembers (s : AuConnSetupPrefix) : (Struct.bytes o s.members).length = sizeofAuConnSetupPrefix := by
  simp [Struct.size, AuConnSetupPrefix.members, sizeofAuConnSetupPrefix]

theorem length_setupMembers (s : AuConnSetup) : (Struct.bytes o s.members).length = sizeofAuConnSetup := by
  simp [Struct.size, AuConnSetup.members, sizeofAuConnSetup]

theorem length_deviceMembers : (Struct.bytes o (deviceMembers junk d)).length = sizeofAuDeviceAttributes := by
  simp [Struct.size, deviceMembers, commonMembers, sizeofAuDeviceAttributes]

theorem length_bucketMembers : (Struct.bytes o (bucketMembers junk c)).length = sizeofAuBucketAttributes := by
  simp [Struct.size, bucketMembers, commonMembers, sizeofAuBucketAttributes]

theorem paddedSize_eq (ps : List (List UInt8)) :
    Struct.paddedSize padlength ps = (ps.map fun piece => pad4 piece.length).sum := by
  unfold Struct.paddedSize
  simp only [add_padlength]

theorem paddedSize_devicePieces : Struct.paddedSize padlength (devicePieces o junk d) = deviceSize d := by
  have hpad : pad4 sizeofAuDeviceAttributes = sizeofAuDeviceAttributes := by decide
  have hchildren : (if d.children.length = 0 then [] else [Struct.bytes o (childMembers d)]).map
      (fun piece : List UInt8 => pad4 piece.length) =
        if d.children.length = 0 then [] else [pad4 (d.children.length * sizeofAuDeviceID)] := by
    split
    · rfl
    · rw [List.map_singleton, Struct.length_bytes, size_children]
      rfl
  unfold deviceSize devicePieces
  rw [paddedSize_eq, List.map_append, hchildren, List.map_cons, List.map_singleton, length_deviceMembers, hpad,
    List.sum_append, List.sum_cons, List.sum_singleton]
  by_cases hnone : d.children.length = 0
  · rw [if_pos hnone, hnone]
    rfl
  · rw [if_neg hnone, List.sum_singleton]

theorem paddedSize_bucketPieces : Struct.paddedSize padlength (bucketPieces o junk c) = bucketSize c := by
  have hpad : pad4 sizeofAuBucketAttributes = sizeofAuBucketAttributes := by decide
  unfold bucketSize bucketPieces
  rw [paddedSize_eq, List.map_cons, List.map_singleton, length_bucketMembers, hpad, List.sum_cons, List.sum_singleton]

theorem refresh_description (hw : Hardware) (c : ComponentRec) : (c.refresh hw).description = c.description := by
  unfold ComponentRec.refresh ComponentRec.refreshGain ComponentRec.refreshLineMode
  split_ifs <;> rfl

theorem refresh_rates (hw : Hardware) (c : ComponentRec) :
    (c.refresh hw).minSampleRate = c.minSampleRate ∧ (c.refresh hw).maxSampleRate = c.maxSampleRate := by
  unfold ComponentRec.refresh ComponentRec.refreshGain ComponentRec.refreshLineMode
  split_ifs <;> exact ⟨rfl, rfl⟩

/-- What the hardware says does not change a device's size. -/
theorem deviceSize_refresh (hw : Hardware) (c : ComponentRec) : deviceSize (c.refresh hw) = deviceSize c := by
  unfold deviceSize
  rw [refresh_description, Matching.refresh_children]

theorem take_mod {l : List UInt8} (h : l.length < 2 ^ 8) : l.take (l.length % 2 ^ 8) = l := by
  rw [Nat.mod_eq_of_lt h, List.take_length]

/-- The small lists have room. -/
structure ListsFit (cfg : Configuration) : Prop where
  formats : cfg.auFormats.length < 2 ^ 8
  elementTypes : cfg.auElementTypes.length < 2 ^ 8
  waveForms : cfg.auWaveForms.length < 2 ^ 8
  actions : cfg.auActions.length < 2 ^ 8

theorem Fits.lists (h : Fits cfg) : ListsFit cfg := ⟨h.formats, h.elementTypes, h.waveForms, h.actions⟩

/-- They are sent as a whole. -/
theorem variablePieces_eq (h : ListsFit cfg) :
    variablePieces cfg o junk = [cfg.auVendorString.take (auSetup cfg).nbytesVendor, cfg.auFormats, cfg.auElementTypes,
      cfg.auWaveForms, cfg.auActions] ++
    ((cfg.auServerDevices.flatMap fun c => devicePieces o junk (c.refresh cfg.hardware)) ++
      cfg.auServerBuckets.flatMap (bucketPieces o junk)) := by
  unfold variablePieces
  dsimp only [auSetup]
  rw [take_mod h.formats, take_mod h.elementTypes, take_mod h.waveForms, take_mod h.actions]

theorem length_vendor (cfg : Configuration) :
    (cfg.auVendorString.take (auSetup cfg).nbytesVendor).length = (auSetup cfg).nbytesVendor :=
  List.length_take_of_le (Nat.mod_le _ _)

/-- The size of what comes behind the prefix is what was added up. -/
theorem paddedSize_pieces (h : ListsFit cfg) :
    Struct.paddedSize padlength (Struct.bytes o (setupFor cfg client).members :: variablePieces cfg o junk) =
      cfg.size := by
  have hpad : pad4 sizeofAuConnSetup = sizeofAuConnSetup := by decide
  have hdevices : Struct.paddedSize padlength
      (cfg.auServerDevices.flatMap fun c => devicePieces o junk (c.refresh cfg.hardware)) =
        (cfg.auServerDevices.map deviceSize).sum := by
    rw [Struct.paddedSize_flatMap]
    simp only [paddedSize_devicePieces, deviceSize_refresh]
  have hbuckets : Struct.paddedSize padlength (cfg.auServerBuckets.flatMap (bucketPieces o junk)) =
      (cfg.auServerBuckets.map bucketSize).sum := by
    rw [Struct.paddedSize_flatMap]
    simp only [paddedSize_bucketPieces]
  rw [variablePieces_eq h, ← List.cons_append, Struct.paddedSize_append, Struct.paddedSize_append, hdevices, hbuckets,
    paddedSize_eq]
  simp only [List.map_cons, List.map_nil, List.sum_cons, List.sum_nil, length_setupMembers, length_vendor, hpad]
  unfold Configuration.size auInitDevice
  dsimp only [auSetup]
  omega

theorem auSendInitResponse_ok
    (hdevices : ∀ c ∈ cfg.auServerDevices, (c.refresh cfg.hardware).description.length < 2 ^ 31)
    (hbuckets : ∀ c ∈ cfg.auServerBuckets, c.description.length < 2 ^ 31) :
    auSendInitResponse o cfg client junk = .ok (Struct.bytes client.order (auSetupPrefix cfg).members ::
      Struct.bytes client.order (setupFor cfg client).members :: variablePieces cfg client.order junk) := by
  have hlist (l : List UInt8) : writeToClient (l.length % 2 ^ 8) l = .ok (l.take (l.length % 2 ^ 8)) :=
    writeToClient_ok (Nat.mod_le _ _) (by omega)
  have hvendor (l : List UInt8) : writeToClient (l.length % 2 ^ 16) l = .ok (l.take (l.length % 2 ^ 16)) :=
    writeToClient_ok (Nat.mod_le _ _) (by omega)
  have hsetup : writeSwapped (client.swapped o) setupFields (Struct.bytes o (setupFor cfg client).members) =
      .ok (Struct.bytes client.order (setupFor cfg client).members) := writeSwapped_ok (setupFields_eq _)
  have hwritten : writeAll (writeDevice o cfg client junk) cfg.auServerDevices =
      .ok (cfg.auServerDevices.flatMap fun c => devicePieces client.order junk (c.refresh cfg.hardware)) :=
    writeAll_ok fun c hc => writeDevice_ok (hdevices c hc)
  unfold auSendInitResponse
  dsimp only
  rw [writeSwapped_ok (setupPrefixFields_eq _), Exec.ok_bind]
  unfold setupFor at hsetup
  rw [hsetup, Exec.ok_bind]
  dsimp only [auSetup]
  rw [hvendor, Exec.ok_bind, hlist, Exec.ok_bind, hlist, Exec.ok_bind, hlist, Exec.ok_bind, hlist, Exec.ok_bind,
    hwritten, Exec.ok_bind, writeAll_ok fun c hc => writeBucket_ok (hbuckets c hc)]
  rfl

end Sent

/-! ### What is received -/

section Received
variable {o : ByteOrder} {m : List UInt8} {junk : Junk} {c d : ComponentRec} {p : Nat} {ps : List (List UInt8)}
  {l : List Member} {k v : Nat}

theorem card8 (h : Struct.InBlock m p (Struct.bytes o l)) (hx : Struct.memberAt l k = some ⟨1, v⟩) (hv : v < 2 ^ 8) :
    o.load 1 m (p + k) = .ok v := h.number hx (by omega)

theorem card16 (h : Struct.InBlock m p (Struct.bytes o l)) (hx : Struct.memberAt l k = some ⟨2, v⟩) (hv : v < 2 ^ 16) :
    o.load 2 m (p + k) = .ok v := h.number hx (by omega)

theorem card32 (h : Struct.InBlock m p (Struct.bytes o l)) (hx : Struct.memberAt l k = some ⟨4, v⟩) (hv : v < 2 ^ 32) :
    o.load 4 m (p + k) = .ok v := h.number hx (by omega)

/-- The next piece, and where what follows it is. -/
theorem next_piece {piece : List UInt8} (h : Struct.Ahead padlength m p (piece :: ps)) :
    Struct.InBlock m p piece ∧ Struct.Ahead padlength m (p + pad4 piece.length) ps := by
  have := h.next
  rwa [add_padlength] at this

theorem xferList_ok {bs : List UInt8} (h : Struct.Ahead padlength m p (bs :: ps)) :
    xferList m bs.length p = .ok (bs, p + pad4 bs.length) ∧ Struct.Ahead padlength m (p + pad4 bs.length) ps := by
  obtain ⟨hin, hrest⟩ := next_piece h
  unfold xferList
  rw [hin.load]
  exact ⟨rfl, hrest⟩

theorem xferDescription_ok {bs : List UInt8} (h : Struct.Ahead padlength m p (bs :: ps)) :
    xferDescription m bs.length p = .ok (bs, p + pad4 bs.length) ∧
      Struct.Ahead padlength m (p + pad4 bs.length) ps := by
  obtain ⟨hlist, hrest⟩ := xferList_ok h
  unfold xferDescription
  split
  · rename_i hlen
    obtain rfl := List.eq_nil_of_length_eq_zero hlen
    exact ⟨rfl, hrest⟩
  · exact ⟨hlist, hrest⟩

theorem xferIds_ok {ids : List UInt32}
    (h : Struct.InBlock m p (Struct.bytes o (ids.map fun id => ⟨sizeofAuDeviceID, id.toNat⟩))) :
    xferIds o m ids.length p = .ok (ids.map UInt32.toNat) := by
  induction ids generalizing p with
  | nil => rfl
  | cons id ids ih =>
    have hfirst : o.load 4 m (p + 0) = .ok id.toNat := card32 h (by rfl) id.toNat_lt
    have hrest := Struct.InBlock.part (o.encode sizeofAuDeviceID id.toNat)
      (Struct.bytes o (ids.map fun id => ⟨sizeofAuDeviceID, id.toNat⟩)) [] (by rw [List.append_nil]; exact h)
    rw [ByteOrder.length_encode] at hrest
    have hids := ih hrest
    rw [sizeofAuDeviceID] at hids
    rw [Nat.add_zero] at hfirst
    rw [List.length_cons, xferIds, hfirst, Exec.ok_bind, hids]
    rfl

/-- The numbers that all components have. -/
theorem xferCommonPart_ok (h : Struct.InBlock m p (Struct.bytes o (commonMembers junk c ++ l))) (hc : Typed c) :
    xferCommonPart o m p = .ok (commonPart c) := by
  have haccess : c.access < 2 ^ 32 := hc.access.trans (by decide)
  unfold xferCommonPart
  rw [card32 h (by rfl) hc.valueMask, Exec.ok_bind, card32 h (by rfl) hc.changableMask, Exec.ok_bind,
    card32 h (by rfl) hc.id, Exec.ok_bind, card8 h (by rfl) hc.kind, Exec.ok_bind, card8 h (by rfl) hc.use,
    Exec.ok_bind, card8 h (by rfl) hc.format, Exec.ok_bind, card8 h (by rfl) hc.numTracks, Exec.ok_bind,
    card32 h (by rfl) haccess, Exec.ok_bind, card8 h (by rfl) hc.descriptionType, Exec.ok_bind,
    card32 h (by rfl) hc.description, Exec.ok_bind]
  rfl

theorem xferBucket_ok (h : Struct.Ahead padlength m p (bucketPieces o junk c ++ ps)) (hc : Typed c)
    (hrate : c.sampleRate < 2 ^ 16) :
    ∃ q, xferBucket o m p = .ok (bucketAttributes c, q) ∧ Struct.Ahead padlength m q ps := by
  obtain ⟨hfixed, hrest⟩ := next_piece h
  have hcommon : Struct.InBlock m p (Struct.bytes o (commonMembers junk c ++ _)) := hfixed
  have hsampleRate : o.load 2 m (p + 28) = .ok c.sampleRate := card16 hfixed (by rfl) hrate
  have hnumSamples : o.load 4 m (p + 32) = .ok c.numSamples := card32 hfixed (by rfl) hc.numSamples
  have hpad : pad4 sizeofAuBucketAttributes = sizeofAuBucketAttributes := by decide
  rw [length_bucketMembers, hpad] at hrest
  obtain ⟨hdescription, hrest⟩ := xferDescription_ok hrest
  refine ⟨_, ?_, hrest⟩
  unfold xferBucket
  rw [xferCommonPart_ok hcommon hc, Exec.ok_bind, hsampleRate, Exec.ok_bind, hnumSamples, Exec.ok_bind]
  dsimp only [commonPart]
  rw [hdescription]
  rfl

theorem xferDevice_ok (h : Struct.Ahead padlength m p (devicePieces o junk d ++ ps)) (hd : Typed d)
    (hmin : d.minSampleRate < 2 ^ 16) (hmax : d.maxSampleRate < 2 ^ 16) :
    ∃ q, xferDevice o m p = .ok (deviceAttributes d, q) ∧ Struct.Ahead padlength m q ps := by
  obtain ⟨hfixed, hrest⟩ := next_piece h
  have hcommon : Struct.InBlock m p (Struct.bytes o (commonMembers junk d ++ _)) := hfixed
  have hminRate : o.load 2 m (p + 36) = .ok d.minSampleRate := card16 hfixed (by rfl) hmin
  have hmaxRate : o.load 2 m (p + 38) = .ok d.maxSampleRate := card16 hfixed (by rfl) hmax
  have hlocation : o.load 4 m (p + 28) = .ok d.location := card32 hfixed (by rfl) hd.location
  have hgain : o.load 4 m (p + 32) = .ok d.gain := card32 hfixed (by rfl) hd.gain
  have hlineMode : o.load 1 m (p + 40) = .ok d.lineMode := card8 hfixed (by rfl) hd.lineMode
  have hnumChildren : o.load 1 m (p + 41) = .ok d.children.length := card8 hfixed (by rfl) hd.children
  have hpad : pad4 sizeofAuDeviceAttributes = sizeofAuDeviceAttributes := by decide
  rw [length_deviceMembers, hpad] at hrest
  obtain ⟨hdescription, hrest⟩ := xferDescription_ok hrest
  obtain ⟨hchildren, hrest⟩ : xferIds o m d.children.length
        (p + sizeofAuDeviceAttributes + pad4 d.description.length) = .ok (d.children.map UInt32.toNat) ∧
      Struct.Ahead padlength m (p + sizeofAuDeviceAttributes + pad4 d.description.length +
        d.children.length * sizeofAuDeviceID) ps := by
    by_cases hnone : d.children.length = 0
    · rw [if_pos hnone] at hrest
      rw [List.eq_nil_of_length_eq_zero hnone]
      exact ⟨rfl, hrest⟩
    · rw [if_neg hnone] at hrest
      obtain ⟨hids, hrest⟩ := next_piece hrest
      rw [Struct.length_bytes, size_children, pad4_words] at hrest
      exact ⟨xferIds_ok hids, hrest⟩
  refine ⟨_, ?_, hrest⟩
  unfold xferDevice
  rw [xferCommonPart_ok hcommon hd, Exec.ok_bind, hminRate, Exec.ok_bind, hmaxRate, Exec.ok_bind, hlocation,
    Exec.ok_bind, hgain, Exec.ok_bind, hlineMode, Exec.ok_bind, hnumChildren, Exec.ok_bind]
  dsimp only [commonPart]
  rw [hdescription, Exec.ok_bind]
  dsimp only
  rw [hchildren]
  rfl

/-- The loop over some components. -/
theorem xferAll_ok {α : Type} {xfer : Nat → Exec (α × Nat)} {pieces : ComponentRec → List (List UInt8)}
    {attributes : ComponentRec → α} {cs : List ComponentRec}
    (hxfer : ∀ c ∈ cs, ∀ p ps, Struct.Ahead padlength m p (pieces c ++ ps) →
      ∃ q, xfer p = .ok (attributes c, q) ∧ Struct.Ahead padlength m q ps)
    (h : Struct.Ahead padlength m p (cs.flatMap pieces ++ ps)) :
    ∃ q, xferAll xfer cs.length p = .ok (cs.map attributes, q) ∧ Struct.Ahead padlength m q ps := by
  induction cs generalizing p with
  | nil => exact ⟨p, rfl, h⟩
  | cons c cs ih =>
    rw [List.flatMap_cons, List.append_assoc] at h
    obtain ⟨q, hq, hrest⟩ := hxfer c List.mem_cons_self p _ h
    obtain ⟨q', hq', hrest'⟩ := ih (fun c' hc' => hxfer c' (List.mem_cons_of_mem _ hc')) hrest
    refine ⟨q', ?_, hrest'⟩
    rw [List.length_cons, xferAll, hq, Exec.ok_bind]
    dsimp only
    rw [hq']
    rfl

/-- The length of a list that has room. -/
theorem count8 {n : Nat} (h : Struct.InBlock m p (Struct.bytes o l)) (hx : Struct.memberAt l k = some ⟨1, n % 2 ^ 8⟩)
    (hn : n < 2 ^ 8) : o.load 1 m (p + k) = .ok n := by
  rw [card8 h hx (Nat.mod_lt _ (by decide)), Nat.mod_eq_of_lt hn]

section Block
variable {cfg : Configuration} {client : Client} {front rest later : List UInt8}

/-- What the client gets if all of it has room. -/
def receivedSetup (cfg : Configuration) : ConnSetup where
  minSampleRate := (auSetup cfg).minSampleRate
  maxSampleRate := (auSetup cfg).maxSampleRate
  maxTracks := auMaxTracks
  formats := cfg.auFormats
  elementTypes := cfg.auElementTypes
  waveForms := cfg.auWaveForms
  actions := cfg.auActions
  devices := cfg.auServerDevices.map fun c => deviceAttributes (c.refresh cfg.hardware)
  buckets := cfg.auServerBuckets.map bucketAttributes

theorem same_receivedSetup (cfg : Configuration) : Same cfg (receivedSetup cfg) := ⟨rfl, rfl, rfl, rfl, rfl, rfl⟩

theorem xferConnectionSetup_ok (h : Fits cfg)
    (hfixed : Struct.InBlock m 0 (Struct.bytes o (setupFor cfg client).members))
    (hrest : Struct.Ahead padlength m p ([cfg.auFormats, cfg.auElementTypes, cfg.auWaveForms, cfg.auActions] ++
      ((cfg.auServerDevices.flatMap fun c => devicePieces o junk (c.refresh cfg.hardware)) ++
        cfg.auServerBuckets.flatMap (bucketPieces o junk)))) :
    xferConnectionSetup o m p = .ok (receivedSetup cfg) := by
  have hminRate : o.load 2 m (0 + 12) = .ok (auSetup cfg).minSampleRate :=
    card16 hfixed (by rfl) (Nat.mod_lt _ (by decide))
  have hmaxRate : o.load 2 m (0 + 14) = .ok (auSetup cfg).maxSampleRate :=
    card16 hfixed (by rfl) (Nat.mod_lt _ (by decide))
  have hmaxTracks : o.load 1 m (0 + 20) = .ok auMaxTracks := card8 hfixed (by rfl) (by decide)
  have hnumFormats : o.load 1 m (0 + 21) = .ok cfg.auFormats.length := count8 hfixed (by rfl) h.formats
  have hnumElementTypes : o.load 1 m (0 + 22) = .ok cfg.auElementTypes.length := count8 hfixed (by rfl) h.elementTypes
  have hnumWaveForms : o.load 1 m (0 + 23) = .ok cfg.auWaveForms.length := count8 hfixed (by rfl) h.waveForms
  have hnumActions : o.load 1 m (0 + 24) = .ok cfg.auActions.length := count8 hfixed (by rfl) h.actions
  have hnumDevices : o.load 1 m (0 + 25) = .ok cfg.auServerDevices.length := count8 hfixed (by rfl) h.devices
  have hnumBuckets : o.load 1 m (0 + 26) = .ok cfg.auServerBuckets.length := count8 hfixed (by rfl) h.buckets
  obtain ⟨hformats, hrest⟩ := xferList_ok hrest
  obtain ⟨helementTypes, hrest⟩ := xferList_ok hrest
  obtain ⟨hwaveForms, hrest⟩ := xferList_ok hrest
  obtain ⟨hactions, hrest⟩ := xferList_ok hrest
  obtain ⟨q, hdevices, hrest⟩ := xferAll_ok (fun c hc p ps hp => xferDevice_ok hp (cfg.devices_typed c hc)
    (by rw [(refresh_rates _ c).1]; exact (h.deviceRates c hc).1)
    (by rw [(refresh_rates _ c).2]; exact (h.deviceRates c hc).2)) hrest
  rw [← List.append_nil (cfg.auServerBuckets.flatMap _)] at hrest
  obtain ⟨q', hbuckets, -⟩ := xferAll_ok
    (fun c hc p ps hp => xferBucket_ok hp (cfg.buckets_typed c hc) (h.bucketRates c hc)) hrest
  unfold xferConnectionSetup
  rw [hminRate, Exec.ok_bind, hmaxRate, Exec.ok_bind, hmaxTracks, Exec.ok_bind, hnumFormats, Exec.ok_bind,
    hnumElementTypes, Exec.ok_bind, hnumWaveForms, Exec.ok_bind, hnumActions, Exec.ok_bind, hnumDevices, Exec.ok_bind,
    hnumBuckets, Exec.ok_bind, hformats, Exec.ok_bind]
  dsimp only
  rw [helementTypes, Exec.ok_bind]
  dsimp only
  rw [hwaveForms, Exec.ok_bind]
  dsimp only
  rw [hactions, Exec.ok_bind]
  dsimp only
  rw [hdevices, Exec.ok_bind]
  dsimp only
  rw [hbuckets]
  rfl

theorem auRead_append {n : Nat} (h : front.length = n) (rest : List UInt8) :
    auRead n (front ++ rest) = .ok (front, rest) := by
  subst h
  unfold auRead
  rw [if_pos (by rw [List.length_append]; omega), List.take_left, List.drop_left]

/-- The client reads what there is for it. -/
theorem auOpenServer_ok (h : Fits cfg) (hfront : front = Struct.bytes o (auSetupPrefix cfg).members)
    (hrest : Struct.Padded padlength (Struct.bytes o (setupFor cfg client).members :: variablePieces cfg o junk) rest) :
    ∃ s, auOpenServer o (front ++ (rest ++ later)) = .ok (some s, later) ∧ Same cfg s.connsetup := by
  have hlen : rest.length = 4 * (auSetupPrefix cfg).length := by
    rw [hrest.length, paddedSize_pieces h.lists, auSetupPrefix_length_eq h.size]
  have hin : Struct.InBlock front 0 (Struct.bytes o (auSetupPrefix cfg).members) :=
    ⟨[], [], by rw [hfront, List.append_nil, List.nil_append], rfl⟩
  have hsuccess : o.load 1 front (0 + 0) = .ok auTrue := card8 hin (by rfl) (by decide)
  have hmajor : o.load 2 front (0 + 2) = .ok auProtocolMajorVersion := card16 hin (by rfl) (by decide)
  have hminor : o.load 2 front (0 + 4) = .ok auProtocolMinorVersion := card16 hin (by rfl) (by decide)
  have hlength : o.load 2 front (0 + 6) = .ok (auSetupPrefix cfg).length :=
    card16 hin (by rfl) (auSetupPrefix_length_lt cfg)
  have hahead : Struct.Ahead padlength rest 0
      (Struct.bytes o (setupFor cfg client).members :: variablePieces cfg o junk) := ⟨[], rest, rfl, rfl, hrest⟩
  obtain ⟨hfixed, hvariable⟩ := next_piece hahead
  have hrelease : o.load 4 rest (0 + 0) = .ok vendorRelease := card32 hfixed (by rfl) (by decide)
  have hbase : o.load 4 rest (0 + 4) = .ok (client.clientAsMask % 256 ^ 4) := hfixed.field (by rfl)
  have hmask : o.load 4 rest (0 + 8) = .ok resourceIdMask := card32 hfixed (by rfl) (by decide)
  have hnbytes : o.load 2 rest (0 + 16) = .ok (auSetup cfg).nbytesVendor :=
    card16 hfixed (by rfl) (Nat.mod_lt _ (by decide))
  have hmax : o.load 2 rest (0 + 18) = .ok maxRequestSize := card16 hfixed (by rfl) (by decide)
  have hpad : 0 + pad4 sizeofAuConnSetup = sizeofAuConnSetup := by decide
  rw [length_setupMembers, hpad, variablePieces_eq h.lists] at hvariable
  obtain ⟨hvendor, hvariable⟩ := next_piece hvariable
  have hload := hvendor.load
  rw [length_vendor] at hload hvariable
  refine ⟨{
    protoMajorVersion := auProtocolMajorVersion
    protoMinorVersion := auProtocolMinorVersion
    release := vendorRelease
    resourceBase := client.clientAsMask % 256 ^ 4
    resourceMask := resourceIdMask
    maxRequestSize
    vendor := (cfg.auVendorString.take (auSetup cfg).nbytesVendor).takeWhile (· ≠ 0)
    connsetup := receivedSetup cfg }, ?_, same_receivedSetup cfg⟩
  unfold auOpenServer
  rw [auRead_append (by rw [hfront, length_prefixMembers]), Exec.ok_bind]
  dsimp only
  rw [hsuccess, Exec.ok_bind, hmajor, Exec.ok_bind, hminor, Exec.ok_bind, hlength, Exec.ok_bind, auRead_append hlen,
    Exec.ok_bind]
  dsimp only
  rw [if_neg (by simp), hrelease, Exec.ok_bind, hbase, Exec.ok_bind, hmask, Exec.ok_bind, hnbytes, Exec.ok_bind, hmax,
    Exec.ok_bind, hload, Exec.ok_bind, xferConnectionSetup_ok h hfixed hvariable]
  rfl

end Block
end Received

/-! ### What a client can get at all -/

section Bounds
variable {o : ByteOrder} {m : List UInt8} {n p q v : Nat} {l : List UInt8}

theorem load_lt {w : Nat} (h : o.load w m p = .ok v) : v < 256 ^ w := by
  by_cases hp : p + w ≤ m.length
  · rw [ByteOrder.load_ok hp] at h
    cases h
    exact ByteOrder.read_lt hp
  · rw [ByteOrder.load_fault (by omega)] at h
    cases h

theorem xferList_bound (h : xferList m n p = .ok (l, q)) : l.length = n ∧ l.length ≤ m.length := by
  obtain ⟨l', hload, h⟩ := Exec.bind_eq_ok.1 h
  cases h
  obtain ⟨hle, rfl⟩ := Memory.load_eq_ok.1 hload
  rw [Memory.length_slice hle]
  omega

theorem xferDescription_bound (h : xferDescription m n p = .ok (l, q)) : l.length ≤ m.length := by
  unfold xferDescription at h
  split at h
  · cases h
    exact Nat.zero_le _
  · exact (xferList_bound h).2

theorem xferAll_bound {α : Type} {xfer : Nat → Exec (α × Nat)} {P : α → Prop} {as : List α}
    (hxfer : ∀ p a q, xfer p = .ok (a, q) → P a) (h : xferAll xfer n p = .ok (as, q)) :
    as.length = n ∧ ∀ a ∈ as, P a := by
  induction n generalizing p as with
  | zero =>
    cases h
    exact ⟨rfl, nofun⟩
  | succ n ih =>
    rw [xferAll] at h
    obtain ⟨⟨a, p'⟩, ha, h⟩ := Exec.bind_eq_ok.1 h
    obtain ⟨⟨as', q'⟩, has, h⟩ := Exec.bind_eq_ok.1 h
    cases h
    obtain ⟨hlen, hall⟩ := ih has
    exact ⟨by rw [List.length_cons, hlen], List.forall_mem_cons.2 ⟨hxfer p a p' ha, hall⟩⟩

theorem xferDevice_bound {d : AuDeviceAttributes} (h : xferDevice o m p = .ok (d, q)) :
    d.minSampleRate < 2 ^ 16 ∧ d.maxSampleRate < 2 ^ 16 ∧ d.description.length ≤ m.length := by
  unfold xferDevice at h
  obtain ⟨common, -, h⟩ := Exec.bind_eq_ok.1 h
  obtain ⟨minSampleRate, hmin, h⟩ := Exec.bind_eq_ok.1 h
  obtain ⟨maxSampleRate, hmax, h⟩ := Exec.bind_eq_ok.1 h
  obtain ⟨location, -, h⟩ := Exec.bind_eq_ok.1 h
  obtain ⟨gain, -, h⟩ := Exec.bind_eq_ok.1 h
  obtain ⟨lineMode, -, h⟩ := Exec.bind_eq_ok.1 h
  obtain ⟨numChildren, -, h⟩ := Exec.bind_eq_ok.1 h
  obtain ⟨⟨description, q'⟩, hdescription, h⟩ := Exec.bind_eq_ok.1 h
  obtain ⟨children, -, h⟩ := Exec.bind_eq_ok.1 h
  cases h
  exact ⟨load_lt hmin, load_lt hmax, xferDescription_bound hdescription⟩

theorem xferBucket_bound {b : AuBucketAttributes} (h : xferBucket o m p = .ok (b, q)) :
    b.sampleRate < 2 ^ 16 ∧ b.description.length ≤ m.length := by
  unfold xferBucket at h
  obtain ⟨common, -, h⟩ := Exec.bind_eq_ok.1 h
  obtain ⟨sampleRate, hrate, h⟩ := Exec.bind_eq_ok.1 h
  obtain ⟨numSamples, -, h⟩ := Exec.bind_eq_ok.1 h
  obtain ⟨⟨description, q'⟩, hdescription, h⟩ := Exec.bind_eq_ok.1 h
  cases h
  exact ⟨load_lt hrate, xferDescription_bound hdescription⟩

/-- What the widths of the numbers and the size of the block leave room for. -/
structure Bounded (m : List UInt8) (s : ConnSetup) : Prop where
  formats : s.formats.length < 2 ^ 8
  elementTypes : s.elementTypes.length < 2 ^ 8
  waveForms : s.waveForms.length < 2 ^ 8
  actions : s.actions.length < 2 ^ 8
  numDevices : s.devices.length < 2 ^ 8
  numBuckets : s.buckets.length < 2 ^ 8
  devices : ∀ d ∈ s.devices, d.minSampleRate < 2 ^ 16 ∧ d.maxSampleRate < 2 ^ 16 ∧ d.description.length ≤ m.length
  buckets : ∀ b ∈ s.buckets, b.sampleRate < 2 ^ 16 ∧ b.description.length ≤ m.length

theorem xferConnectionSetup_bound {s : ConnSetup} (h : xferConnectionSetup o m p = .ok s) : Bounded m s := by
  unfold xferConnectionSetup at h
  obtain ⟨minSampleRate, -, h⟩ := Exec.bind_eq_ok.1 h
  obtain ⟨maxSampleRate, -, h⟩ := Exec.bind_eq_ok.1 h
  obtain ⟨maxTracks, -, h⟩ := Exec.bind_eq_ok.1 h
  obtain ⟨numFormats, hnumFormats, h⟩ := Exec.bind_eq_ok.1 h
  obtain ⟨numElementTypes, hnumElementTypes, h⟩ := Exec.bind_eq_ok.1 h
  obtain ⟨numWaveForms, hnumWaveForms, h⟩ := Exec.bind_eq_ok.1 h
  obtain ⟨numActions, hnumActions, h⟩ := Exec.bind_eq_ok.1 h
  obtain ⟨numDevices, hnumDevices, h⟩ := Exec.bind_eq_ok.1 h
  obtain ⟨numBuckets, hnumBuckets, h⟩ := Exec.bind_eq_ok.1 h
  obtain ⟨⟨formats, p₁⟩, hformats, h⟩ := Exec.bind_eq_ok.1 h
  obtain ⟨⟨elementTypes, p₂⟩, helementTypes, h⟩ := Exec.bind_eq_ok.1 h
  obtain ⟨⟨waveForms, p₃⟩, hwaveForms, h⟩ := Exec.bind_eq_ok.1 h
  obtain ⟨⟨actions, p₄⟩, hactions, h⟩ := Exec.bind_eq_ok.1 h
  obtain ⟨⟨devices, p₅⟩, hdevices, h⟩ := Exec.bind_eq_ok.1 h
  obtain ⟨⟨buckets, p₆⟩, hbuckets, h⟩ := Exec.bind_eq_ok.1 h
  cases h
  obtain ⟨hlenDevices, hdevices⟩ := xferAll_bound (fun p d q => xferDevice_bound) hdevices
  obtain ⟨hlenBuckets, hbuckets⟩ := xferAll_bound (fun p b q => xferBucket_bound) hbuckets
  exact {
    formats := (xferList_bound hformats).1 ▸ load_lt hnumFormats
    elementTypes := (xferList_bound helementTypes).1 ▸ load_lt hnumElementTypes
    waveForms := (xferList_bound hwaveForms).1 ▸ load_lt hnumWaveForms
    actions := (xferList_bound hactions).1 ▸ load_lt hnumActions
    numDevices := hlenDevices ▸ load_lt hnumDevices
    numBuckets := hlenBuckets ▸ load_lt hnumBuckets
    devices := hdevices
    buckets := hbuckets }

theorem auRead_length {front rest stream : List UInt8} (h : auRead n stream = .ok (front, rest)) :
    front.length = n := by
  unfold auRead at h
  split at h
  · cases h
    exact List.length_take_of_le ‹_›
  · cases h

/-- A client's server is from a block of less than 256 KB. -/
theorem auOpenServer_bound {stream later : List UInt8} {s : AuServer}
    (h : auOpenServer o stream = .ok (some s, later)) : ∃ m, m.length < 2 ^ 18 ∧ Bounded m s.connsetup := by
  unfold auOpenServer at h
  obtain ⟨⟨front, stream₁⟩, -, h⟩ := Exec.bind_eq_ok.1 h
  obtain ⟨success, -, h⟩ := Exec.bind_eq_ok.1 h
  obtain ⟨protoMajorVersion, -, h⟩ := Exec.bind_eq_ok.1 h
  obtain ⟨protoMinorVersion, -, h⟩ := Exec.bind_eq_ok.1 h
  obtain ⟨length, hlength, h⟩ := Exec.bind_eq_ok.1 h
  obtain ⟨⟨setup, stream₂⟩, hsetup, h⟩ := Exec.bind_eq_ok.1 h
  have hlt : length < 256 ^ 2 := load_lt hlength
  dsimp only at h
  by_cases hsuccess : success ≠ auTrue
  · rw [if_pos hsuccess] at h
    cases h
  · rw [if_neg hsuccess] at h
    obtain ⟨release, -, h⟩ := Exec.bind_eq_ok.1 h
    obtain ⟨resourceBase, -, h⟩ := Exec.bind_eq_ok.1 h
    obtain ⟨resourceMask, -, h⟩ := Exec.bind_eq_ok.1 h
    obtain ⟨nbytesVendor, -, h⟩ := Exec.bind_eq_ok.1 h
    obtain ⟨maxRequestSize, -, h⟩ := Exec.bind_eq_ok.1 h
    obtain ⟨vendor, -, h⟩ := Exec.bind_eq_ok.1 h
    obtain ⟨connsetup, hconnsetup, h⟩ := Exec.bind_eq_ok.1 h
    cases h
    exact ⟨setup, by rw [auRead_length hsetup]; omega, xferConnectionSetup_bound hconnsetup⟩

end Bounds

/-! ### The round trip -/

section RoundTrip
variable {o : ByteOrder} {cfg : Configuration} {client : Client} {junk : Junk}

theorem roundTrips_of_fits (h : Fits cfg) : RoundTrips o cfg client junk := by
  have hsent : auSendInitResponse o cfg client junk = .ok (Struct.bytes client.order (auSetupPrefix cfg).members ::
      Struct.bytes client.order (setupFor cfg client).members :: variablePieces cfg client.order junk) := by
    refine auSendInitResponse_ok (fun c hc => ?_) fun c hc => ?_
    · rw [refresh_description]
      exact (description_lt_of_device h.size hc).trans (by decide)
    · exact (description_lt_of_bucket h.size hc).trans (by decide)
  refine ⟨_, hsent, ?_⟩
  rintro bs ⟨gap, rest, rfl, hgap, hrest⟩
  rw [length_prefixMembers] at hgap
  obtain rfl := List.eq_nil_of_length_eq_zero hgap
  rw [List.nil_append]
  refine ⟨?_, fun later => ?_⟩
  · rw [List.length_append, length_prefixMembers, hrest.length, paddedSize_pieces h.lists,
      auSetupPrefix_length_eq h.size]
  · rw [List.append_assoc]
    exact auOpenServer_ok h rfl hrest

/-- Nothing more has room: what the client gets is bounded, and what is sent is as long as it says. -/
theorem fits_of_roundTrips (h : RoundTrips o cfg client junk) : Fits cfg := by
  obtain ⟨pieces, hsend, hall⟩ := h
  obtain ⟨bs, hbs⟩ := Struct.exists_padded padlength pieces
  obtain ⟨hlen, hopen⟩ := hall bs hbs
  obtain ⟨s, hs, hsame⟩ := hopen []
  obtain ⟨m, hm, hbound⟩ := auOpenServer_bound hs
  have hlists : ListsFit cfg :=
    ⟨hsame.formats ▸ hbound.formats, hsame.elementTypes ▸ hbound.elementTypes, hsame.waveForms ▸ hbound.waveForms,
      hsame.actions ▸ hbound.actions⟩
  have hdevice {c : ComponentRec} (hc : c ∈ cfg.auServerDevices) :=
    hbound.devices (deviceAttributes (c.refresh cfg.hardware)) (by
      rw [hsame.devices]
      exact List.mem_map_of_mem hc)
  have hbucket {c : ComponentRec} (hc : c ∈ cfg.auServerBuckets) :=
    hbound.buckets (bucketAttributes c) (by
      rw [hsame.buckets]
      exact List.mem_map_of_mem hc)
  have hsent := @auSendInitResponse_ok o cfg client junk (fun c hc => ((hdevice hc).2.2.trans_lt hm).trans (by decide))
    fun c hc => ((hbucket hc).2.trans_lt hm).trans (by decide)
  have hsize : cfg.size = 4 * (auSetupPrefix cfg).length := by
    cases hsend.symm.trans hsent
    rw [hbs.length, Struct.paddedSize_cons, length_prefixMembers, paddedSize_pieces hlists] at hlen
    have hpad : padlength sizeofAuConnSetupPrefix = 0 := by decide
    omega
  exact {
    formats := hlists.formats
    elementTypes := hlists.elementTypes
    waveForms := hlists.waveForms
    actions := hlists.actions
    devices := by simpa [hsame.devices] using hbound.numDevices
    buckets := by simpa [hsame.buckets] using hbound.numBuckets
    deviceRates := fun c hc => by
      obtain ⟨hmin, hmax, -⟩ := hdevice hc
      dsimp only [deviceAttributes] at hmin hmax
      rw [(refresh_rates _ c).1] at hmin
      rw [(refresh_rates _ c).2] at hmax
      exact ⟨hmin, hmax⟩
    bucketRates := fun c hc => (hbucket hc).1
    size := by
      have hlt := auSetupPrefix_length_lt cfg
      omega }

end RoundTrip

/-- A client gets what the server has, and no more is sent than that, exactly if the server's lists, rates and size have
room in what is sent. -/
theorem connectionSetup_iff (o : ByteOrder) (cfg : Configuration) (client : Client) (junk : Junk) :
    RoundTrips o cfg client junk ↔ Fits cfg := ⟨fits_of_roundTrips, roundTrips_of_fits⟩

/-- A server of 256 formats says that it has none. -/
theorem many_formats : ¬ ∀ o cfg client junk, RoundTrips o cfg client junk := by
  intro h
  let cfg : Configuration := {
    auFormats := List.replicate 256 1
    auElementTypes := []
    auWaveForms := []
    auActions := []
    auServerDevices := []
    auServerBuckets := []
    auVendorString := []
    auServerMinRate := 5000
    auServerMaxRate := 44100
    hardware := ⟨0, 0, 0, 0, 0⟩
    devices_typed := nofun
    buckets_typed := nofun }
  have hfits : Fits cfg := fits_of_roundTrips (h .little cfg ⟨.little, 0⟩ fun _ _ => 0)
  exact absurd hfits.formats (by rw [List.length_replicate]; decide)

end Nas.ConnectionSetup
