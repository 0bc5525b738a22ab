/-
A reference platform.

The theorems of the development hold for every platform.  This one is small and
executable: a hash that sums bytes, one-byte signatures, four-byte firmware
information records that are looked for at two offsets, and a first-stage check
that demands a fixed payload.  It keeps the laws that some theorems ask of the
SDK.
-/
import RuuviMcuboot.Image.Encode
import RuuviMcuboot.Platform.World

namespace RuuviMcuboot
namespace Reference

open Binary

/-- The sum of the bytes, repeated to the length of a digest. -/
def sumSha (size : Nat) : StreamHash size where
  Ctx := Nat
  init := 0
  update c b := b.foldl (fun n x => n + x.toNat) c
  finish c := List.replicate size (UInt8.ofNat c)
  update_nil _ := rfl
  update_append _ _ _ := List.foldl_append.symm
  finish_length _ := List.length_replicate

def infoSize : Nat := 4

/-- Magic, version, address and validity, one byte each. -/
def decodeInfo (b : Bytes) : FwInfo where
  magic := b.take 1
  version := UInt32.ofNat (b.getD 1 0).toNat
  address := UInt32.ofNat (b.getD 2 0).toNat
  valid := b.getD 3 0 == 1

def infoMagic : Bytes := [0xA5]

/-- Whether a record starts at the offset. -/
def hasInfo (b : Bytes) (off : Nat) : Bool :=
  decide (off + infoSize ≤ b.length) && slice b off 1 == infoMagic

/-- The offset of the record: the start of the image or the end of its header. -/
def infoOffset (b : Bytes) : Option Nat :=
  if hasInfo b 0 then some 0
  else if hasInfo b imageHeaderSize then some imageHeaderSize
  else none

def findInfo (b : Bytes) : Option FwInfo :=
  (infoOffset b).map fun off => decodeInfo (slice b off infoSize)

/-- Clear the validity byte of the record that is found. -/
def invalidate (b : Bytes) : Bytes :=
  match infoOffset b with
  | none => b
  | some off => overlay b (off + 3) [0]

/-- The image behind the record is complete: its length byte counts the bytes up
to its end, which all have the value `0x5A`. -/
def validateFirmware (_dst : UInt32) (b : Bytes) (off : Nat) : Bool :=
  let n := (b.getD (off + 4) 0).toNat
  slice b (off + 5) (n - 5) == List.replicate (n - 5) 0x5A

def faOff : FaId → UInt32
  | .s0 => 0x10
  | .s1 => 0x20
  | .mcubootPrimary => 0x1000
  | .mcubootSecondary => 0x2000
  | .littlefsStorage1 => 0x3000

/-- The platform with a shared buffer of `bufSize` bytes. -/
def platform (bufSize : Nat) : Platform where
  faOff := faOff
  sharedImgBufSize := bufSize
  fwInfoSize := infoSize
  fwInfoMagic := infoMagic
  fwInfoAllowedOffsets := [0, imageHeaderSize]
  fwInfoDecode := decodeInfo
  fwInfoFind := findInfo
  fwInfoInvalidate := invalidate
  blValidateFirmware := validateFirmware
  bootImageLoadHeader _ b :=
    let hdr := ImageHeader.decode b
    if hdr.ihMagic = IMAGE_MAGIC then some hdr else none
  hashAlg := .sha256
  signAlg := .ec
  sha := sumSha _
  bootutilKeys := [[1]]
  bootutilVerifySig hash sig _ := if sig = hash.take 1 then .success else .failure
  allowRogueTlvs := false
  downgradePrevention := false
  versionCmpUseBuildNumber := false
  mcubootS0S1ImageVersion := { ivMajor := 0, ivMinor := 0, ivRevision := 0, ivBuildNum := 0 }
  ruuviHwRevIdTlv := 0xA0
  ruuviHwRevNameTlv := 0xA1

/-! ## Images -/

/-- A header of 32 bytes in front of a payload of eight, with no protected TLVs. -/
def imageHeader : ImageHeader :=
  { ImageHeader.zero with ihMagic := IMAGE_MAGIC, ihHdrSize := 32, ihImgSize := 8 }

def imageHeaderBytes : Bytes :=
  leBytes 4 IMAGE_MAGIC.toNat ++ leBytes 4 0 ++ leBytes 2 32 ++ leBytes 2 0 ++ leBytes 4 8 ++
    List.replicate 16 0

/-- Header, firmware information and two vectors. -/
def imageBody (version : UInt8) (resetAddr : UInt32) : Bytes :=
  imageHeaderBytes ++ [0xA5, version, 0, 1] ++ leBytes 4 resetAddr.toNat

theorem digest_length_lt (m : Bytes) : ((sumSha 32).digest m).length < 65536 := by
  rw [StreamHash.digest_length]
  decide

def digestTlv (body : Bytes) : Tlv :=
  { type := IMAGE_TLV_SHA256, payload := (sumSha 32).digest body, payload_lt := digest_length_lt _ }

/-- The hash of a key. -/
def keyTlv (key : Bytes) : Tlv :=
  { type := IMAGE_TLV_KEYHASH, payload := (sumSha 32).digest key, payload_lt := digest_length_lt _ }

/-- The signature that is accepted for the body. -/
def sigTlv (body : Bytes) : Tlv where
  type := IMAGE_TLV_ECDSA_SIG
  payload := ((sumSha 32).digest body).take 1
  payload_lt := by
    have := digest_length_lt body
    rw [List.length_take]
    omega

/-- The digest, the key of the platform and the signature under it. -/
def signedTlvs (body : Bytes) : List Tlv := [digestTlv body, keyTlv [1], sigTlv body]

def signedFile : FileData where
  bytes := imageBytes (imageBody 1 0x1000) none (signedTlvs (imageBody 1 0x1000)) []
  size_le := by decide +kernel

theorem signedFile_wellFormed :
    WellFormedImage signedFile.bytes imageHeader (imageBody 1 0x1000) none
      (signedTlvs (imageBody 1 0x1000)) [] :=
  ⟨rfl, by decide, by decide, by decide +kernel⟩

end Reference
end RuuviMcuboot
