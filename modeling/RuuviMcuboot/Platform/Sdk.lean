/-
What the bootloader uses from outside its own repository: the partition layout,
the nRF Connect SDK functions on firmware information records, the crypto of
`bootutil`, and the build configuration.  Everything here is a parameter of the
model.  A theorem that relies on how one of these behaves says so in a hypothesis.
-/
import RuuviMcuboot.Image.Format

namespace RuuviMcuboot

open Binary

/-! ## Names -/

/-- The flash partitions the updater touches (`PM_ID`). -/
inductive FaId where
  | s0
  | s1
  | mcubootPrimary
  | mcubootSecondary
  | littlefsStorage1
  deriving DecidableEq, Repr

/-- The update files (`RUUVI_FW_*_FILE_NAME`). -/
inductive UpdateFile where
  | mcuboot0
  | mcuboot1
  | loader
  | app
  deriving DecidableEq, Repr

/-- `struct flash_area` as far as the code reads it. -/
structure FlashArea where
  faId : FaId
  faOff : UInt32
  faSize : Nat

/-! ## SDK data -/

/-- `struct fw_info` as far as the code and the first-stage bootloader read it.
`valid` says that the record has not been invalidated. -/
structure FwInfo where
  magic : Bytes
  version : UInt32
  address : UInt32
  valid : Bool
  deriving DecidableEq, Repr, Inhabited

/-- The result of a fault-hardened check. -/
inductive FihRet where
  | success
  | failure
  deriving DecidableEq, Repr

/-- A hash absorbed piece by piece (`bootutil_sha_*`): absorbing two pieces in a
row is absorbing their concatenation, and a digest has a fixed length. -/
structure StreamHash (size : Nat) where
  Ctx : Type
  init : Ctx
  update : Ctx → Bytes → Ctx
  finish : Ctx → Bytes
  update_nil : ∀ c, update c [] = c
  update_append : ∀ c a b, update (update c a) b = update c (a ++ b)
  finish_length : ∀ c, (finish c).length = size

/-- The digest of a whole message. -/
def StreamHash.digest {size : Nat} (sha : StreamHash size) (m : Bytes) : Bytes :=
  sha.finish (sha.update sha.init m)

theorem StreamHash.digest_length {size : Nat} (sha : StreamHash size) (m : Bytes) :
    (sha.digest m).length = size := sha.finish_length _

structure Platform where
  /-- Start address of a partition. -/
  faOff : FaId → UInt32
  /-- `sizeof(g_shared_img_buf)`. -/
  sharedImgBufSize : Nat
  /-- `sizeof(struct fw_info)`. -/
  fwInfoSize : Nat
  /-- The first `CONFIG_FW_INFO_MAGIC_LEN` bytes of `FIRMWARE_INFO_MAGIC`. -/
  fwInfoMagic : Bytes
  /-- `fw_info_allowed_offsets`. -/
  fwInfoAllowedOffsets : List Nat
  /-- The fields of a firmware information record. -/
  fwInfoDecode : Bytes → FwInfo
  /-- `fw_info_find` on the memory that starts at the given address. -/
  fwInfoFind : Bytes → Option FwInfo
  /-- `fw_info_invalidate` on the record found in the given memory. -/
  fwInfoInvalidate : Bytes → Bytes
  /-- `bl_validate_firmware`: the destination address, the memory that holds the
  image and the offset of the image in it. -/
  blValidateFirmware : UInt32 → Bytes → Nat → Bool
  /-- `boot_image_load_header`: the size of the area and its first bytes. -/
  bootImageLoadHeader : Nat → Bytes → Option ImageHeader
  hashAlg : HashAlg
  signAlg : SignAlg
  sha : StreamHash hashAlg.imageHashSize
  /-- `bootutil_keys`, as the key bytes that are hashed. -/
  bootutilKeys : List Bytes
  /-- `bootutil_verify_sig`: hash, signature and key id. -/
  bootutilVerifySig : Bytes → Bytes → UInt8 → FihRet
  /-- `ALLOW_ROGUE_TLVS`. -/
  allowRogueTlvs : Bool
  /-- `MCUBOOT_DOWNGRADE_PREVENTION`. -/
  downgradePrevention : Bool
  /-- `MCUBOOT_VERSION_CMP_USE_BUILD_NUMBER`. -/
  versionCmpUseBuildNumber : Bool
  /-- `mcuboot_s0_s1_image_version` of the running image. -/
  mcubootS0S1ImageVersion : ImageVersion
  /-- `IMAGE_TLV_RUUVI_HW_REV_ID`. -/
  ruuviHwRevIdTlv : UInt16
  /-- `IMAGE_TLV_RUUVI_HW_REV_NAME`. -/
  ruuviHwRevNameTlv : UInt16

namespace Platform

variable (P : Platform)

def imageHashSize : Nat := P.hashAlg.imageHashSize
def expectedHashTlv : UInt16 := P.hashAlg.expectedHashTlv
def expectedSigTlv : UInt16 := P.signAlg.expectedSigTlv
def bootutilKeyCnt : Nat := P.bootutilKeys.length

theorem tlvs_distinct : P.expectedHashTlv ≠ IMAGE_TLV_KEYHASH ∧
    P.expectedSigTlv ≠ IMAGE_TLV_KEYHASH ∧ P.expectedSigTlv ≠ P.expectedHashTlv :=
  expected_tlvs_distinct P.hashAlg P.signAlg

/-- What the first-stage bootloader starts: the slot holds a firmware information
record that has not been invalidated, and the image it describes is complete and
signed.  `fa` is the slot and `content` its bytes. -/
def bootable (fa : FaId) (content : Bytes) : Bool :=
  match P.fwInfoFind content with
  | none => false
  | some info => info.valid && P.blValidateFirmware info.address content
      (info.address - P.faOff fa).toNat

end Platform

end RuuviMcuboot
