/-
The MCUboot image format: header, TLV records and their type numbers
(`bootutil/image.h`), and the build options that select hash and signature
(`bootutil/crypto/sha.h`, `file_img_validate.c`).
-/
import RuuviMcuboot.Binary.Bytes

namespace RuuviMcuboot

open Binary

/-! ## The header -/

structure ImageVersion where
  ivMajor : UInt8
  ivMinor : UInt8
  ivRevision : UInt16
  ivBuildNum : UInt32
  deriving DecidableEq, Repr, Inhabited

structure ImageHeader where
  ihMagic : UInt32
  ihLoadAddr : UInt32
  ihHdrSize : UInt16
  ihProtectTlvSize : UInt16
  ihImgSize : UInt32
  ihFlags : UInt32
  ihVer : ImageVersion
  deriving DecidableEq, Repr, Inhabited

/-- `sizeof(struct image_header)`, padding included. -/
def imageHeaderSize : Nat := 32

def ImageHeader.decode (b : Bytes) : ImageHeader where
  ihMagic := le32 b 0
  ihLoadAddr := le32 b 4
  ihHdrSize := le16 b 8
  ihProtectTlvSize := le16 b 10
  ihImgSize := le32 b 12
  ihFlags := le32 b 16
  ihVer :=
    { ivMajor := b.getD 20 0
      ivMinor := b.getD 21 0
      ivRevision := le16 b 22
      ivBuildNum := le32 b 24 }

/-- The zero-initialised header the callers start from. -/
def ImageHeader.zero : ImageHeader := ImageHeader.decode []

def IMAGE_MAGIC : UInt32 := 0x96f3b83d
def IMAGE_F_NON_BOOTABLE : UInt32 := 0x00000010

/-! ## The TLV area -/

/-- `struct image_tlv_info`, the record in front of each TLV list. -/
structure ImageTlvInfo where
  itMagic : UInt16
  itTlvTot : UInt16
  deriving DecidableEq, Repr

def ImageTlvInfo.decode (b : Bytes) : ImageTlvInfo :=
  { itMagic := le16 b 0, itTlvTot := le16 b 2 }

/-- `struct image_tlv`, the record in front of each TLV payload. -/
structure ImageTlv where
  itType : UInt16
  itLen : UInt16
  deriving DecidableEq, Repr

def ImageTlv.decode (b : Bytes) : ImageTlv :=
  { itType := le16 b 0, itLen := le16 b 2 }

def IMAGE_TLV_INFO_MAGIC : UInt16 := 0x6907
def IMAGE_TLV_PROT_INFO_MAGIC : UInt16 := 0x6908

def IMAGE_TLV_KEYHASH : UInt16 := 0x01
def IMAGE_TLV_PUBKEY : UInt16 := 0x02
def IMAGE_TLV_SHA256 : UInt16 := 0x10
def IMAGE_TLV_SHA384 : UInt16 := 0x11
def IMAGE_TLV_SHA512 : UInt16 := 0x12
def IMAGE_TLV_RSA2048_PSS : UInt16 := 0x20
def IMAGE_TLV_ECDSA224 : UInt16 := 0x21
def IMAGE_TLV_ECDSA_SIG : UInt16 := 0x22
def IMAGE_TLV_RSA3072_PSS : UInt16 := 0x23
def IMAGE_TLV_ED25519 : UInt16 := 0x24
def IMAGE_TLV_ENC_RSA2048 : UInt16 := 0x30
def IMAGE_TLV_ENC_KW : UInt16 := 0x31
def IMAGE_TLV_ENC_EC256 : UInt16 := 0x32
def IMAGE_TLV_ENC_X25519 : UInt16 := 0x33
def IMAGE_TLV_SEC_CNT : UInt16 := 0x50
def IMAGE_TLV_ANY : UInt16 := 0xffff

/-! ## Hash and signature options -/

/-- The digest the build selects: `IMAGE_HASH_SIZE` and `EXPECTED_HASH_TLV`. -/
inductive HashAlg where
  | sha256
  | sha384
  | sha512
  deriving DecidableEq, Repr

def HashAlg.imageHashSize : HashAlg → Nat
  | .sha256 => 32
  | .sha384 => 48
  | .sha512 => 64

def HashAlg.expectedHashTlv : HashAlg → UInt16
  | .sha256 => IMAGE_TLV_SHA256
  | .sha384 => IMAGE_TLV_SHA384
  | .sha512 => IMAGE_TLV_SHA512

/-- The signature scheme the build selects (`MCUBOOT_SIGN_*`). -/
inductive SignAlg where
  | rsa2048
  | rsa3072
  | ec
  | ed25519
  deriving DecidableEq, Repr

def SignAlg.expectedSigTlv : SignAlg → UInt16
  | .rsa2048 => IMAGE_TLV_RSA2048_PSS
  | .rsa3072 => IMAGE_TLV_RSA3072_PSS
  | .ec => IMAGE_TLV_ECDSA_SIG
  | .ed25519 => IMAGE_TLV_ED25519

def SignAlg.sigBufSize : SignAlg → Nat
  | .rsa2048 => 2048 / 8
  | .rsa3072 => 3072 / 8
  | .ec => 128
  | .ed25519 => 64

/-- `EXPECTED_SIG_LEN`: exact for RSA and Ed25519, anything for ECDSA, whose
encoding is checked by the verifier. -/
def SignAlg.expectedSigLen (a : SignAlg) (len : Nat) : Bool :=
  match a with
  | .ec => true
  | _ => len == a.sigBufSize

/-- The digest is never longer than a key-hash length byte can say. -/
theorem HashAlg.imageHashSize_le (a : HashAlg) : a.imageHashSize ≤ 64 := by
  cases a <;> decide

theorem HashAlg.imageHashSize_pos (a : HashAlg) : 0 < a.imageHashSize := by
  cases a <;> decide

/-- The three record types the validator acts on are different switch labels. -/
theorem expected_tlvs_distinct (a : HashAlg) (s : SignAlg) :
    a.expectedHashTlv ≠ IMAGE_TLV_KEYHASH ∧ s.expectedSigTlv ≠ IMAGE_TLV_KEYHASH ∧
      s.expectedSigTlv ≠ a.expectedHashTlv := by
  cases a <;> cases s <;> decide

end RuuviMcuboot
