/-
Validation of an image in a file (`file_img_validate.c`), in the configuration
with a hash TLV, key-hash TLVs and a signature over the hash.
-/
import RuuviMcuboot.FileTlv

namespace RuuviMcuboot

open Binary Effect

variable (P : Platform)

/-! ## The image hash -/

/-- The 32-bit size of what is hashed. -/
def hashedSize (hdr : ImageHeader) : UInt32 :=
  hdr.ihHdrSize.toUInt32 + hdr.ihImgSize + hdr.ihProtectTlvSize.toUInt32

/-- One block of the hash loop. -/
def fileImgHashBody (hd : Handle) (size tmpBufSz : UInt32) (s : UInt32 × P.sha.Ctx) :
    Fw ((UInt32 × P.sha.Ctx) ⊕ Except Int Bytes) := do
  let (off, ctx) := s
  if off < size then
    let blkSz := if size - off > tmpBufSz then tmpBufSz else size - off
    match ← loadImageData hd off blkSz.toNat with
    | .error rc => return .inr (.error rc)
    | .ok b => return .inl (off + blkSz, P.sha.update ctx b)
  else
    return .inr (.ok (P.sha.finish ctx))

/-- The context before the first block: a non-empty seed is absorbed. -/
def seededCtx (seed : Option Bytes) : P.sha.Ctx :=
  match seed with
  | some s => if s.length > 0 then P.sha.update P.sha.init s else P.sha.init
  | none => P.sha.init

def fileImgHash (hd : Handle) (hdr : ImageHeader) (tmpBufSz : UInt32) (seed : Option Bytes) :
    Fw (Except Int Bytes) :=
  let size := hashedSize hdr
  Prog.loop (fileImgHashBody P hd size tmpBufSz) (.error (-1)) (size.toNat + 1) (0, seededCtx P seed)

/-! ## Keys -/

/-- The first key of the list whose hash starts with the given bytes. -/
def fileImgFindKeyFrom (keyhash : Bytes) (keyhashLen : UInt8) : List Bytes → Int → Int
  | [], _ => -1
  | key :: rest, i =>
    if (P.sha.digest key).take keyhashLen.toNat = keyhash.take keyhashLen.toNat then i
    else fileImgFindKeyFrom keyhash keyhashLen rest (i + 1)

def fileImgFindKey (keyhash : Bytes) (keyhashLen : UInt8) : Int :=
  if keyhashLen.toNat > P.imageHashSize then -1
  else fileImgFindKeyFrom P keyhash keyhashLen P.bootutilKeys 0

/-! ## The security counter -/

/-- What `file_img_get_security_cnt` returns instead of 0: `BOOT_EBADIMAGE`,
`BOOT_EFLASH`, or a code of the iterator. -/
inductive SecurityCntErr where
  | badImage
  | flash
  | code (rc : Int)
  deriving DecidableEq, Repr

def fileImgGetSecurityCnt (hd : Handle) (hdr : ImageHeader) :
    Fw (Except SecurityCntErr UInt32) := do
  if hdr.ihProtectTlvSize = 0 then
    return .error .badImage
  else
    match ← fileTlvIterBegin hd hdr IMAGE_TLV_SEC_CNT true with
    | none => return .error (.code (-1))
    | some it =>
      let n ← fileTlvIterNext hd it
      if n.rc ≠ 0 then
        return .error (.code (-1))
      else if n.found.len.toNat ≠ 4 then
        return .error .badImage
      else
        match ← loadImageData hd n.found.off n.found.len.toNat with
        | .error _ => return .error .flash
        | .ok b => return .ok (le32 b 0)

/-! ## The TLV loop -/

/-- The only types allowed in the unprotected area. -/
def allowedUnprotTlvs : List UInt16 :=
  [IMAGE_TLV_KEYHASH, IMAGE_TLV_PUBKEY, IMAGE_TLV_SHA256, IMAGE_TLV_SHA384, IMAGE_TLV_SHA512,
    IMAGE_TLV_RSA2048_PSS, IMAGE_TLV_ECDSA224, IMAGE_TLV_ECDSA_SIG, IMAGE_TLV_RSA3072_PSS,
    IMAGE_TLV_ED25519, IMAGE_TLV_ENC_RSA2048, IMAGE_TLV_ENC_KW, IMAGE_TLV_ENC_EC256,
    IMAGE_TLV_ENC_X25519]

/-- The variables of `file_img_validate` that the TLV loop changes. -/
structure ValidateState where
  it : FileTlvIter
  keyId : Int
  imageHashValid : Bool
  validSignature : FihRet

/-- `none` is the `false` of the source, which ends the validation. -/
def fileImageValidateTlvExpectedHash (hd : Handle) (tlv : FoundTlv) (hash : Bytes) :
    Fw (Option Unit) := do
  if tlv.len.toNat ≠ P.imageHashSize then
    return none
  else
    match ← loadImageData hd tlv.off P.imageHashSize with
    | .error _ => return none
    | .ok buf => return if hash = buf then some () else none

/-- The key id for the signature that follows. -/
def fileImageValidateTlvExpectedKey (hd : Handle) (tlv : FoundTlv) : Fw (Option Int) := do
  if tlv.len.toNat > P.imageHashSize then
    return none
  else
    match ← loadImageData hd tlv.off tlv.len.toNat with
    | .error _ => return none
    | .ok buf => return some (fileImgFindKey P buf tlv.len.toUInt8)

/-- The verdict on the signature under the given key. -/
def fileImageValidateTlvExpectedSig (hd : Handle) (tlv : FoundTlv) (hash : Bytes) (keyId : Int) :
    Fw (Option FihRet) := do
  if P.signAlg.expectedSigLen tlv.len.toNat = false ∨ tlv.len.toNat > P.signAlg.sigBufSize then
    return none
  else
    match ← loadImageData hd tlv.off tlv.len.toNat with
    | .error _ => return none
    | .ok buf => return some (P.bootutilVerifySig hash buf (UInt8.ofNat keyId.toNat))

/-- One TLV.  The code is negative on error; a positive code is either the end
of the TLVs or a signature without a known key. -/
def fileImageValidateTlv (hd : Handle) (hash : Bytes) (st : ValidateState) :
    Fw (Int × ValidateState) := do
  let n ← fileTlvIterNext hd st.it
  let st := { st with it := n.it }
  if n.rc ≠ 0 then
    return (n.rc, st)
  else if P.allowRogueTlvs = false ∧ fileTlvIterIsProt st.it n.found.off = false ∧
      n.found.type ∉ allowedUnprotTlvs then
    return (-1, st)
  else if n.found.type = P.expectedHashTlv then
    match ← fileImageValidateTlvExpectedHash P hd n.found hash with
    | none => return (-1, st)
    | some () => return (0, { st with imageHashValid := true })
  else if n.found.type = IMAGE_TLV_KEYHASH then
    match ← fileImageValidateTlvExpectedKey P hd n.found with
    | none => return (-1, st)
    | some keyId => return (0, { st with keyId := keyId })
  else if n.found.type = P.expectedSigTlv then
    if st.keyId < 0 ∨ st.keyId ≥ P.bootutilKeyCnt then
      -- "try next TLV"
      return (1, { st with keyId := -1 })
    else
      match ← fileImageValidateTlvExpectedSig P hd n.found hash st.keyId with
      | none => return (-1, st)
      | some res => return (0, { st with validSignature := res, keyId := -1 })
  else
    return (0, st)

/-- One round of `while (true)`: any code but 0 leaves the loop. -/
def fileImgValidateBody (hd : Handle) (hash : Bytes) (st : ValidateState) :
    Fw (ValidateState ⊕ (Int × ValidateState)) := do
  let (rc, st) ← fileImageValidateTlv P hd hash st
  if rc < 0 then
    return .inr (rc, st)
  else if rc > 0 then
    return .inr (rc, st)
  else
    return .inl st

def fileImgValidate (hd : Handle) (hdr : ImageHeader) (faSize : Nat) (tmpBufSz : UInt32)
    (seed : Option Bytes) : Fw FihRet := do
  match ← fileImgHash P hd hdr tmpBufSz seed with
  | .error _ => return .failure
  | .ok hash =>
    match ← fileTlvIterBegin hd hdr IMAGE_TLV_ANY false with
    | none => return .failure
    | some it =>
      if it.tlvEnd.toNat > faSize then
        return .failure
      else
        let st : ValidateState :=
          { it := it, keyId := -1, imageHashValid := false, validSignature := .failure }
        let (rc, st) ← Prog.loop (fileImgValidateBody P hd hash) (-1, st) tlvFuel st
        if rc < 0 then
          return .failure
        else if st.imageHashValid = false then
          return .failure
        else
          return st.validSignature

end RuuviMcuboot
