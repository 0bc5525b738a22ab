/-
The hardware revision records in the protected TLVs of an image, in a file or in flash
(`fw_img_hw_rev.c`).
-/
import RuuviMcuboot.FileTlv

namespace RuuviMcuboot

open Binary Effect

variable (P : Platform)

/-- `fw_image_hw_rev_t`.  The name is the 16-byte character array. -/
structure HwRev where
  hwRevNum : UInt32
  hwRevName : Bytes
  deriving DecidableEq, Repr

/-- `sizeof(hw_rev_name)`. -/
def hwRevNameSize : Nat := 16

/-- The zero-initialised record. -/
def HwRev.zero : HwRev := { hwRevNum := 0, hwRevName := List.replicate hwRevNameSize 0 }

/-- A character array read as a C string. -/
def cString (b : Bytes) : Bytes := b.takeWhile (· ≠ 0)

/-- `'\0' == hw_rev_name[0]`. -/
def HwRev.nameEmpty (r : HwRev) : Bool := r.hwRevName.headD 0 == 0

/-- `hw_rev_num = 0; hw_rev_name[0] = '\0'`. -/
def HwRev.clear (r : HwRev) : HwRev :=
  { hwRevNum := 0, hwRevName := overlay r.hwRevName 0 [0] }

/-- `u32_from_bytes_be`. -/
def u32FromBytesBe (b : Bytes) : UInt32 :=
  (List.range 4).foldl
    (fun res i => res ||| ((b.getD i 0).toUInt32 <<< (24 - UInt32.ofNat i * 8))) 0

/-- The bounds of the TLV list whose info record is at `startOffset`. -/
def findTlvsInFile (hd : Handle) (magic : UInt16) (startOffset : UInt32) :
    Fw (Option (UInt32 × UInt32)) := do
  let rc ← fsSeek hd (toOffT startOffset) .set
  if rc ≠ 0 then
    return none
  else
    match ← fsRead hd tlvHdrSize with
    | .error _ => return none
    | .ok b =>
      -- a short read leaves the zeros of the initialised record
      let info := ImageTlvInfo.decode b
      if info.itMagic ≠ magic then
        return none
      else
        return some (startOffset + 4, startOffset + 4 + info.itTlvTot.toUInt32)

/-- The id record.  The result is `false` with the record left as it was, or
`true` with the id stored. -/
def fwImgHwRevHandleTlvId (tlv : ImageTlv) (hd : Handle) (r : HwRev) : Fw (Bool × HwRev) := do
  if tlv.itType = P.ruuviHwRevIdTlv then
    if tlv.itLen.toNat ≠ 4 then
      return (false, r)
    else if r.hwRevNum ≠ 0 then
      return (false, r)
    else
      match ← fsRead hd 4 with
      | .error _ => return (false, r)
      | .ok b => return (true, { r with hwRevNum := u32FromBytesBe b })
  else
    return (true, r)

/-- The name record.  A short read leaves the rest of the array, and the
terminator goes behind the declared length. -/
def fwImgHwRevHandleTlvName (tlv : ImageTlv) (hd : Handle) (r : HwRev) : Fw (Bool × HwRev) := do
  if tlv.itType = P.ruuviHwRevNameTlv then
    if tlv.itLen.toNat ≥ hwRevNameSize then
      return (false, r)
    else if r.nameEmpty = false then
      return (false, r)
    else
      match ← fsRead hd tlv.itLen.toNat with
      | .error _ => return (false, r)
      | .ok b =>
        let name := overlay (overlay r.hwRevName 0 b) tlv.itLen.toNat [0]
        return (true, { r with hwRevName := name })
  else
    return (true, r)

def fwImgHwRevHandleTlvHwRevInFile (tlv : ImageTlv) (hd : Handle) (r : HwRev) :
    Fw (Bool × HwRev) := do
  let (ok, r) ← fwImgHwRevHandleTlvId P tlv hd r
  if ok = false then
    return (false, r)
  else
    fwImgHwRevHandleTlvName P tlv hd r

/-- The loop variables: the offset, the TLV record, which a short read fills only
in part, and the result so far. -/
structure HwRevScan where
  dataOff : UInt32
  tlv : Bytes
  hwRev : HwRev

/-- One round of the loop of `fw_img_hw_rev_find_in_file`. -/
def fwImgHwRevFindInFileBody (hd : Handle) (tlvsEndOff : UInt32) (s : HwRevScan) :
    Fw (HwRevScan ⊕ (Bool × HwRev)) := do
  if s.dataOff + 4 ≤ tlvsEndOff then
    let rc ← fsSeek hd (toOffT s.dataOff) .set
    if rc ≠ 0 then
      return .inr (false, s.hwRev)
    else
      match ← fsRead hd tlvHdrSize with
      | .error _ => return .inr (false, s.hwRev)
      | .ok b =>
        let raw := overlay s.tlv 0 b
        let tlv := ImageTlv.decode raw
        let (ok, r) ← fwImgHwRevHandleTlvHwRevInFile P tlv hd s.hwRev
        if ok = false then
          return .inr (false, r)
        else if r.nameEmpty = false ∧ r.hwRevNum ≠ 0 then
          return .inr (true, r)
        else
          return .inl
            { dataOff := s.dataOff + (4 + tlv.itLen.toUInt32), tlv := raw, hwRev := r }
  else
    return .inr (false, s.hwRev)

/-- Every round moves the offset by at least four, in 32 bits, towards a fixed
end, and stops where a seek fails. -/
def hwRevFuel : Nat := 4294967296

def fwImgHwRevFindInFile (hd : Handle) (r : HwRev) : Fw (Bool × HwRev) := do
  let r := r.clear
  let rc ← fsSeek hd 0 .set
  if rc ≠ 0 then
    return (false, r)
  else
    match ← fsRead hd imageHeaderSize with
    | .error _ => return (false, r)
    | .ok b =>
      if b.length ≠ imageHeaderSize then
        return (false, r)
      else
        let hdr := ImageHeader.decode b
        match ← findTlvsInFile hd IMAGE_TLV_PROT_INFO_MAGIC (bootTlvOff hdr) with
        | none => return (false, r)
        | some (startOff, endOff) =>
          Prog.loop (fwImgHwRevFindInFileBody P hd endOff) (false, r) hwRevFuel
            { dataOff := startOff, tlv := List.replicate tlvHdrSize 0, hwRev := r }

/-! ## The search in a flash area -/

/-- The bounds of the TLV list whose info record is at `startOffset`. -/
def findTlvsInFlashArea (fa : FaId) (magic : UInt16) (startOffset : UInt32) :
    Fw (Option (UInt32 × UInt32)) := do
  match ← flashAreaRead fa startOffset.toNat tlvHdrSize with
  | .error _ => return none
  | .ok b =>
    let info := ImageTlvInfo.decode b
    if info.itMagic ≠ magic then
      return none
    else
      return some (startOffset + 4, startOffset + 4 + info.itTlvTot.toUInt32)

def fwImgHwRevHandleTlvIdInFlashArea (tlv : ImageTlv) (fa : FaId) (dataOff : UInt32) (r : HwRev) :
    Fw (Bool × HwRev) := do
  if tlv.itType = P.ruuviHwRevIdTlv then
    if tlv.itLen.toNat ≠ 4 then
      return (false, r)
    else if r.hwRevNum ≠ 0 then
      return (false, r)
    else
      match ← flashAreaRead fa (dataOff + 4).toNat 4 with
      | .error _ => return (false, r)
      | .ok b => return (true, { r with hwRevNum := u32FromBytesBe b })
  else
    return (true, r)

def fwImgHwRevHandleTlvNameInFlashArea (tlv : ImageTlv) (fa : FaId) (dataOff : UInt32)
    (r : HwRev) : Fw (Bool × HwRev) := do
  if tlv.itType = P.ruuviHwRevNameTlv then
    if tlv.itLen.toNat ≥ hwRevNameSize then
      return (false, r)
    else if r.nameEmpty = false then
      return (false, r)
    else
      match ← flashAreaRead fa (dataOff + 4).toNat tlv.itLen.toNat with
      | .error _ => return (false, r)
      | .ok b =>
        let name := overlay (overlay r.hwRevName 0 b) tlv.itLen.toNat [0]
        return (true, { r with hwRevName := name })
  else
    return (true, r)

def fwImgHwRevHandleTlvHwRevInFlashArea (tlv : ImageTlv) (fa : FaId) (dataOff : UInt32)
    (r : HwRev) : Fw (Bool × HwRev) := do
  let (ok, r) ← fwImgHwRevHandleTlvIdInFlashArea P tlv fa dataOff r
  if ok = false then
    return (false, r)
  else
    fwImgHwRevHandleTlvNameInFlashArea P tlv fa dataOff r

/-- The loop variables of the search in a flash area, where a TLV record is read
in full or not at all. -/
structure HwRevFlashScan where
  dataOff : UInt32
  hwRev : HwRev

/-- One round of the loop of `fw_img_hw_rev_find_in_flash_area_internal`. -/
def fwImgHwRevFindInFlashAreaBody (fa : FaId) (tlvsEndOff : UInt32) (s : HwRevFlashScan) :
    Fw (HwRevFlashScan ⊕ (Bool × HwRev)) := do
  if s.dataOff + 4 ≤ tlvsEndOff then
    match ← flashAreaRead fa s.dataOff.toNat tlvHdrSize with
    | .error _ => return .inr (false, s.hwRev)
    | .ok b =>
      let tlv := ImageTlv.decode b
      let (ok, r) ← fwImgHwRevHandleTlvHwRevInFlashArea P tlv fa s.dataOff s.hwRev
      if ok = false then
        return .inr (false, r)
      else if r.nameEmpty = false ∧ r.hwRevNum ≠ 0 then
        return .inr (true, r)
      else
        return .inl { dataOff := s.dataOff + (4 + tlv.itLen.toUInt32), hwRev := r }
  else
    return .inr (false, s.hwRev)

def fwImgHwRevFindInFlashAreaInternal (fa : FlashArea) (r : HwRev) : Fw (Bool × HwRev) := do
  match ← flashAreaRead fa.faId 0 imageHeaderSize with
  | .error _ => return (false, r)
  | .ok b =>
    match P.bootImageLoadHeader fa.faSize b with
    | none => return (false, r)
    | some hdr =>
      match ← findTlvsInFlashArea fa.faId IMAGE_TLV_PROT_INFO_MAGIC (bootTlvOff hdr) with
      | none => return (false, r)
      | some (startOff, endOff) =>
        Prog.loop (fwImgHwRevFindInFlashAreaBody P fa.faId endOff) (false, r) hwRevFuel
          { dataOff := startOff, hwRev := r }

def fwImgHwRevFindInFlashArea (faId : FaId) (r : HwRev) : Fw (Bool × HwRev) := do
  let r := r.clear
  match ← flashAreaOpen faId with
  | .error _ => return (false, r)
  | .ok fa =>
    let res ← fwImgHwRevFindInFlashAreaInternal P fa r
    flashAreaClose fa.faId
    return res

end RuuviMcuboot
