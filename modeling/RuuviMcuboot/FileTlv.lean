/-
The TLV iterator over a file (`file_tlv.c`, and `load_image_data` of
`file_tlv_priv.h`).
-/
import RuuviMcuboot.BtldrFs

namespace RuuviMcuboot

open Binary Effect

/-- A 32-bit offset passed as a signed `off_t`. -/
def toOffT (x : UInt32) : Int :=
  if x.toNat < 2147483648 then (x.toNat : Int) else (x.toNat : Int) - 4294967296

/-- `load_image_data`: exactly `size` bytes from `start`, or an error code. -/
def loadImageData (hd : Handle) (start : UInt32) (size : Nat) : Fw (Except Int Bytes) := do
  let rc ← fsSeek hd (toOffT start) .set
  if rc < 0 then
    return .error rc
  else
    match ← fsRead hd size with
    | .error _ => return .error (-1)
    | .ok b => if b.length ≠ size then return .error (-1) else return .ok b

/-- `boot_u32_safe_add`. -/
def bootU32SafeAdd (a b : UInt32) : Option UInt32 :=
  if a > 0xFFFFFFFF - b then none else some (a + b)

/-- `BOOT_TLV_OFF`, a 32-bit sum that may wrap. -/
def bootTlvOff (hdr : ImageHeader) : UInt32 := hdr.ihHdrSize.toUInt32 + hdr.ihImgSize

structure FileTlvIter where
  hdr : ImageHeader
  type : UInt16
  prot : Bool
  protEnd : UInt32
  tlvOff : UInt32
  tlvEnd : UInt32
  deriving DecidableEq, Repr

/-- What `file_tlv_iter_next` writes through its pointers. -/
structure FoundTlv where
  off : UInt32 := 0
  len : UInt16 := 0
  type : UInt16 := 0
  deriving DecidableEq, Repr

/-- The return code of `file_tlv_iter_next` (0 found, 1 no more, -1 error), what
it found, and the iterator after it. -/
structure TlvNext where
  rc : Int
  found : FoundTlv
  it : FileTlvIter
  deriving DecidableEq, Repr

/-- `sizeof(struct image_tlv)`, which is also `sizeof(struct image_tlv_info)`. -/
def tlvHdrSize : Nat := 4

def fileTlvIterBegin (hd : Handle) (hdr : ImageHeader) (type : UInt16) (prot : Bool) :
    Fw (Option FileTlvIter) := do
  let offset := bootTlvOff hdr
  let start (info : ImageTlvInfo) : Option FileTlvIter :=
    if info.itMagic ≠ IMAGE_TLV_INFO_MAGIC then none
    else some
      { hdr := hdr
        type := type
        prot := prot
        protEnd := offset + hdr.ihProtectTlvSize.toUInt32
        tlvEnd := offset + hdr.ihProtectTlvSize.toUInt32 + info.itTlvTot.toUInt32
        tlvOff := offset + 4 }
  match ← loadImageData hd offset tlvHdrSize with
  | .error _ => return none
  | .ok b =>
    let info := ImageTlvInfo.decode b
    if info.itMagic = IMAGE_TLV_PROT_INFO_MAGIC then
      if hdr.ihProtectTlvSize ≠ info.itTlvTot then
        return none
      else
        match ← loadImageData hd (offset + info.itTlvTot.toUInt32) tlvHdrSize with
        | .error _ => return none
        | .ok b => return start (ImageTlvInfo.decode b)
    else if hdr.ihProtectTlvSize ≠ 0 then
      return none
    else
      return start info

/-- The iterator moved over the info header of the unprotected list. -/
def FileTlvIter.skipInfo (it : FileTlvIter) : FileTlvIter :=
  if it.hdr.ihProtectTlvSize > 0 ∧ it.tlvOff = it.protEnd then
    { it with tlvOff := it.tlvOff + 4 }
  else it

/-- The iterator moved over one TLV with `len` bytes of payload. -/
def FileTlvIter.advance (it : FileTlvIter) (len : UInt16) : FileTlvIter :=
  { it with tlvOff := it.tlvOff + (4 + len.toUInt32) }

/-- One round of the loop of `file_tlv_iter_next`. -/
def fileTlvIterNextBody (hd : Handle) (it : FileTlvIter) : Fw (FileTlvIter ⊕ TlvNext) := do
  if it.tlvOff < it.tlvEnd then
    let it := it.skipInfo
    match ← loadImageData hd it.tlvOff tlvHdrSize with
    | .error _ => return .inr { rc := -1, found := {}, it := it }
    | .ok b =>
      let tlv := ImageTlv.decode b
      if it.prot = true ∧ it.tlvOff ≥ it.protEnd then
        return .inr { rc := 1, found := {}, it := it }
      else if it.type = IMAGE_TLV_ANY ∨ tlv.itType = it.type then
        return .inr
          { rc := 0
            found := { off := it.tlvOff + 4, len := tlv.itLen, type := tlv.itType }
            it := it.advance tlv.itLen }
      else
        return .inl (it.advance tlv.itLen)
  else
    return .inr { rc := 1, found := {}, it := it }

/-- More rounds than a walk over a file can take: every round reads a record at a
higher offset, and offsets past the largest file cannot be read. -/
def tlvFuel : Nat := lfsFileMax + 1

def fileTlvIterNext (hd : Handle) (it : FileTlvIter) : Fw TlvNext :=
  Prog.loop (fileTlvIterNextBody hd) { rc := -1, found := {}, it := it } tlvFuel it

/-- Whether a payload offset lies in the protected area. -/
def fileTlvIterIsProt (it : FileTlvIter) (off : UInt32) : Bool := decide (off < it.protEnd)

end RuuviMcuboot
