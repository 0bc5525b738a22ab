/-
Copying a file into a partition and comparing the two (`mcuboot_img_op.c`).
-/
import RuuviMcuboot.BtldrFs

namespace RuuviMcuboot

open Binary Effect

def tmpBufSize : Nat := 256

/-- `cb_img_process_t`: what is done with a block at an offset of the partition. -/
abbrev CbImgProcess := FlashArea → Nat → Bytes → Fw Bool

/-- The number of bytes that fill a block up to whole words. -/
def padding (len : Nat) : Nat := if len % 4 ≠ 0 then 4 - len % 4 else 0

/-- The loop variables of `img_process`: what is left and where it goes. -/
structure ImgProcessState where
  remLen : Nat
  offset : Nat

/-- One block of `img_process`.  The last block is padded with erased bytes. -/
def imgProcessBody (fa : FlashArea) (hd : Handle) (cb : CbImgProcess) (s : ImgProcessState) :
    Fw (ImgProcessState ⊕ Bool) := do
  if s.remLen > 0 then
    let len := if s.remLen > tmpBufSize then tmpBufSize else s.remLen
    match ← fsRead hd len with
    | .error _ => return .inr false
    | .ok b =>
      if b.length ≠ len then
        return .inr false
      else
        let ok ← cb fa s.offset (b ++ blank (padding len))
        if ok = false then
          return .inr false
        else
          return .inl { remLen := s.remLen - len, offset := s.offset + len }
  else
    return .inr true

/-- The block loop and the close that follows it. -/
def imgProcessBlocks (fa : FlashArea) (hd : Handle) (cb : CbImgProcess) (srcFileSize : Nat) :
    Fw Bool := do
  let isSuccess ← Prog.loop (imgProcessBody fa hd cb) false (srcFileSize + 1)
    { remLen := srcFileSize, offset := 0 }
  flashAreaClose fa.faId
  return isSuccess

def imgProcess (faIdDst : FaId) (hd : Handle) (flagEraseDst : Bool) (cb : CbImgProcess) :
    Fw Bool := do
  match ← flashAreaOpen faIdDst with
  | .error _ => return false
  | .ok fa =>
    let rc ← fsSeek hd 0 .fromEnd
    if rc ≠ 0 then
      return false
    else
      let srcFileSize := toSizeT (← fsTell hd)
      let rc ← fsSeek hd 0 .set
      if rc ≠ 0 then
        return false
      else if srcFileSize > fa.faSize then
        return false
      else if flagEraseDst then
        let rc ← flashAreaErase fa.faId 0 fa.faSize
        if rc ≠ 0 then
          return false
        else
          imgProcessBlocks fa hd cb srcFileSize
      else
        imgProcessBlocks fa hd cb srcFileSize

def cbImgWrite : CbImgProcess := fun fa offset b => do
  let rc ← flashAreaWrite fa.faId offset b
  return decide (rc = 0)

def cbImgCmp : CbImgProcess := fun fa offset b => do
  match ← flashAreaRead fa.faId offset b.length with
  | .error _ => return false
  | .ok c => return decide (b = c)

def mcubootImgOpCopy (faIdDst : FaId) (hd : Handle) : Fw Bool :=
  imgProcess faIdDst hd true cbImgWrite

def mcubootImgOpCmp (faIdDst : FaId) (hd : Handle) : Fw Bool :=
  imgProcess faIdDst hd false cbImgCmp

end RuuviMcuboot
