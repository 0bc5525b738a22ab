/-
Installing update files (`mcuboot_fw_update.c`).
-/
import RuuviMcuboot.FileImgValidate
import RuuviMcuboot.FwImgHwRev
import RuuviMcuboot.ImgOp
import RuuviMcuboot.FaUtils

namespace RuuviMcuboot

open Binary Effect

variable (P : Platform)

def imgInvalidate (fa : FaId) : Fw Bool := do
  match ← flashAreaOpen fa with
  | .error _ => return false
  | .ok p =>
    match P.fwInfoFind (← flashMapped p.faId) with
    | none =>
      flashAreaClose p.faId
      return false
    | some _ =>
      fwInfoInvalidate p.faId
      flashAreaClose p.faId
      return true

/-! ## Validation of a file -/

/-- The file is read into the shared buffer and checked there as the first-stage
bootloader would check it. -/
def validateB0Signature (f : UpdateFile) (dstFaAddr : UInt32) (dstFaSize : Nat) : Fw Bool := do
  if dstFaSize ≠ P.sharedImgBufSize then
    return false
  else
    match ← btldrFsOpenFile f with
    | none => return false
    | some hd =>
      let fileSize := toSizeT (← btldrFsGetFileSize hd)
      if fileSize > P.sharedImgBufSize then
        fsClose hd
        return false
      else
        match ← fsReadShared hd fileSize with
        | .error _ =>
          fsClose hd
          return false
        | .ok n =>
          if n ≠ fileSize then
            fsClose hd
            return false
          else
            let buf ← sharedBuf
            match P.fwInfoFind buf with
            | none =>
              fsClose hd
              return false
            | some info =>
              let addrOffset := info.address - dstFaAddr
              if addrOffset.toNat ≥ P.sharedImgBufSize then
                fsClose hd
                return false
              else if P.blValidateFirmware info.address buf addrOffset.toNat = false then
                fsClose hd
                return false
              else
                fsClose hd
                return true

/-- The header and the checked sum of header and image size. -/
def loadImageHeaderFromFile (hd : Handle) : Fw (Option (ImageHeader × UInt32)) := do
  match ← fsRead hd imageHeaderSize with
  | .error _ => return none
  | .ok b =>
    let hdr := ImageHeader.decode b
    if b.length ≠ imageHeaderSize then
      return none
    else if hdr.ihMagic ≠ IMAGE_MAGIC then
      return none
    else if hdr.ihFlags &&& IMAGE_F_NON_BOOTABLE ≠ 0 then
      return none
    else
      match bootU32SafeAdd hdr.ihImgSize hdr.ihHdrSize.toUInt32 with
      | none => return none
      | some imgSize =>
        let fileSize := toSizeT (← btldrFsGetFileSize hd)
        if imgSize.toNat > fileSize then
          return none
        else
          return some (hdr, imgSize)

def openFileAndLoadImageHeader (f : UpdateFile) :
    Fw (Option (Handle × ImageHeader × UInt32)) := do
  match ← btldrFsOpenFile f with
  | none => return none
  | some hd =>
    match ← loadImageHeaderFromFile hd with
    | none =>
      btldrFsCloseFile hd
      return none
    | some (hdr, imgSize) => return some (hd, hdr, imgSize)

/-- A verdict on a file together with what was read from it on the way, which
the caller uses whatever the verdict. -/
structure FileCheck where
  ok : Bool
  hdr : ImageHeader
  hwRev : HwRev

/-- The outputs before anything was read. -/
def FileCheck.failed : FileCheck := { ok := false, hdr := ImageHeader.zero, hwRev := HwRev.zero }

def hookTmpBufSz : UInt32 := 256

def validateFile (f : UpdateFile) (dstFaAddr : UInt32) (dstFaSize : Nat) : Fw FileCheck := do
  if (← btldrFsIsFileExist f) = false then
    return FileCheck.failed
  else
    match ← openFileAndLoadImageHeader f with
    | none => return FileCheck.failed
    | some (hd, hdr, imgSize) =>
      if imgSize.toNat ≥ dstFaSize then
        fsClose hd
        return FileCheck.failed
      else
        let out : FileCheck := { FileCheck.failed with hdr := hdr }
        let rc ← fsSeek hd ((hdr.ihHdrSize.toNat : Int) + 4) .set
        if rc ≠ 0 then
          fsClose hd
          return out
        else
          match ← fsRead hd 4 with
          | .error _ =>
            fsClose hd
            return out
          | .ok b =>
            let resetAddr := le32 b 0
            if b.length ≠ 4 then
              fsClose hd
              return out
            else if ¬ (resetAddr ≥ dstFaAddr ∧
                resetAddr < dstFaAddr + UInt32.ofNat dstFaSize) then
              fsClose hd
              return out
            else
              let (_, hwRev) ← fwImgHwRevFindInFile P hd HwRev.zero
              let out := { out with hwRev := hwRev }
              let res ← fileImgValidate P hd hdr dstFaSize hookTmpBufSz none
              if res ≠ .success then
                fsClose hd
                return out
              else
                fsClose hd
                return { out with ok := true }

def checkFile (f : UpdateFile) (dstFaAddr : UInt32) (dstFaSize : Nat)
    (flagValidateB0Signature : Bool) : Fw FileCheck := do
  if (← btldrFsIsFileExist f) = false then
    return FileCheck.failed
  else if flagValidateB0Signature then
    if (← validateB0Signature P f dstFaAddr dstFaSize) = false then
      let _ ← btldrFsUnlinkFile f
      return FileCheck.failed
    else
      -- an invalid MCUboot signature is only warned about here
      let out ← validateFile P f dstFaAddr dstFaSize
      return { out with ok := true }
  else
    let out ← validateFile P f dstFaAddr dstFaSize
    if out.ok = false then
      let _ ← btldrFsUnlinkFile f
      return out
    else
      return out

/-! ## Firmware information in a file -/

def fwInfoCheckInFile (hd : Handle) (offset : Nat) : Fw (Option FwInfo) := do
  let rc ← fsSeek hd (offset : Int) .set
  if rc ≠ 0 then
    return none
  else
    match ← fsRead hd P.fwInfoSize with
    | .error _ => return none
    | .ok b =>
      let info := P.fwInfoDecode b
      if b.length ≠ P.fwInfoSize then
        return none
      else if info.magic = P.fwInfoMagic then
        return some info
      else
        return none

/-- The loop over `fw_info_allowed_offsets`. -/
def fwInfoSearchInFile (hd : Handle) : List Nat → Fw (Option FwInfo)
  | [] => return none
  | offset :: rest => do
    match ← fwInfoCheckInFile P hd offset with
    | some info => return some info
    | none => fwInfoSearchInFile hd rest

def fwInfoFindInFile (f : UpdateFile) : Fw (Option FwInfo) := do
  match ← btldrFsOpenFile f with
  | none => return none
  | some hd =>
    let info ← fwInfoSearchInFile P hd P.fwInfoAllowedOffsets
    fsClose hd
    return info

/-! ## Version and hardware gates -/

/-- The lexicographic comparison: -1, 0 or 1. -/
def bootVersionCmp (ver1 ver2 : ImageVersion) : Int :=
  if ver1.ivMajor > ver2.ivMajor then 1
  else if ver1.ivMajor < ver2.ivMajor then -1
  else if ver1.ivMinor > ver2.ivMinor then 1
  else if ver1.ivMinor < ver2.ivMinor then -1
  else if ver1.ivRevision > ver2.ivRevision then 1
  else if ver1.ivRevision < ver2.ivRevision then -1
  else if P.versionCmpUseBuildNumber then
    if ver1.ivBuildNum > ver2.ivBuildNum then 1
    else if ver1.ivBuildNum < ver2.ivBuildNum then -1
    else 0
  else 0

/-- The version part of `check_downgrade_prevention`.  The first comparison is of
the file's version with itself, as in the source. -/
def downgradeAllowed (dst : FaId) (fileHdr : ImageHeader) : Bool :=
  let rc := bootVersionCmp P fileHdr.ihVer fileHdr.ihVer
  let rc :=
    if rc ≥ 0 ∧ (dst = .s0 ∨ dst = .s1) then
      let versionCheck := bootVersionCmp P fileHdr.ihVer P.mcubootS0S1ImageVersion
      if versionCheck < rc then versionCheck else rc
    else rc
  decide (¬ rc < 0)

def checkDowngradePrevention (dst : FaId) (fileHdr : ImageHeader) : Fw Bool := do
  match ← loadImageHeader P dst with
  | none => return false
  | some _ => return downgradeAllowed P dst fileHdr

/-- The name check is skipped when the running image has no name. -/
def hwRevMismatch (expected actual : HwRev) : Bool :=
  expected.nameEmpty = false && cString expected.hwRevName ≠ cString actual.hwRevName

/-! ## Update of one partition -/

/-- `check_file_and_update` up to the copy: `true` when every check passes.  A
rejected file is removed. -/
def updateGates (f : UpdateFile) (dst : FaId) (hwRev : HwRev) (flagValidateB0Signature : Bool) :
    Fw Bool := do
  match ← getFlashAreaAddressAndSize dst with
  | none => return false
  | some (dstFaAddr, dstFaSize) =>
    let out ← checkFile P f dstFaAddr dstFaSize flagValidateB0Signature
    if out.ok = false then
      return false
    else
      match ← fwInfoFindInFile P f with
      | none =>
        let _ ← btldrFsUnlinkFile f
        return false
      | some fileFwInfo =>
        match P.fwInfoFind (← flashMapped dst) with
        | none =>
          let _ ← btldrFsUnlinkFile f
          return false
        | some dstFwInfo =>
          if hwRevMismatch hwRev out.hwRev then
            let _ ← btldrFsUnlinkFile f
            return false
          else if dstFwInfo.version > fileFwInfo.version then
            let _ ← btldrFsUnlinkFile f
            return false
          else if P.downgradePrevention then
            if (← checkDowngradePrevention P dst out.hdr) = false then
              let _ ← btldrFsUnlinkFile f
              return false
            else
              return true
          else
            return true

/-- The copy at the end of `check_file_and_update`.  Its outcome is only logged. -/
def copyUpdate (f : UpdateFile) (dst : FaId) : Fw Bool := do
  match ← btldrFsOpenFile f with
  | none =>
    let _ ← btldrFsUnlinkFile f
    return false
  | some hd =>
    let _ ← mcubootImgOpCopy dst hd
    btldrFsCloseFile hd
    let _ ← btldrFsUnlinkFile f
    return true

def checkFileAndUpdate (f : UpdateFile) (dst : FaId) (hwRev : HwRev)
    (flagValidateB0Signature : Bool) : Fw Bool := do
  if (← updateGates P f dst hwRev flagValidateB0Signature) = false then
    return false
  else
    copyUpdate f dst

/-- Whether the file is one that the other MCUboot should install. -/
def checkUpdateForMcuboot (f : UpdateFile) (dst : FaId) (hwRev : HwRev) : Fw Bool := do
  if (← btldrFsIsFileExist f) = false then
    return false
  else
    match ← getFlashAreaAddressAndSize dst with
    | none => return false
    | some (dstFaAddr, dstFaSize) =>
      if (← validateB0Signature P f dstFaAddr dstFaSize) = false then
        let _ ← btldrFsUnlinkFile f
        return false
      else
        let out ← validateFile P f dstFaAddr dstFaSize
        match ← fwInfoFindInFile P f with
        | none =>
          let _ ← btldrFsUnlinkFile f
          return false
        | some _ =>
          if hwRevMismatch hwRev out.hwRev then
            let _ ← btldrFsUnlinkFile f
            return false
          else
            return true

/-! ## The updater -/

/-- The MCUboot slot that is executing (`mcuboot_active_slot`). -/
inductive SlotId where
  | slot0
  | slot1
  deriving DecidableEq, Repr

/-- The loader and application files, installed from either slot. -/
def checkLoaderAndApp (hwRev : HwRev) (flagUpdatesFound : Bool) : Fw Bool := do
  let loader ← checkFileAndUpdate P .loader .mcubootSecondary hwRev false
  let app ← checkFileAndUpdate P .app .mcubootPrimary hwRev false
  return flagUpdatesFound || loader || app

def checkUpdatesOnFs (mcubootActiveSlot : SlotId) (hwRev : HwRev) : Fw Bool := do
  match mcubootActiveSlot with
  | .slot0 =>
    let found ← checkFileAndUpdate P .mcuboot1 .s1 hwRev true
    if (← checkUpdateForMcuboot P .mcuboot0 .s0 hwRev) = true then
      let _ ← imgInvalidate P .s0
      return true
    else
      checkLoaderAndApp P hwRev found
  | .slot1 =>
    let found ← checkFileAndUpdate P .mcuboot0 .s0 hwRev true
    if (← checkUpdateForMcuboot P .mcuboot1 .s1 hwRev) = true then
      return true
    else
      checkLoaderAndApp P hwRev found

/-- How a call of `mcuboot_fw_update` ends. -/
inductive Outcome where
  | rebooted
  | returned
  deriving DecidableEq, Repr

def mcubootFwUpdate (mcubootActiveSlot : SlotId) (hwRev : HwRev) : Fw Outcome := do
  if (← btldrFsMount) = true then
    if (← checkUpdatesOnFs P mcubootActiveSlot hwRev) = true then
      sysReboot
      return .rebooted
    else
      btldrFsUnmount
      return .returned
  else
    return .returned

end RuuviMcuboot
