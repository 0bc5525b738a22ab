/-
Start-up of MCUboot (`mcuboot_hook.c`).
-/
import RuuviMcuboot.Update.Calls

namespace RuuviMcuboot

open Binary Effect

variable (P : Platform)

/-- The build of the running MCUboot. -/
structure Build where
  /-- `g_cfg_hw_rev`, which stands 0 where the board sets no revision. -/
  cfgHwRev : UInt32
  /-- `MCUBOOT_VERSION_TWEAK_STRING`. -/
  mcubootVersionTweakString : String

/-- The result of the search for the revision records in the partition, or nothing
where the function returns before it.  The boolean is only logged, the record goes to
the caller. -/
def printImageInfo (fa : FaId) : Fw (Option (Bool × HwRev)) := do
  match ← getFlashAreaAddressAndSize fa with
  | none => return none
  | some _ =>
    match P.fwInfoFind (← flashMapped fa) with
    | none => return none
    | some _ =>
      match ← loadImageHeader P fa with
      | none => return none
      | some _ =>
        let res ← fwImgHwRevFindInFlashArea P fa HwRev.zero
        return some res

/-- The result for the partition of the active slot. -/
def onStartupPrintSlotsInfoAndGetHwRev (mcubootActiveSlot : SlotId) :
    Fw (Option (Bool × HwRev)) := do
  let s0 ← printImageInfo P .s0
  let s1 ← printImageInfo P .s1
  let _ ← printImageInfo P .mcubootPrimary
  let _ ← printImageInfo P .mcubootSecondary
  return if mcubootActiveSlot = .slot0 then s0 else s1

/-- The version as it is printed for the comparison with the build. -/
def ImageVersion.format (v : ImageVersion) : String :=
  toString v.ivMajor.toNat ++ "." ++ toString v.ivMinor.toNat ++ "." ++
    toString v.ivRevision.toNat ++ "+" ++ toString v.ivBuildNum.toNat

/-- How `on_startup` ends. -/
inductive Startup where
  /-- It waits for ever. -/
  | hung
  | returned
  /-- It ends with `mcuboot_fw_update`. -/
  | updated (o : Outcome)
  deriving DecidableEq, Repr

def onStartup (build : Build) (mcubootActiveSlot : SlotId) : Fw Startup := do
  let found ← onStartupPrintSlotsInfoAndGetHwRev P mcubootActiveSlot
  let hwRev := (found.map Prod.snd).getD HwRev.zero
  if hwRev.hwRevNum ≠ build.cfgHwRev then
    return .hung
  else
    match ← loadImageHeader P mcubootActiveSlot.activeFaId with
    | none => return .returned
    | some hdr =>
      if hdr.ihVer ≠ P.mcubootS0S1ImageVersion then
        return .hung
      else if P.mcubootS0S1ImageVersion.format ≠ build.mcubootVersionTweakString then
        return .hung
      else
        let o ← mcubootFwUpdate P mcubootActiveSlot hwRev
        return .updated o

end RuuviMcuboot
