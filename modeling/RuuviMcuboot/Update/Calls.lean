/-
The calls a boot of the updater is made of.

Both slots run the same program: the other MCUboot slot is updated, the hand-over is
checked, and then follow the loader and the application.  `updateCalls` lists the
calls of `check_file_and_update` with the worlds they are made in.  What a boot does
around these calls copies nothing.
-/
import RuuviMcuboot.Update.Footprints

namespace RuuviMcuboot

open Binary Effect

variable (P : Platform)

/-! ## One program for both slots -/

/-- The file that is installed in the MCUboot slot that is not executing. -/
def SlotId.otherFile : SlotId → UpdateFile
  | .slot0 => .mcuboot1
  | .slot1 => .mcuboot0

def SlotId.otherFaId : SlotId → FaId
  | .slot0 => .s1
  | .slot1 => .s0

/-- The file for the slot that is executing, which the other slot has to install. -/
def SlotId.ownFile : SlotId → UpdateFile
  | .slot0 => .mcuboot0
  | .slot1 => .mcuboot1

def SlotId.activeFaId : SlotId → FaId
  | .slot0 => .s0
  | .slot1 => .s1

/-- The check for a hand-over. -/
def handoverCheck (mcubootActiveSlot : SlotId) (hwRev : HwRev) : Fw Bool :=
  checkUpdateForMcuboot P mcubootActiveSlot.ownFile mcubootActiveSlot.activeFaId hwRev

/-- What is done for a hand-over: from slot 0 the executing slot is invalidated. -/
def handOver : SlotId → Fw Bool
  | .slot0 => do
    let _ ← imgInvalidate P .s0
    return true
  | .slot1 => return true

theorem checkUpdatesOnFs_eq (slot : SlotId) (hwRev : HwRev) :
    checkUpdatesOnFs P slot hwRev = (do
      let found ← checkFileAndUpdate P slot.otherFile slot.otherFaId hwRev true
      if (← handoverCheck P slot hwRev) = true then
        handOver P slot
      else
        checkLoaderAndApp P hwRev found) := by
  cases slot with
  | slot0 => rfl
  | slot1 => rfl

/-! ## The calls with their worlds -/

/-- A call of `check_file_and_update` and the world it is made in. -/
structure UpdateCall where
  file : UpdateFile
  dst : FaId
  flagValidateB0Signature : Bool
  start : World

/-- The world behind the call. -/
def UpdateCall.finish (c : UpdateCall) (hwRev : HwRev) : World :=
  (P.run (checkFileAndUpdate P c.file c.dst hwRev c.flagValidateB0Signature) c.start).2

/-- The call for the MCUboot slot that is not executing. -/
def otherSlotCall (slot : SlotId) (w : World) : UpdateCall :=
  { file := slot.otherFile, dst := slot.otherFaId, flagValidateB0Signature := true, start := w }

def loaderCall (w : World) : UpdateCall :=
  { file := .loader, dst := .mcubootSecondary, flagValidateB0Signature := false, start := w }

def appCall (w : World) : UpdateCall :=
  { file := .app, dst := .mcubootPrimary, flagValidateB0Signature := false, start := w }

/-- The calls for the loader and for the application. -/
def loaderAndAppCalls (hwRev : HwRev) (w : World) : List UpdateCall :=
  [loaderCall w, appCall ((loaderCall w).finish P hwRev)]

/-- The calls of `check_file_and_update` that `check_updates_on_fs` makes. -/
def updateCalls (slot : SlotId) (hwRev : HwRev) (w : World) : List UpdateCall :=
  let r := P.run (handoverCheck P slot hwRev) ((otherSlotCall slot w).finish P hwRev)
  otherSlotCall slot w :: if r.1 = true then [] else loaderAndAppCalls P hwRev r.2

/-! ## Around the calls -/

/-- Calls that belong to no copy: they neither erase nor write, and flatten at most
the partition of the file system. -/
def Op.outsideCopy : Op → Prop
  | .flashAreaErase _ _ _ | .flashAreaWrite _ _ _ => False
  | .flashAreaFlatten fa => fa = .littlefsStorage1
  | _ => True

theorem Op.mayRemove.outsideCopy {f : UpdateFile} {o : Op} (ho : o.mayRemove f) :
    o.outsideCopy := by
  rcases ho with ho | rfl
  · cases o <;> first | exact True.intro | exact ho.elim
  · exact True.intro

/-- Calls that change nothing durable but, possibly, format the file system. -/
def Op.mayFormat (o : Op) : Prop := o.inspects ∨ o = .flashAreaFlatten .littlefsStorage1

/-- Calls that change nothing durable but, possibly, invalidate the partition `fa`. -/
def Op.mayInvalidate (fa : FaId) (o : Op) : Prop := o.inspects ∨ o = .fwInfoInvalidate fa

theorem Op.mayFormat.outsideCopy {o : Op} (ho : o.mayFormat) : o.outsideCopy := by
  rcases ho with ho | rfl
  · exact ho.mayRemove.outsideCopy (f := .app)
  · rfl

theorem Op.mayInvalidate.outsideCopy {fa : FaId} {o : Op} (ho : o.mayInvalidate fa) :
    o.outsideCopy := by
  rcases ho with ho | rfl
  · exact ho.mayRemove.outsideCopy (f := .app)
  · exact True.intro

theorem within_mount : Issues Op.mayFormat btldrFsMount := by
  refine within_bind (issues_perform .fsMount (Or.inl True.intro)) (fun rc => within_ite ?_ ?_)
  · refine within_bind ?_ (fun _ => within_ret _)
    refine within_perform_bind (S := Api) (T := Op.Answered) (A := Op.mayFormat)
      (o := .flashAreaOpen .littlefsStorage1) (Or.inl True.intro) (fun r hr => ?_)
    cases r with
    | error e => exact within_ret _
    | ok a =>
      have ha : a.faId = .littlefsStorage1 := hr
      exact within_bind (issues_perform (.flashAreaFlatten a.faId) (Or.inr (by rw [ha]))) (fun _ =>
        within_bind (issues_perform (.flashAreaClose a.faId) (Or.inl True.intro))
          (fun _ => within_ret _))
  · exact within_bind (issues_perform .fsStatvfs (Or.inl True.intro)) (fun _ => within_ret _)

theorem within_imgInvalidate (fa : FaId) : Issues (Op.mayInvalidate fa) (imgInvalidate P fa) := by
  refine within_perform_bind (S := Api) (T := Op.Answered) (A := Op.mayInvalidate fa)
    (o := .flashAreaOpen fa) (Or.inl True.intro) (fun r hr => ?_)
  cases r with
  | error e => exact within_ret _
  | ok a =>
    have ha : a.faId = fa := hr
    refine within_bind (issues_perform (.flashMapped a.faId) (Or.inl True.intro)) (fun content => ?_)
    have hclose : ∀ b : Bool,
        Issues (Op.mayInvalidate fa) (flashAreaClose a.faId >>= fun _ => pure b) :=
      fun b => within_bind (issues_perform (.flashAreaClose a.faId) (Or.inl True.intro))
        (fun _ => within_ret _)
    cases P.fwInfoFind content with
    | none => exact hclose false
    | some info =>
      exact within_bind (issues_perform (.fwInfoInvalidate a.faId) (Or.inr (by rw [ha])))
        (fun _ => hclose true)

theorem within_handoverCheck (slot : SlotId) (hwRev : HwRev) :
    Issues (Op.mayRemove slot.ownFile) (handoverCheck P slot hwRev) :=
  within_checkUpdateForMcuboot P hwRev

theorem within_handOver (slot : SlotId) : Issues (Op.mayInvalidate .s0) (handOver P slot) := by
  cases slot with
  | slot0 => exact within_bind (within_imgInvalidate P .s0) (fun _ => within_ret _)
  | slot1 => exact within_ret _

/-- What follows the updates of a boot. -/
def bootEnd (updatesFound : Bool) : Fw Outcome :=
  if updatesFound = true then do
    sysReboot
    return .rebooted
  else do
    btldrFsUnmount
    return .returned

theorem mcubootFwUpdate_eq (slot : SlotId) (hwRev : HwRev) :
    mcubootFwUpdate P slot hwRev = (do
      if (← btldrFsMount) = true then
        bootEnd (← checkUpdatesOnFs P slot hwRev)
      else
        return .returned) := rfl

theorem within_bootEnd (updatesFound : Bool) : Issues Op.inspects (bootEnd updatesFound) :=
  within_ite (within_bind (issues_perform .sysReboot True.intro) (fun _ => within_ret _))
    (within_bind (within_bind (issues_perform .fsUnmount True.intro) (fun _ => within_ret _))
      (fun _ => within_ret _))

theorem within_loaderAndApp (hwRev : HwRev) (found : Bool) :
    Issues (fun o => o.mayInstall .loader .mcubootSecondary ∨ o.mayInstall .app .mcubootPrimary)
      (checkLoaderAndApp P hwRev found) :=
  within_bind ((within_checkFileAndUpdate P hwRev false).mono (fun _ => Or.inl)) (fun _ =>
    within_bind ((within_checkFileAndUpdate P hwRev false).mono (fun _ => Or.inr))
      (fun _ => within_ret _))

/-! ## A partition that is left alone -/

/-- Calls that do not change the partition `fa`. -/
def Op.spares (fa : FaId) : Op → Prop
  | .flashAreaErase fa' _ _ | .flashAreaWrite fa' _ _ | .flashAreaFlatten fa'
  | .fwInfoInvalidate fa' => fa ≠ fa'
  | _ => True

theorem Op.inspects.spares {fa : FaId} {o : Op} (ho : o.inspects) : o.spares fa := by
  cases o <;> first | exact True.intro | exact ho.elim

theorem Op.mayRemove.spares {f : UpdateFile} {fa : FaId} {o : Op} (ho : o.mayRemove f) :
    o.spares fa := by
  rcases ho with ho | rfl
  · exact ho.spares
  · exact True.intro

theorem Op.mayFormat.spares {fa : FaId} (hfa : fa ≠ .littlefsStorage1) {o : Op}
    (ho : o.mayFormat) : o.spares fa := by
  rcases ho with ho | rfl
  · exact ho.spares
  · exact hfa

theorem Op.mayInstall.spares {f : UpdateFile} {fa dst : FaId} (hfa : fa ≠ dst) {o : Op}
    (ho : o.mayInstall f dst) : o.spares fa := by
  rcases ho with ho | rfl
  · cases o with
    | flashAreaErase fa' off len | flashAreaWrite fa' off data =>
      obtain rfl : fa' = dst := ho
      exact hfa
    | _ => exact Op.inspects.spares ho
  · exact True.intro

theorem exec_flash_of_spares {fa : FaId} {o : Op} (ho : o.spares fa) (w : World) :
    (P.exec o w).2.flash fa = w.flash fa := by
  cases o with
  | flashAreaErase fa' off len | flashAreaWrite fa' off data | flashAreaFlatten fa'
  | fwInfoInvalidate fa' =>
    simp only [Platform.exec]
    (repeat' split) <;> first | rfl | exact Function.update_of_ne ho _ _
  | fsUnlink f => exact congrFun (exec_fsUnlink_flash P f w) fa
  | _ =>
    refine congrFun (exec_flash_of_inspects P ?_ w) fa
    exact True.intro

end RuuviMcuboot
