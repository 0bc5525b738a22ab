/-
Reboots in a row.

A boot in which nothing fails either returns or reboots, and the next boot starts from
the slot that the first-stage bootloader then prefers.  A reboot uses up an update file or
hands over from slot 0 to slot 1, but for one case: slot 1 that waits for slot 0 to
install its file reboots into the state it started from.
-/
import Mathlib.Data.Bool.Basic
import RuuviMcuboot.Effect.Loop
import RuuviMcuboot.Update.Handover

namespace RuuviMcuboot

open Binary Effect

variable {P : Platform} {w : World} {f : UpdateFile} {dst : FaId} {slot : SlotId} {hwRev : HwRev}

/-! ## Update files -/

/-- The number of update files. -/
def fileCount (files : UpdateFile → Option DirEntry) : Nat :=
  (regular (files .mcuboot0)).isSome.toNat + (regular (files .mcuboot1)).isSome.toNat +
    (regular (files .loader)).isSome.toNat + (regular (files .app)).isSome.toNat

/-- No update file is new. -/
def Shrinks (files files' : UpdateFile → Option DirEntry) : Prop :=
  ∀ g, (regular (files' g)).isSome = true → (regular (files g)).isSome = true

theorem Shrinks.refl (files : UpdateFile → Option DirEntry) : Shrinks files files := fun _ h => h

theorem Shrinks.trans {a b c : UpdateFile → Option DirEntry} (hab : Shrinks a b)
    (hbc : Shrinks b c) : Shrinks a c := fun g h => hab g (hbc g h)

theorem shrinks_discard (f : UpdateFile) (files : UpdateFile → Option DirEntry) :
    Shrinks files (discard f files) := by
  intro g h
  by_cases hg : g = f
  · subst hg
    rw [discard_self] at h
    exact absurd h (by decide)
  · rwa [discard_of_ne hg] at h

theorem fileCount_le {files files' : UpdateFile → Option DirEntry} (h : Shrinks files files') :
    fileCount files' ≤ fileCount files := by
  have h0 := Bool.toNat_le_toNat (Bool.le_iff_imp.mpr (h .mcuboot0))
  have h1 := Bool.toNat_le_toNat (Bool.le_iff_imp.mpr (h .mcuboot1))
  have h2 := Bool.toNat_le_toNat (Bool.le_iff_imp.mpr (h .loader))
  have h3 := Bool.toNat_le_toNat (Bool.le_iff_imp.mpr (h .app))
  unfold fileCount
  omega

/-- A file that is gone counts. -/
theorem fileCount_lt {files files' : UpdateFile → Option DirEntry} (h : Shrinks files files')
    {g : UpdateFile} (hg : (regular (files g)).isSome = true) (hgone : regular (files' g) = none) :
    fileCount files' < fileCount files := by
  have h0 := Bool.toNat_le_toNat (Bool.le_iff_imp.mpr (h .mcuboot0))
  have h1 := Bool.toNat_le_toNat (Bool.le_iff_imp.mpr (h .mcuboot1))
  have h2 := Bool.toNat_le_toNat (Bool.le_iff_imp.mpr (h .loader))
  have h3 := Bool.toNat_le_toNat (Bool.le_iff_imp.mpr (h .app))
  have hone : (regular (files g)).isSome.toNat = 1 := by rw [hg]; rfl
  have hzero : (regular (files' g)).isSome.toNat = 0 := by rw [hgone]; rfl
  unfold fileCount
  cases g <;> omega

/-! ## Runs in which nothing fails -/

theorem run_mount (hw : Reliable w) :
    P.run btldrFsMount w = (true, w.after (w.clock + 2) w.sharedBuf w.files) := by
  have hmount : P.run fsMount w = (0, w.tick) := by
    rw [run_fsMount]
    simp only [Platform.exec, hw.rc]
  have hstat : P.run fsStatvfs w.tick = (0, w.tick.tick) := by
    rw [run_fsStatvfs]
    simp only [Platform.exec, hw.tick.rc]
  unfold btldrFsMount
  rw [P.run_bind_of hmount, if_neg (by decide), P.run_bind_of hstat]
  rfl

theorem run_bootEnd (updatesFound : Bool) (w : World) :
    P.run (bootEnd updatesFound) w =
      (if updatesFound then .rebooted else .returned, w.tick) := by
  cases updatesFound <;> rfl

/-- From `w` a call of `check_file_and_update` came to `w'`. -/
structure Updated (f : UpdateFile) (dst : FaId) (ok : Bool) (w w' : World) : Prop where
  reliable : Reliable w'
  opened : w'.opened = []
  files : w'.files = discard f w.files
  flash : ∀ fa, fa ≠ dst → w'.flash fa = w.flash fa
  found : ok = true → (regular (w.files f)).isSome = true

theorem run_update (hw : Reliable w) (ht : w.opened = []) (f : UpdateFile) (dst : FaId)
    (hwRev : HwRev) (flag : Bool) :
    ∃ ok w', P.run (checkFileAndUpdate P f dst hwRev flag) w = (ok, w') ∧ Updated f dst ok w w' := by
  obtain ⟨w', hrun, hopened, hfiles, -, -⟩ := run_checkFileAndUpdate P (f := f) hw ht hwRev flag
  have hworld : (P.run (checkFileAndUpdate P f dst hwRev flag) w).2 = w' := congrArg Prod.snd hrun
  have hissues : Issues (Op.mayInstall f dst) (checkFileAndUpdate P f dst hwRev flag) :=
    within_checkFileAndUpdate P hwRev flag
  refine ⟨_, w', hrun, ?_, hopened, hfiles, fun fa hfa => ?_, fun hacc => ?_⟩
  · rw [← hworld]
    exact hw.run P _
  · rw [← hworld]
    exact hissues.run_eq (exec_answers P) (f := fun v : World => v.flash fa)
      (fun _ v ho => exec_flash_of_spares P (ho.spares hfa) v) w
  · obtain ⟨d, hd⟩ := gatesAccept_regular P hacc
    rw [hd]
    rfl

/-- Without the file nothing is done. -/
theorem run_update_absent (hw : Reliable w) (habsent : regular (w.files f) = none) (dst : FaId)
    (hwRev : HwRev) (flag : Bool) :
    ∃ n, P.run (checkFileAndUpdate P f dst hwRev flag) w =
      (false, w.after n w.sharedBuf w.files) := by
  have hexist : P.run (btldrFsIsFileExist f) w.tick.tick = (false, w.tick.tick.tick) := by
    rw [run_isFileExist P hw.tick.tick]
    show ((regular (w.files f)).isSome, _) = _
    rw [habsent]
    rfl
  unfold checkFileAndUpdate updateGates
  rw [P.run_bind, P.run_bind_of (run_getFlashArea P hw)]
  unfold checkFile
  dsimp only
  rw [P.run_bind, P.run_bind_of hexist]
  exact ⟨w.clock + 3, rfl⟩

/-- The verdict of the pre-check, and the world behind it. -/
theorem run_handoverCheck (hw : Reliable w) (ht : w.opened = []) (slot : SlotId) (hwRev : HwRev) :
    let accepted := handoverAccepts P slot.ownFile (w.files slot.ownFile) w.sharedBuf
      slot.activeFaId (w.flash slot.activeFaId).length hwRev
    ∃ n buf, P.run (handoverCheck P slot hwRev) w =
      (accepted, w.after n buf (settled accepted slot.ownFile w.files)) :=
  run_checkUpdateForMcuboot P hw ht hwRev

theorem handoverAccepts_regular {entry : Option DirEntry} {buf : Bytes} {dstFaSize : Nat}
    (h : handoverAccepts P f entry buf dst dstFaSize hwRev = true) :
    (regular entry).isSome = true := by
  unfold handoverAccepts fileAccepted at h
  exact (Bool.and_eq_true_iff.mp (Bool.and_eq_true_iff.mp h).1).1

/-- The loader and the application. -/
theorem run_loaderAndApp (hw : Reliable w) (ht : w.opened = []) (hwRev : HwRev) (found : Bool) :
    ∃ ok w', P.run (checkLoaderAndApp P hwRev found) w = (found || ok, w') ∧
      w'.files = discard .app (discard .loader w.files) ∧
      (ok = true → ∃ g, (regular (w.files g)).isSome = true ∧ regular (w'.files g) = none) := by
  obtain ⟨ok₁, w₁, hrun₁, h₁⟩ := run_update (P := P) hw ht .loader .mcubootSecondary hwRev false
  obtain ⟨ok₂, w₂, hrun₂, h₂⟩ :=
    run_update (P := P) h₁.reliable h₁.opened .app .mcubootPrimary hwRev false
  have hfiles : w₂.files = discard .app (discard .loader w.files) := by rw [h₂.files, h₁.files]
  refine ⟨ok₁ || ok₂, w₂, ?_, hfiles, fun hok => ?_⟩
  · unfold checkLoaderAndApp
    rw [P.run_bind_of hrun₁, P.run_bind_of hrun₂, P.run_pure, Bool.or_assoc]
  · rw [hfiles]
    rcases Bool.or_eq_true_iff.mp hok with hok | hok
    · exact ⟨.loader, h₁.found hok, by rw [discard_of_ne (by decide), discard_self]⟩
    · refine ⟨.app, ?_, discard_self _ _⟩
      have hfound := h₂.found hok
      rwa [h₁.files, discard_of_ne (by decide)] at hfound

theorem run_handOver (hw : Reliable w) (slot : SlotId) :
    ∃ w', P.run (handOver P slot) w = (true, w') ∧ w'.files = w.files ∧
      w'.flash = match slot with
        | .slot0 => Function.update w.flash .s0 (invalidated P (w.flash .s0))
        | .slot1 => w.flash := by
  cases slot with
  | slot0 =>
    obtain ⟨ok, n, hrun⟩ := run_imgInvalidate (P := P) hw .s0
    show ∃ w', P.run (imgInvalidate P .s0 >>= fun _ => pure true) w = (true, w') ∧ _
    rw [P.run_bind_of hrun]
    exact ⟨_, rfl, rfl, rfl⟩
  | slot1 => exact ⟨w, rfl, rfl, rfl⟩

/-! ## A boot -/

/-- A boot has handed over to the other slot. -/
structure HandedOver (P : Platform) (slot : SlotId) (hwRev : HwRev) (w w' : World) : Prop where
  accepted : ∃ buf, handoverAccepts P slot.ownFile (w.files slot.ownFile) buf slot.activeFaId
    (w.flash slot.activeFaId).length hwRev = true
  shrinks : Shrinks w.files w'.files
  otherGone : regular (w'.files slot.otherFile) = none
  invalid : slot = .slot0 → w'.flash .s0 = invalidated P (w.flash .s0)

theorem ownFile_ne_otherFile (slot : SlotId) : slot.ownFile ≠ slot.otherFile := by
  cases slot <;> decide

theorem activeFaId_ne_other (slot : SlotId) : slot.activeFaId ≠ slot.otherFaId := by
  cases slot <;> decide

/-- A boot that reboots has handed over or has used up a file. -/
theorem run_boot (hw : Reliable w) (ht : w.opened = []) (slot : SlotId) (hwRev : HwRev) :
    let r := P.run (mcubootFwUpdate P slot hwRev) w
    r.1 = .rebooted → HandedOver P slot hwRev w r.2 ∨ fileCount r.2.files < fileCount w.files := by
  have hw₀ := hw.after (w.clock + 2) w.sharedBuf w.files
  obtain ⟨found, w₁, hupdate, h₁⟩ := run_update (P := P) hw₀ ht slot.otherFile slot.otherFaId hwRev
    true
  have hfiles : w₁.files = discard slot.otherFile w.files := h₁.files
  have hown : w₁.files slot.ownFile = w.files slot.ownFile := by
    rw [hfiles, discard_of_ne (ownFile_ne_otherFile slot)]
  have hactive : w₁.flash slot.activeFaId = w.flash slot.activeFaId :=
    h₁.flash _ (activeFaId_ne_other slot)
  obtain ⟨n, buf, hcheck⟩ := run_handoverCheck (P := P) h₁.reliable h₁.opened slot hwRev
  rw [hown, hactive] at hcheck
  rw [mcubootFwUpdate_eq, P.run_bind_of (run_mount hw), if_pos rfl, checkUpdatesOnFs_eq]
  rw [P.run_bind, P.run_bind_of hupdate, P.run_bind_of hcheck]
  cases hacc : handoverAccepts P slot.ownFile (w.files slot.ownFile) w₁.sharedBuf slot.activeFaId
    (w.flash slot.activeFaId).length hwRev with
  | true =>
    obtain ⟨w₃, hover, hkeep, hflash⟩ := run_handOver (P := P)
      (h₁.reliable.after n buf (settled true slot.ownFile w₁.files)) slot
    rw [if_pos rfl, hover, run_bootEnd]
    have hkeep : w₃.files = w₁.files := hkeep
    refine fun _ => Or.inl ⟨⟨_, hacc⟩, ?_, ?_, ?_⟩
    · show Shrinks w.files w₃.files
      rw [hkeep, hfiles]
      exact shrinks_discard _ _
    · show regular (w₃.files slot.otherFile) = none
      rw [hkeep, hfiles, discard_self]
    · rintro rfl
      show w₃.flash .s0 = _
      rw [hflash]
      show Function.update w₁.flash .s0 (invalidated P (w₁.flash .s0)) .s0 = _
      rw [Function.update_self, show w₁.flash .s0 = w.flash .s0 from hactive]
  | false =>
    have hopened : (w₁.after n buf (settled false slot.ownFile w₁.files)).opened = [] := h₁.opened
    obtain ⟨ok, w₃, hrest, hfiles₃, hgone⟩ := run_loaderAndApp (P := P)
      (h₁.reliable.after n buf (settled false slot.ownFile w₁.files)) hopened hwRev found
    rw [if_neg (by decide), hrest, run_bootEnd]
    dsimp only
    intro hreboot
    right
    have hshrink₂ : Shrinks w.files (settled false slot.ownFile w₁.files) := by
      rw [hfiles]
      exact (shrinks_discard _ _).trans (shrinks_discard _ _)
    have hshrink : Shrinks w.files w₃.files := by
      rw [hfiles₃]
      exact hshrink₂.trans ((shrinks_discard _ _).trans (shrinks_discard _ _))
    have hfound : (found || ok) = true := by
      cases hb : (found || ok) with
      | true => rfl
      | false =>
        rw [hb] at hreboot
        exact nomatch hreboot
    rcases Bool.or_eq_true_iff.mp hfound with hfound | hok
    · -- the file for the other slot was installed
      refine fileCount_lt hshrink (h₁.found hfound) ?_
      have hgone₁ : (regular (w₁.files slot.otherFile)).isSome = false := by
        rw [hfiles, discard_self]
        rfl
      refine Option.not_isSome_iff_eq_none.mp (fun h => ?_)
      have hshrink₁ : Shrinks w₁.files w₃.files := by
        rw [hfiles₃]
        exact (shrinks_discard _ _).trans ((shrinks_discard _ _).trans (shrinks_discard _ _))
      exact Bool.false_ne_true (hgone₁.symm.trans (hshrink₁ _ h))
    · obtain ⟨g, hg, hgone⟩ := hgone hok
      exact fileCount_lt hshrink (hshrink₂ g hg) hgone

/-- Slot 1 waits for slot 0 to install its file, and changes nothing. -/
theorem run_waiting (hw : Reliable w) (ht : w.opened = [])
    (habsent : regular (w.files .mcuboot0) = none)
    (hacc : handoverAccepts P .mcuboot1 (w.files .mcuboot1) w.sharedBuf .s1 (w.flash .s1).length
      hwRev = true) :
    ∃ n buf, P.run (mcubootFwUpdate P .slot1 hwRev) w = (.rebooted, w.after n buf w.files) := by
  obtain ⟨n, hupdate⟩ := run_update_absent (P := P)
    (hw.after (w.clock + 2) w.sharedBuf w.files) habsent .s0 hwRev true
  obtain ⟨m, buf, hcheck⟩ : ∃ m buf, P.run (handoverCheck P .slot1 hwRev)
      (w.after n w.sharedBuf w.files) = (true, w.after m buf w.files) := by
    obtain ⟨m, buf, hcheck⟩ := run_handoverCheck (P := P) (hw.after n w.sharedBuf w.files) ht .slot1
      hwRev
    have hacc' : handoverAccepts P SlotId.slot1.ownFile
        ((w.after n w.sharedBuf w.files).files SlotId.slot1.ownFile)
        (w.after n w.sharedBuf w.files).sharedBuf SlotId.slot1.activeFaId
        ((w.after n w.sharedBuf w.files).flash SlotId.slot1.activeFaId).length hwRev = true := hacc
    rw [hacc'] at hcheck
    exact ⟨m, buf, hcheck⟩
  rw [mcubootFwUpdate_eq, P.run_bind_of (run_mount hw), if_pos rfl, checkUpdatesOnFs_eq]
  have hboot : P.run (checkFileAndUpdate P SlotId.slot1.otherFile SlotId.slot1.otherFaId hwRev true)
      (w.after (w.clock + 2) w.sharedBuf w.files) = (false, w.after n w.sharedBuf w.files) := hupdate
  rw [P.run_bind, P.run_bind_of hboot, P.run_bind_of hcheck, if_pos rfl]
  exact ⟨m + 1, buf, rfl⟩

/-! ## The device -/

/-- What a boot finds. -/
structure Disk where
  files : UpdateFile → Option DirEntry
  flash : FaId → Bytes

def World.disk (w : World) : Disk := { files := w.files, flash := w.flash }

/-- A boot in which nothing fails. -/
def Disk.boot (x : Disk) (buf : Bytes) : World :=
  World.atBoot x.files x.flash buf (fun _ _ => .none)

theorem Disk.boot_reliable (x : Disk) (buf : Bytes) : Reliable (x.boot buf) := fun _ _ => rfl

/-- The version that the first-stage bootloader compares. -/
def slotVersion (P : Platform) (content : Bytes) : UInt32 := (fwInfoVersion P content).getD 0

/-- The slot that the first-stage bootloader starts: of two bootable ones the one with the
higher version, slot 0 on a tie. -/
def b0Slot (P : Platform) (flash : FaId → Bytes) : Option SlotId :=
  match P.bootable .s0 (flash .s0), P.bootable .s1 (flash .s1) with
  | true, true =>
    if slotVersion P (flash .s1) > slotVersion P (flash .s0) then some .slot1 else some .slot0
  | true, false => some .slot0
  | false, true => some .slot1
  | false, false => none

theorem b0Slot_slot0 {flash : FaId → Bytes} (h : b0Slot P flash = some .slot0) :
    P.bootable .s0 (flash .s0) = true := by
  unfold b0Slot at h
  cases h0 : P.bootable .s0 (flash .s0) with
  | true => rfl
  | false =>
    rw [h0] at h
    cases h1 : P.bootable .s1 (flash .s1) with
    | true =>
      rw [h1] at h
      exact nomatch h
    | false =>
      rw [h1] at h
      exact nomatch h

/-- A device: the platform, and what the image in a slot knows about itself. -/
structure Device where
  platform : Platform
  version : SlotId → (FaId → Bytes) → ImageVersion
  hwRev : SlotId → (FaId → Bytes) → HwRev

variable (D : Device) {x y : Disk}

/-- The platform with the image in the slot running. -/
def Device.running (slot : SlotId) (x : Disk) : Platform :=
  D.platform.running (D.version slot x.flash)

/-- A boot on `x` reboots into `y`. -/
def RebootsInto (x y : Disk) : Prop :=
  ∃ slot buf, b0Slot D.platform x.flash = some slot ∧
    let r := (D.running slot x).run
      (mcubootFwUpdate (D.running slot x) slot (D.hwRev slot x.flash)) (x.boot buf)
    r.1 = .rebooted ∧ r.2.disk = y

/-- Some slot is started. -/
def Starts (x : Disk) : Prop := ∃ slot, b0Slot D.platform x.flash = some slot

/-- Slot 1 is started, there is no file for slot 0, and slot 1 leaves its own file to
slot 0. -/
structure Stuck (x : Disk) : Prop where
  slot1 : b0Slot D.platform x.flash = some .slot1
  noFile : regular (x.files .mcuboot0) = none
  waits : ∃ buf, ((D.running .slot1 x).run (handoverCheck (D.running .slot1 x) .slot1
    (D.hwRev .slot1 x.flash)) (x.boot buf)).1 = true

/-- `fw_info_invalidate` marks the record that is found as not valid. -/
def Invalidates (P : Platform) : Prop :=
  ∀ b info, P.fwInfoFind (P.fwInfoInvalidate b) = some info → info.valid = false

theorem not_bootable_invalidated (hinv : Invalidates P) {fa : FaId} {content : Bytes}
    (h : P.bootable fa content = true) : P.bootable fa (invalidated P content) = false := by
  unfold Platform.bootable at h
  unfold invalidated
  cases hfind : P.fwInfoFind content with
  | none =>
    rw [hfind] at h
    exact absurd h Bool.false_ne_true
  | some info =>
    dsimp only
    unfold Platform.bootable
    cases hfind' : P.fwInfoFind (P.fwInfoInvalidate content) with
    | none => rfl
    | some info' =>
      dsimp only
      rw [hinv content info' hfind', Bool.false_and]

variable {D}

/-- A stuck boot comes back to where it started. -/
theorem Stuck.loop (h : Stuck D x) : RebootsInto D x x := by
  obtain ⟨hslot, habsent, buf, hwaits⟩ := h
  have hw := x.boot_reliable buf
  obtain ⟨_, _, hcheck⟩ := run_handoverCheck (P := D.running .slot1 x) hw rfl .slot1
    (D.hwRev .slot1 x.flash)
  rw [hcheck] at hwaits
  obtain ⟨n, buf', hrun⟩ := run_waiting (P := D.running .slot1 x) hw rfl habsent hwaits
  refine ⟨.slot1, buf, hslot, ?_⟩
  rw [hrun]
  exact ⟨rfl, rfl⟩

/-- A boot from slot 0 may keep all files, if it hands over. -/
def rank (D : Device) (x : Disk) : Nat :=
  2 * fileCount x.files + if b0Slot D.platform x.flash = some .slot0 then 1 else 0

theorem rank_lt_of_fileCount (h : fileCount y.files < fileCount x.files) : rank D y < rank D x := by
  unfold rank
  split <;> split <;> omega

/-- A reboot from a state that is not stuck goes down. -/
theorem rank_lt (hinv : Invalidates D.platform) (h : RebootsInto D x y) (hfree : ¬ Stuck D x) :
    rank D y < rank D x := by
  obtain ⟨slot, buf, hslot, hreboot, rfl⟩ := h
  have hw := x.boot_reliable buf
  have hboot := run_boot (P := D.running slot x) hw rfl slot (D.hwRev slot x.flash) hreboot
  generalize (D.running slot x).run (mcubootFwUpdate (D.running slot x) slot (D.hwRev slot x.flash))
    (x.boot buf) = r at hboot
  rcases hboot with hover | hless
  · have hfiles : Shrinks x.files r.2.files := hover.shrinks
    obtain ⟨buf', hacc⟩ := hover.accepted
    cases slot with
    | slot0 =>
      -- slot 0 is not started again
      have hs0 : r.2.flash .s0 = invalidated D.platform (x.flash .s0) := hover.invalid rfl
      have hnot : b0Slot D.platform r.2.disk.flash ≠ some .slot0 := by
        intro hnext
        have hboot : D.platform.bootable .s0 (r.2.flash .s0) = true := b0Slot_slot0 hnext
        rw [hs0, not_bootable_invalidated hinv (b0Slot_slot0 hslot)] at hboot
        exact Bool.false_ne_true hboot
      have hle : fileCount r.2.disk.files ≤ fileCount x.files := fileCount_le hfiles
      unfold rank
      rw [if_neg hnot, if_pos hslot]
      omega
    | slot1 =>
      have hgone : regular (r.2.files .mcuboot0) = none := hover.otherGone
      cases hfile : regular (x.files .mcuboot0) with
      | some d => exact rank_lt_of_fileCount (fileCount_lt hfiles (by rw [hfile]; rfl) hgone)
      | none =>
        refine absurd ⟨hslot, hfile, buf', ?_⟩ hfree
        obtain ⟨n, buf'', hcheck⟩ := run_handoverCheck (P := D.running .slot1 x)
          (x.boot_reliable buf') rfl .slot1 (D.hwRev .slot1 x.flash)
        rw [hcheck]
        exact hacc
  · exact rank_lt_of_fileCount hless

namespace Reference

theorem valid_invalidated {b : Bytes} {off : Nat} (ho : off + infoSize ≤ b.length) :
    (decodeInfo (slice (overlay b (off + 3) [0]) off infoSize)).valid = false := by
  have hend : off + 4 ≤ b.length := ho
  have hbyte : (slice (overlay b (off + 3) [0]) off infoSize).getD 3 0 = 0 := by
    have htake : (b.take (off + 3)).length = off + 3 := by
      rw [List.length_take]
      omega
    unfold slice infoSize overlay
    rw [List.getD_eq_getElem?_getD, List.getElem?_take_of_lt (by decide), List.getElem?_drop,
      List.getElem?_append_left (by simp; omega), List.getElem?_append_right (by omega), htake,
      Nat.sub_self, List.getElem?_take_of_lt (by omega)]
    rfl
  unfold decodeInfo
  rw [hbyte]
  rfl

theorem invalidates (n : Nat) : Invalidates (platform n) := by
  intro b info h
  have h : (infoOffset (invalidate b)).map (fun off => decodeInfo (slice (invalidate b) off infoSize))
      = some info := h
  rw [infoOffset_invalidated] at h
  cases hoff : infoOffset b with
  | none =>
    rw [hoff] at h
    exact nomatch h
  | some off =>
    have hinv : invalidate b = overlay b (off + 3) [0] := by
      unfold invalidate
      rw [hoff]
    rw [hoff, hinv] at h
    rw [← Option.some.inj h]
    exact valid_invalidated (infoOffset_end hoff)

def device : Device where
  platform := platform 160
  version := fun _ _ => (platform 160).mcubootS0S1ImageVersion
  hwRev := fun _ _ => slotRev

/-- Images in both slots and at most a file for slot 1. -/
def diskForSlot1 (version0 version1 : UInt8) (entry : Option DirEntry) : Disk where
  files f := if f = .mcuboot1 then entry else none
  flash fa := if fa = .s1 then slotContent version1 0x20 else slotContent version0 0x10

def slot1File : FileData := { bytes := slotBytes 7 0x20, size_le := by decide +kernel }

end Reference

end RuuviMcuboot
