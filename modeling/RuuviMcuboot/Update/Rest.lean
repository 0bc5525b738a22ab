/-
Coming to rest.

A boot without update files changes no partition, whatever fails.  A boot in which nothing
fails hands over or leaves no update files, and it cannot hand over twice in a row unless
the device is stuck.  So a device comes to rest after two reboots at most, and from then
on stays as it is.
-/
import RuuviMcuboot.Update.Trust
import RuuviMcuboot.Update.Accounts

namespace RuuviMcuboot

open Binary Effect

variable {P : Platform} {w w' : World} {f : UpdateFile} {slot : SlotId} {hwRev : HwRev}
  {x y : Disk}

/-! ## No update files -/

/-- There is no update file. -/
def NoFiles (files : UpdateFile → Option DirEntry) : Prop := ∀ f, regular (files f) = none

/-- No update files, and these partitions. -/
structure Rests (flash : FaId → Bytes) (w : World) : Prop where
  noFiles : NoFiles w.files
  flash : w.flash = flash

variable {c : FaId → Bytes}

theorem rests_mayRemove {o : Op} (ho : o.mayRemove f) (hw : Rests c w) :
    Rests c (P.exec o w).2 := by
  constructor
  · intro g
    rcases exec_file_kept P o w g with hsame | hgone
    · rw [hsame]
      exact hw.noFiles g
    · rw [hgone]
      rfl
  · rw [exec_flash_of_mayRemove P ho]
    exact hw.flash

theorem rests_mayFormat {o : Op} (ho : o.mayFormat) (hw : Rests c w) : Rests c (P.exec o w).2 := by
  rcases ho with ho | ho
  · exact rests_mayRemove (f := .app) (Or.inl ho) hw
  · subst ho
    simp only [Platform.exec]
    split
    · exact ⟨hw.noFiles, hw.flash⟩
    · exact ⟨fun _ => rfl, hw.flash⟩

theorem kept_mayRemove {α : Type} {p : Fw α} (hp : Issues (Op.mayRemove f) p) :
    Kept P (Rests c) p :=
  triple_of_within (exec_answers P) (fun _ _ ho hv => rests_mayRemove ho hv) hp

theorem kept_mayFormat {α : Type} {p : Fw α} (hp : Issues Op.mayFormat p) : Kept P (Rests c) p :=
  triple_of_within (exec_answers P) (fun _ _ ho hv => rests_mayFormat ho hv) hp

/-- Checks that keep the state and, by the absence of files, come to a verdict. -/
theorem kept_verdict {α : Type} {p : Fw α} {Q : α → Prop} (hp : Issues (Op.mayRemove f) p)
    (hval : ∀ w, Rests c w → Q (P.run p w).1) :
    Triple (S := Api) P.exec (Rests c) p (fun a w => Rests c w ∧ Q a) (Rests c) := by
  intro w hw
  have hkept := kept_mayRemove (P := P) hp w hw
  exact ⟨hkept.1, hkept.2, hval w hw⟩

theorem rests_isFileExist (hw : Rests c w) : (P.run (btldrFsIsFileExist f) w).1 = false := by
  have hfile := hw.noFiles f
  show (P.run (fsStat f >>= _) w).1 = false
  rw [P.run_bind, run_fsStat]
  simp only [Platform.exec, World.tick_files]
  cases (w.faults w.clock (.fsStat f)).rc? with
  | some rc => rfl
  | none =>
    cases hentry : w.files f with
    | none => rfl
    | some entry =>
      rw [hentry] at hfile
      cases entry with
      | file d => cases hfile
      | dir => rfl

theorem rests_getFlashArea (fa : FaId) (hw : Rests c w) :
    Rests c (P.run (getFlashAreaAddressAndSize fa) w).2 :=
  (kept_mayRemove (f := .app) ((within_getFlashArea fa).mono (fun _ ho => Or.inl ho)) w hw).2

/-- Without a file there is nothing to install. -/
theorem rests_updateGates (dst : FaId) (hwRev : HwRev) (flag : Bool) (hw : Rests c w) :
    (P.run (updateGates P f dst hwRev flag) w).1 = false := by
  have hcheck : ∀ a n v, Rests c v →
      (P.run (checkFile P f a n flag) v).1 = FileCheck.failed := by
    intro a n v hv
    rw [checkFile, P.run_bind, rests_isFileExist hv, if_pos rfl]
    rfl
  have harea := rests_getFlashArea (P := P) dst hw
  rw [updateGates, P.run_bind]
  cases (P.run (getFlashAreaAddressAndSize dst) w).1 with
  | none => rfl
  | some a =>
    dsimp only
    rw [P.run_bind, hcheck a.1 a.2 _ harea, if_pos (show FileCheck.failed.ok = false from rfl)]
    rfl

theorem rests_handoverCheck (slot : SlotId) (hwRev : HwRev) (hw : Rests c w) :
    (P.run (handoverCheck P slot hwRev) w).1 = false := by
  rw [handoverCheck, checkUpdateForMcuboot, P.run_bind, rests_isFileExist hw, if_pos rfl]
  rfl

theorem rests_checkFileAndUpdate (f : UpdateFile) (dst : FaId) (hwRev : HwRev) (flag : Bool) :
    Kept P (Rests c) (checkFileAndUpdate P f dst hwRev flag) := by
  apply triple_bind (kept_verdict (Q := fun ok => ok = false) (within_updateGates P hwRev flag)
    (fun w hw => rests_updateGates dst hwRev flag hw))
  intro ok
  apply triple_assume
  intro hok
  rw [if_pos hok]
  exact kept_ret _

theorem rests_checkUpdates (slot : SlotId) (hwRev : HwRev) :
    Kept P (Rests c) (checkUpdatesOnFs P slot hwRev) := by
  rw [checkUpdatesOnFs_eq]
  apply triple_bind (rests_checkFileAndUpdate slot.otherFile slot.otherFaId hwRev true)
  intro found
  apply triple_bind (kept_verdict (Q := fun ok => ok = false) (within_handoverCheck P slot hwRev)
    (fun w hw => rests_handoverCheck slot hwRev hw))
  intro accepted
  apply triple_assume
  intro haccepted
  rw [haccepted, if_neg Bool.false_ne_true]
  apply triple_bind (rests_checkFileAndUpdate .loader .mcubootSecondary hwRev false)
  intro loader
  apply triple_bind (rests_checkFileAndUpdate .app .mcubootPrimary hwRev false)
  exact fun app => kept_ret _

theorem rests_fwUpdate (slot : SlotId) (hwRev : HwRev) :
    Kept P (Rests c) (mcubootFwUpdate P slot hwRev) := by
  rw [mcubootFwUpdate_eq]
  apply triple_bind (kept_mayFormat within_mount)
  intro mounted
  apply triple_ite
  · intro _
    apply triple_bind (rests_checkUpdates slot hwRev)
    exact fun found => kept_mayFormat ((within_bootEnd found).mono (fun _ ho => Or.inl ho))
  · exact fun _ => kept_ret _

theorem rests_onStartup (build : Build) (slot : SlotId) :
    Kept P (Rests c) (onStartup P build slot) := by
  apply triple_bind (kept_mayFormat ((within_printSlots slot).mono (fun _ ho => Or.inl ho)))
  intro found
  apply triple_ite (fun _ => kept_ret _)
  intro _
  apply triple_bind (kept_mayFormat
    ((within_loadImageHeader P slot.activeFaId).mono (fun _ ho => Or.inl ho)))
  intro hdr
  cases hdr with
  | none => exact kept_ret _
  | some hdr =>
    apply triple_ite (fun _ => kept_ret _)
    intro _
    apply triple_ite (fun _ => kept_ret _)
    intro _
    apply triple_bind (rests_fwUpdate slot _)
    exact fun o => kept_ret _

/-- Without update files, no failures, power cuts and restarts change a partition. -/
theorem no_files_no_change (hx : NoFiles x.files)
    (h : Survives (S := Api) P.exec (BootsWith P) World.disk x y) :
    NoFiles y.files ∧ y.flash = x.flash := by
  apply h.invariant (I := fun z => NoFiles z.files ∧ z.flash = x.flash) _ ⟨hx, rfl⟩
  intro z w p w' hz hboot hr
  rcases hboot with ⟨rfl, v, build, slot, rfl⟩
  have hend := (rests_onStartup (P := P.running v) build slot w ⟨hz.1, hz.2⟩).1 w' hr
  exact ⟨hend.noFiles, hend.flash⟩

/-! ## Boots in which nothing fails -/

theorem noFiles_of_shrinks {files files' : UpdateFile → Option DirEntry}
    (h : Shrinks files files') (hnone : NoFiles files) : NoFiles files' := by
  intro g
  apply Option.not_isSome_iff_eq_none.mp
  intro hsome
  have hfile := h g hsome
  rw [hnone g] at hfile
  exact Bool.false_ne_true hfile

/-- The files that a boot removes where it does not hand over. -/
theorem noFiles_discard (slot : SlotId) (files : UpdateFile → Option DirEntry) :
    NoFiles (discard .app (discard .loader (discard slot.ownFile
      (discard slot.otherFile files)))) := by
  have hshrink : ∀ f files, regular (files f) = none →
      ∀ g, regular (discard g files f) = none := by
    intro f files hnone g
    by_cases hg : f = g
    · rw [hg, discard_self]
    · rw [discard_of_ne hg, hnone]
  intro f
  rcases file_cases slot f with hf | hf | hf | hf <;> subst hf
  · exact hshrink _ _ (hshrink _ _ (hshrink _ _ (discard_self _ _) _) _) _
  · exact hshrink _ _ (hshrink _ _ (discard_self _ _) _) _
  · exact hshrink _ _ (discard_self _ _) _
  · exact discard_self _ _

/-- A rejected file leaves the partitions alone. -/
theorem run_update_rejected (hw : Reliable w) (ht : w.opened = []) {dst : FaId} {flag : Bool}
    (hrun : P.run (checkFileAndUpdate P f dst hwRev flag) w = (false, w')) :
    w'.flash = w.flash := by
  rcases run_checkFileAndUpdate P (f := f) hw ht hwRev flag
    with ⟨v, hrun', -, -, hrejected, -⟩
  rw [hrun] at hrun'
  have hv : w' = v := congrArg Prod.snd hrun'
  rw [hv]
  exact hrejected (congrArg Prod.fst hrun').symm

theorem run_loaderAndApp_rejected (hw : Reliable w) (ht : w.opened = []) {found : Bool}
    (hrun : P.run (checkLoaderAndApp P hwRev found) w = (false, w')) : w'.flash = w.flash := by
  rcases run_update (P := P) hw ht .loader .mcubootSecondary hwRev false with ⟨ok₁, w₁, hrun₁, h₁⟩
  rcases run_update (P := P) h₁.reliable h₁.opened .app .mcubootPrimary hwRev false
    with ⟨ok₂, w₂, hrun₂, h₂⟩
  rw [checkLoaderAndApp, P.run_bind_of hrun₁, P.run_bind_of hrun₂, P.run_pure] at hrun
  have hnone : (found || ok₁ || ok₂) = false := congrArg Prod.fst hrun
  have hworld : w₂ = w' := congrArg Prod.snd hrun
  rcases Bool.or_eq_false_iff.mp hnone with ⟨hnone, hok₂⟩
  rw [hok₂] at hrun₂
  rw [(Bool.or_eq_false_iff.mp hnone).2] at hrun₁
  rw [← hworld, run_update_rejected h₁.reliable h₁.opened hrun₂, run_update_rejected hw ht hrun₁]

/-- A boot in which nothing fails hands over and reboots, or leaves no update files. -/
theorem run_boot_cases (hw : Reliable w) (ht : w.opened = []) (slot : SlotId) (hwRev : HwRev) :
    let r := P.run (mcubootFwUpdate P slot hwRev) w
    r.1 = .rebooted ∧ HandedOver P slot hwRev w r.2 ∨
      NoFiles r.2.files ∧ (r.1 = .returned → r.2.flash = w.flash) := by
  have hw₀ := hw.after (w.clock + 2) w.sharedBuf w.files
  rcases run_update (P := P) hw₀ ht slot.otherFile slot.otherFaId hwRev true
    with ⟨found, w₁, hupdate, h₁⟩
  have hfiles : w₁.files = discard slot.otherFile w.files := h₁.files
  have hown : w₁.files slot.ownFile = w.files slot.ownFile := by
    rw [hfiles, discard_of_ne (ownFile_ne_otherFile slot)]
  have hactive : w₁.flash slot.activeFaId = w.flash slot.activeFaId :=
    h₁.flash _ (activeFaId_ne_other slot)
  rcases run_handoverCheck (P := P) h₁.reliable h₁.opened slot hwRev with ⟨n, buf, hcheck⟩
  rw [hown, hactive] at hcheck
  rw [mcubootFwUpdate_eq, P.run_bind_of (run_mount hw), if_pos rfl, checkUpdatesOnFs_eq]
  rw [P.run_bind, P.run_bind_of hupdate, P.run_bind_of hcheck]
  cases hacc : handoverAccepts P slot.ownFile (w.files slot.ownFile) w₁.sharedBuf slot.activeFaId
    (w.flash slot.activeFaId).length hwRev with
  | true =>
    rcases run_handOver (P := P) (h₁.reliable.after n buf (settled true slot.ownFile w₁.files)) slot
      with ⟨w₃, hover, hkeep, hflash⟩
    rw [if_pos rfl, hover, run_bootEnd]
    have hkeep : w₃.files = w₁.files := hkeep
    refine Or.inl ⟨rfl, ⟨_, hacc⟩, ?_, ?_, ?_⟩
    · show Shrinks w.files w₃.files
      rw [hkeep, hfiles]
      exact shrinks_discard _ _
    · show regular (w₃.files slot.otherFile) = none
      rw [hkeep, hfiles, discard_self]
    · intro hslot
      subst hslot
      show w₃.flash .s0 = _
      rw [hflash]
      show Function.update w₁.flash .s0 (invalidated P (w₁.flash .s0)) .s0 = _
      rw [Function.update_self, show w₁.flash .s0 = w.flash .s0 from hactive]
  | false =>
    have hopened : (w₁.after n buf (settled false slot.ownFile w₁.files)).opened = [] := h₁.opened
    rcases run_loaderAndApp (P := P)
      (h₁.reliable.after n buf (settled false slot.ownFile w₁.files)) hopened hwRev found
      with ⟨ok, w₃, hrest, hfiles₃, -⟩
    rw [if_neg Bool.false_ne_true, hrest, run_bootEnd]
    right
    constructor
    · show NoFiles w₃.files
      rw [hfiles₃]
      show NoFiles (discard .app (discard .loader (discard slot.ownFile w₁.files)))
      rw [hfiles]
      exact noFiles_discard slot w.files
    · intro hreturned
      have hnone : (found || ok) = false := by
        cases hb : (found || ok) with
        | false => rfl
        | true =>
          rw [hb] at hreturned
          cases hreturned
      rw [hnone] at hrest
      have hflash₃ := run_loaderAndApp_rejected
        (h₁.reliable.after n buf (settled false slot.ownFile w₁.files)) hopened hrest
      rw [(Bool.or_eq_false_iff.mp hnone).1] at hupdate
      show w₃.flash = w.flash
      have hflash₁ := run_update_rejected hw₀ ht hupdate
      exact hflash₃.trans hflash₁

/-- A boot in which nothing fails and that returns has changed no partition, and from
then on none changes, whatever fails. -/
theorem returned_boot_rests (P : Platform) (slot : SlotId) (hwRev : HwRev) (w : World)
    (hw : Reliable w) (ht : w.opened = [])
    (hreturned : (P.run (mcubootFwUpdate P slot hwRev) w).1 = .returned) (y : Disk)
    (h : Survives (S := Api) P.exec (BootsWith P) World.disk
      (P.run (mcubootFwUpdate P slot hwRev) w).2.disk y) :
    NoFiles y.files ∧ y.flash = w.flash := by
  rcases run_boot_cases (P := P) hw ht slot hwRev with ⟨hreboot, -⟩ | ⟨hnone, hkept⟩
  · rw [hreturned] at hreboot
    cases hreboot
  · rcases no_files_no_change hnone h with ⟨hfiles, hflash⟩
    exact ⟨hfiles, hflash.trans (hkept hreturned)⟩

/-! ## Reboots in a row -/

variable {D : Device}

/-- Without update files there is no reboot. -/
theorem not_rebootsInto_of_noFiles (hx : NoFiles x.files) : ¬ RebootsInto D x y := by
  intro h
  rcases h with ⟨slot, buf, hslot, hreboot, hy⟩
  rcases run_boot (P := D.running slot x) (x.boot_reliable buf) rfl slot
    (D.hwRev slot x.flash) hreboot with hover | hless
  · rcases hover.accepted with ⟨buf', hacc⟩
    have hsome := handoverAccepts_regular hacc
    have hnone : regular ((x.boot buf).files slot.ownFile) = none := hx slot.ownFile
    rw [hnone] at hsome
    exact Bool.false_ne_true hsome
  · have hzero : fileCount (x.boot buf).files = 0 := by
      show fileCount x.files = 0
      rw [fileCount, hx .mcuboot0, hx .mcuboot1, hx .loader, hx .app]
      rfl
    omega

/-- A reboot hands over, or there are no update files left. -/
theorem RebootsInto.cases (h : RebootsInto D x y) :
    (∃ slot buf, b0Slot D.platform x.flash = some slot ∧
      ∃ w', w'.disk = y ∧
        HandedOver (D.running slot x) slot (D.hwRev slot x.flash) (x.boot buf) w') ∨
      NoFiles y.files := by
  rcases h with ⟨slot, buf, hslot, hreboot, hy⟩
  rcases run_boot_cases (P := D.running slot x) (x.boot_reliable buf) rfl slot
    (D.hwRev slot x.flash) with ⟨-, hover⟩ | ⟨hnone, -⟩
  · exact Or.inl ⟨slot, buf, hslot, _, hy, hover⟩
  · right
    rw [← hy]
    exact hnone

theorem ownFile_ne_of_other {a b : SlotId} (h : a.ownFile ≠ b.otherFile) : a = b := by
  cases a <;> cases b <;> first | rfl | exact absurd rfl h

/-- Two hand-overs in a row leave the device stuck in between. -/
theorem stuck_of_handedOver (hinv : Invalidates D.platform) {a b : SlotId} {buf buf' : Bytes}
    (ha : b0Slot D.platform x.flash = some a) (hy : w.disk = y)
    (hfirst : HandedOver (D.running a x) a (D.hwRev a x.flash) (x.boot buf) w)
    (hb : b0Slot D.platform y.flash = some b)
    (hsecond : HandedOver (D.running b y) b (D.hwRev b y.flash) (y.boot buf') w') :
    Stuck D y := by
  rcases hsecond.accepted with ⟨buf'', hacc⟩
  have hgone : regular (y.files a.otherFile) = none := by
    rw [← hy]
    exact hfirst.otherGone
  have hsame : b = a := by
    apply ownFile_ne_of_other
    intro hfile
    have hsome := handoverAccepts_regular hacc
    have hnone : regular ((y.boot buf').files b.ownFile) = none := by
      rw [hfile]
      exact hgone
    rw [hnone] at hsome
    exact Bool.false_ne_true hsome
  subst hsame
  cases b with
  | slot0 =>
    -- slot 0 is invalidated and not started again
    have hs0 : y.flash .s0 = invalidated D.platform (x.flash .s0) := by
      rw [← hy]
      exact hfirst.invalid rfl
    have hboot := b0Slot_slot0 hb
    rw [hs0, not_bootable_invalidated hinv (b0Slot_slot0 ha)] at hboot
    exact absurd hboot Bool.false_ne_true
  | slot1 =>
    refine ⟨hb, hgone, buf'', ?_⟩
    rcases run_handoverCheck (P := D.running .slot1 y) (y.boot_reliable buf'') rfl .slot1
      (D.hwRev .slot1 y.flash) with ⟨_, _, hcheck⟩
    rw [hcheck]
    exact hacc

/-- The second reboot of a device that is not stuck leaves no update files. -/
theorem noFiles_of_two (hinv : Invalidates D.platform) {z : Disk} (hxy : RebootsInto D x y)
    (hyz : RebootsInto D y z) (hfree : ¬ Stuck D y) : NoFiles z.files := by
  rcases hyz.cases with ⟨b, buf', hb, w', hw', hsecond⟩ | hnone
  · rcases hxy.cases with ⟨a, buf, ha, w, hw, hfirst⟩ | hnone
    · exact absurd (stuck_of_handedOver hinv ha hw hfirst hb hsecond) hfree
    · exact absurd hyz (not_rebootsInto_of_noFiles hnone)
  · exact hnone

/-- A device that is never stuck reboots at most twice in a row, and after two reboots
there are no update files. -/
theorem at_most_two_reboots (hinv : Invalidates D.platform) (n : Nat) (x y : Disk)
    (h : Steps (RebootsInto D) (Stuck D) n x y) : n ≤ 2 ∧ (n = 2 → NoFiles y.files) := by
  cases h with
  | zero => exact ⟨Nat.zero_le _, nofun⟩
  | succ _ hxy rest =>
    cases rest with
    | zero => exact ⟨by omega, nofun⟩
    | succ hfree hyz rest =>
      have hnone := noFiles_of_two hinv hxy hyz hfree
      cases rest with
      | zero => exact ⟨Nat.le_refl _, fun _ => hnone⟩
      | succ _ hstep _ => exact absurd hstep (not_rebootsInto_of_noFiles hnone)

end RuuviMcuboot
