/-
What becomes of each file.

A boot in which nothing fails delivers a file to its partition, discards it, or keeps it
because it hands over.  The loader and the application are settled on their own: what
becomes of one of their files depends on it, its partition and the name of the running
hardware, and on nothing else.
-/
import RuuviMcuboot.Update.Boot

namespace RuuviMcuboot

open Binary Effect

variable {P : Platform} {w w' : World} {f g : UpdateFile} {slot : SlotId} {hwRev : HwRev}
  {x y : Disk} {buf : Bytes}

/-! ## One update -/

theorem dst_injective (h : f.dst = g.dst) : f = g := by
  by_contra hne
  exact dst_ne hne h

theorem updateOn_absent (h : regular (x.files f) = none) :
    updateOn P hwRev f buf x = (false, x) := by
  rw [updateOn, h]

theorem updateOn_files (hwRev : HwRev) (f : UpdateFile) (buf : Bytes) (x : Disk) :
    (updateOn P hwRev f buf x).2.files = discard f x.files := by
  unfold updateOn
  split
  · rename_i hnone
    rw [discard, hnone]
    rfl
  · split <;> rfl

theorem updateOn_files_ne (hg : g ≠ f) (hwRev : HwRev) (buf : Bytes) (x : Disk) :
    (updateOn P hwRev f buf x).2.files g = x.files g := by
  rw [updateOn_files, discard_of_ne hg]

theorem updateOn_flash_ne {fa : FaId} (hfa : fa ≠ f.dst) (hwRev : HwRev) (buf : Bytes) (x : Disk) :
    (updateOn P hwRev f buf x).2.flash fa = x.flash fa := by
  unfold updateOn
  split
  · rfl
  · split
    · exact Function.update_of_ne hfa _ _
    · rfl

/-- What becomes of a file over a boot from `x` to `y`. -/
inductive Fate (P : Platform) (hwRev : HwRev) (f : UpdateFile) (x y : Disk) (rebooted : Bool) :
    Prop where
  /-- There is no such file. -/
  | absent (hfile : regular (x.files f) = none) (hsame : y.files f = x.files f)
      (hflash : y.flash f.dst = x.flash f.dst)
  /-- It has passed the checks and is in its partition. -/
  | delivered (d : FileData) (buf : Bytes) (hfile : x.files f = some (.file d))
      (haccepted : gatesAccept P f (some (.file d)) buf f.dst (x.flash f.dst) hwRev
        f.flagValidateB0Signature = true)
      (hgone : y.files f = none) (hflash : y.flash f.dst = placed d.bytes (x.flash f.dst))
      (hreboot : rebooted = true)
  /-- It is removed, and its partition is as it was. -/
  | discarded (d : FileData) (hfile : x.files f = some (.file d)) (hgone : y.files f = none)
      (hflash : y.flash f.dst = x.flash f.dst)
  /-- It is still there, and the boot hands over. -/
  | kept (d : FileData) (hfile : x.files f = some (.file d)) (hkept : y.files f = x.files f)
      (hflash : y.flash f.dst = x.flash f.dst ∨
        f = .mcuboot0 ∧ y.flash .s0 = invalidated P (x.flash .s0))
      (hreboot : rebooted = true)

theorem discard_file {files : UpdateFile → Option DirEntry} {d : FileData}
    (h : files f = some (.file d)) : discard f files f = none := by
  have hregular : regular (files f) = some d := by
    rw [h]
    rfl
  rw [discard_regular hregular, Function.update_self]

/-- The update of a file settles it. -/
theorem fate_updateOn (hwRev : HwRev) (f : UpdateFile) (buf : Bytes) (x : Disk) :
    Fate P hwRev f x (updateOn P hwRev f buf x).2 (updateOn P hwRev f buf x).1 := by
  have hfiles := congrFun (updateOn_files (P := P) hwRev f buf x) f
  cases hfile : regular (x.files f) with
  | none =>
    rw [updateOn_absent hfile]
    exact .absent hfile rfl rfl
  | some d =>
    have hentry := regular_some hfile
    have hgone : (updateOn P hwRev f buf x).2.files f = none := hfiles.trans (discard_file hentry)
    cases hacc : gatesAccept P f (x.files f) buf f.dst (x.flash f.dst) hwRev
        f.flagValidateB0Signature with
    | true =>
      have hval : updateOn P hwRev f buf x = (true, x.place f d) := by
        rw [updateOn, hfile]
        dsimp only
        rw [hacc, if_pos rfl]
      rw [hentry] at hacc
      refine .delivered d buf hentry hacc hgone ?_ ?_
      · rw [hval]
        exact Function.update_self _ _ _
      · rw [hval]
    | false =>
      have hval : updateOn P hwRev f buf x = (false, x.discard f) := by
        rw [updateOn, hfile]
        dsimp only
        rw [hacc, if_neg Bool.false_ne_true]
      refine .discarded d hentry hgone ?_
      rw [hval]
      rfl

/-- The rest of the boot leaves the file and its partition alone. -/
theorem Fate.before {x₁ : Disk} {b b' : Bool} (h : Fate P hwRev f x₁ y b)
    (hfile : x₁.files f = x.files f) (hflash : x₁.flash f.dst = x.flash f.dst)
    (hb : b = true → b' = true) : Fate P hwRev f x y b' := by
  cases h with
  | absent hnone hsame hfl =>
    rw [hfile] at hnone hsame
    rw [hflash] at hfl
    exact .absent hnone hsame hfl
  | delivered d buf hd hacc hgone hfl hre =>
    rw [hfile] at hd
    rw [hflash] at hacc hfl
    exact .delivered d buf hd hacc hgone hfl (hb hre)
  | discarded d hd hgone hfl =>
    rw [hfile] at hd
    rw [hflash] at hfl
    exact .discarded d hd hgone hfl
  | kept d hd hkept hfl hre =>
    rw [hfile] at hd hkept
    refine .kept d hd hkept ?_ (hb hre)
    rcases hfl with hfl | ⟨hf, hfl⟩
    · rw [hflash] at hfl
      exact Or.inl hfl
    · subst hf
      have hs0 : x₁.flash .s0 = x.flash .s0 := hflash
      rw [hs0] at hfl
      exact Or.inr ⟨rfl, hfl⟩

theorem Fate.after {y₁ : Disk} {b b' : Bool} (h : Fate P hwRev f x y₁ b)
    (hfile : y.files f = y₁.files f) (hflash : y.flash f.dst = y₁.flash f.dst)
    (hb : b = true → b' = true) : Fate P hwRev f x y b' := by
  cases h with
  | absent hnone hsame hfl => exact .absent hnone (hfile.trans hsame) (hflash.trans hfl)
  | delivered d buf hd hacc hgone hfl hre =>
    exact .delivered d buf hd hacc (hfile.trans hgone) (hflash.trans hfl) (hb hre)
  | discarded d hd hgone hfl => exact .discarded d hd (hfile.trans hgone) (hflash.trans hfl)
  | kept d hd hkept hfl hre =>
    refine .kept d hd (hfile.trans hkept) ?_ (hb hre)
    rcases hfl with hfl | ⟨hf, hfl⟩
    · exact Or.inl (hflash.trans hfl)
    · subst hf
      have hs0 : y.flash .s0 = y₁.flash .s0 := hflash
      exact Or.inr ⟨rfl, hs0.trans hfl⟩

/-- A boot that hands over keeps a file that it does not touch. -/
theorem fate_untouched {b : Bool} (hfile : y.files f = x.files f)
    (hflash : y.flash f.dst = x.flash f.dst) (hb : b = true) : Fate P hwRev f x y b := by
  cases hreg : regular (x.files f) with
  | none => exact .absent hreg hfile hflash
  | some d => exact .kept d (regular_some hreg) hfile (Or.inl hflash) hb

/-! ## A boot -/

theorem loaderAndAppOn_files_ne (hl : f ≠ .loader) (ha : f ≠ .app) :
    (loaderAndAppOn P hwRev x).2.files f = x.files f :=
  (updateOn_files_ne ha hwRev [] _).trans (updateOn_files_ne hl hwRev [] x)

theorem loaderAndAppOn_flash_ne {fa : FaId} (hl : fa ≠ .mcubootSecondary)
    (ha : fa ≠ .mcubootPrimary) : (loaderAndAppOn P hwRev x).2.flash fa = x.flash fa :=
  (updateOn_flash_ne (f := .app) ha hwRev [] _).trans
    (updateOn_flash_ne (f := .loader) hl hwRev [] x)

theorem fate_loader : Fate P hwRev .loader x (loaderAndAppOn P hwRev x).2
    (loaderAndAppOn P hwRev x).1 := by
  apply (fate_updateOn hwRev .loader [] x).after
  · exact updateOn_files_ne (by decide) hwRev [] _
  · exact updateOn_flash_ne (by decide) hwRev [] _
  · intro hb
    show (_ || _) = true
    rw [hb, Bool.true_or]

theorem fate_app : Fate P hwRev .app x (loaderAndAppOn P hwRev x).2
    (loaderAndAppOn P hwRev x).1 := by
  apply (fate_updateOn hwRev .app [] (updateOn P hwRev .loader [] x).2).before
  · exact updateOn_files_ne (by decide) hwRev [] x
  · exact updateOn_flash_ne (by decide) hwRev [] x
  · intro hb
    show (_ || _) = true
    rw [hb, Bool.or_true]

theorem otherFile_ne (slot : SlotId) : slot.otherFile ≠ .loader ∧ slot.otherFile ≠ .app := by
  cases slot <;> decide

theorem ownFile_ne (slot : SlotId) : slot.ownFile ≠ .loader ∧ slot.ownFile ≠ .app := by
  cases slot <;> decide

theorem file_cases (slot : SlotId) (f : UpdateFile) :
    f = slot.otherFile ∨ f = slot.ownFile ∨ f = .loader ∨ f = .app := by
  cases slot <;> cases f <;> decide

/-- What a boot on `x` comes to where it hands over. -/
theorem checkUpdatesOn_handOver (h : handsOver P slot hwRev
      (bufferAfter P slot.otherFile (x.files slot.otherFile) buf (x.flash slot.otherFaId).length)
      (updateOn P hwRev slot.otherFile buf x).2 = true) :
    checkUpdatesOn P slot hwRev buf x =
      (true, (updateOn P hwRev slot.otherFile buf x).2.handOver P slot) := by
  rw [checkUpdatesOn]
  dsimp only
  rw [if_pos h]

theorem checkUpdatesOn_goOn (h : handsOver P slot hwRev
      (bufferAfter P slot.otherFile (x.files slot.otherFile) buf (x.flash slot.otherFaId).length)
      (updateOn P hwRev slot.otherFile buf x).2 = false) :
    checkUpdatesOn P slot hwRev buf x =
      ((updateOn P hwRev slot.otherFile buf x).1 || (loaderAndAppOn P hwRev
          ((updateOn P hwRev slot.otherFile buf x).2.discard slot.ownFile)).1,
        (loaderAndAppOn P hwRev
          ((updateOn P hwRev slot.otherFile buf x).2.discard slot.ownFile)).2) := by
  rw [checkUpdatesOn]
  dsimp only
  rw [h, if_neg Bool.false_ne_true]

theorem handOver_flash_ne {fa : FaId} (hfa : ¬ (fa = .s0 ∧ slot = .slot0)) :
    (x.handOver P slot).flash fa = x.flash fa := by
  cases slot with
  | slot0 => exact Function.update_of_ne (fun h => hfa ⟨h, rfl⟩) _ _
  | slot1 => rfl

theorem handOver_files (slot : SlotId) (x : Disk) : (x.handOver P slot).files = x.files := by
  cases slot <;> rfl

theorem handOver_s0 (x : Disk) :
    (x.handOver P .slot0).flash .s0 = invalidated P (x.flash .s0) := by
  show Function.update x.flash .s0 (invalidated P (x.flash .s0)) .s0 = _
  rw [Function.update_self]

theorem otherFile_spared (slot : SlotId) : ¬ (slot.otherFile.dst = .s0 ∧ slot = .slot0) := by
  cases slot <;> decide

/-- Every file is accounted for. -/
theorem fate_checkUpdatesOn (slot : SlotId) (hwRev : HwRev) (buf : Bytes) (x : Disk)
    (f : UpdateFile) :
    Fate P hwRev f x (checkUpdatesOn P slot hwRev buf x).2
      (checkUpdatesOn P slot hwRev buf x).1 := by
  have hother := fate_updateOn (P := P) hwRev slot.otherFile buf x
  have hne : f ≠ slot.otherFile → (updateOn P hwRev slot.otherFile buf x).2.files f = x.files f ∧
      (updateOn P hwRev slot.otherFile buf x).2.flash f.dst = x.flash f.dst :=
    fun hf => ⟨updateOn_files_ne hf hwRev buf x, updateOn_flash_ne (dst_ne hf) hwRev buf x⟩
  cases hacc : handsOver P slot hwRev (bufferAfter P slot.otherFile (x.files slot.otherFile) buf
      (x.flash slot.otherFaId).length) (updateOn P hwRev slot.otherFile buf x).2 with
  | true =>
    rw [checkUpdatesOn_handOver hacc]
    have hregular := handoverAccepts_regular hacc
    generalize updateOn P hwRev slot.otherFile buf x = o at hother hne hregular
    by_cases hf : f = slot.otherFile
    · subst hf
      exact hother.after (congrFun (handOver_files slot _) _) (handOver_flash_ne (otherFile_spared slot))
        (fun _ => rfl)
    · have hkeep := hne hf
      by_cases hown : f.dst = .s0 ∧ slot = .slot0
      · rcases hown with ⟨hs0, rfl⟩
        have hf : f = .mcuboot0 := dst_injective hs0
        subst hf
        rcases Option.isSome_iff_exists.mp hregular with ⟨d, hd⟩
        have hs0 : o.2.flash .s0 = x.flash .s0 := hkeep.2
        have hinv := handOver_s0 (P := P) o.2
        rw [hs0] at hinv
        exact .kept d (hkeep.1.symm.trans (regular_some hd)) hkeep.1 (Or.inr ⟨rfl, hinv⟩) rfl
      · exact fate_untouched ((congrFun (handOver_files slot _) f).trans hkeep.1)
          ((handOver_flash_ne hown).trans hkeep.2) rfl
  | false =>
    rw [checkUpdatesOn_goOn hacc]
    generalize updateOn P hwRev slot.otherFile buf x = o at hother hne
    have hdiscard : f ≠ slot.ownFile → (o.2.discard slot.ownFile).files f = o.2.files f :=
      fun hf => discard_of_ne hf o.2.files
    rcases file_cases slot f with hf | hf | hf | hf
    · subst hf
      apply hother.after
      · exact (loaderAndAppOn_files_ne (otherFile_ne slot).1 (otherFile_ne slot).2).trans
          (hdiscard (ownFile_ne_otherFile slot).symm)
      · exact loaderAndAppOn_flash_ne (dst_ne (g := .loader) (otherFile_ne slot).1)
          (dst_ne (g := .app) (otherFile_ne slot).2)
      · intro hb
        rw [hb, Bool.true_or]
    · subst hf
      have hkeep := hne (ownFile_ne_otherFile slot)
      have hflash : (loaderAndAppOn P hwRev (o.2.discard slot.ownFile)).2.flash slot.ownFile.dst =
          x.flash slot.ownFile.dst :=
        (loaderAndAppOn_flash_ne (dst_ne (g := .loader) (ownFile_ne slot).1)
          (dst_ne (g := .app) (ownFile_ne slot).2)).trans hkeep.2
      have hfiles : (loaderAndAppOn P hwRev (o.2.discard slot.ownFile)).2.files slot.ownFile =
          discard slot.ownFile o.2.files slot.ownFile :=
        loaderAndAppOn_files_ne (ownFile_ne slot).1 (ownFile_ne slot).2
      cases hreg : regular (x.files slot.ownFile) with
      | none =>
        refine .absent hreg (hfiles.trans ?_) hflash
        rw [discard, hkeep.1, hreg]
        exact hkeep.1
      | some d =>
        have hentry := regular_some hreg
        exact .discarded d hentry (hfiles.trans (discard_file (hkeep.1.trans hentry))) hflash
    · subst hf
      have hkeep := hne (otherFile_ne slot).1.symm
      apply fate_loader.before ((hdiscard (ownFile_ne slot).1.symm).trans hkeep.1) hkeep.2
      intro hb
      rw [hb, Bool.or_true]
    · subst hf
      have hkeep := hne (otherFile_ne slot).2.symm
      apply fate_app.before ((hdiscard (ownFile_ne slot).2.symm).trans hkeep.1) hkeep.2
      intro hb
      rw [hb, Bool.or_true]

/-- A boot in which nothing fails accounts for every file: it is in its partition, or it is
removed and the partition as it was, or it is kept because the boot hands over.  A boot that
delivers a file or keeps one reboots. -/
theorem boot_accounts (P : Platform) (slot : SlotId) (hwRev : HwRev) (w : World) (hw : Reliable w)
    (ht : w.opened = []) (hwords : w.disk.Words) (f : UpdateFile) :
    Fate P hwRev f w.disk (P.run (mcubootFwUpdate P slot hwRev) w).2.disk
      (decide ((P.run (mcubootFwUpdate P slot hwRev) w).1 = .rebooted)) := by
  rcases run_fwUpdate_eq P slot hwRev w hw ht hwords with ⟨hout, hdisk⟩
  rw [hout, hdisk]
  apply (fate_checkUpdatesOn slot hwRev w.sharedBuf w.disk f).after rfl rfl
  intro hb
  rw [hb, if_pos rfl]
  exact decide_eq_true rfl

open Reference in
theorem trailingFile_accounted :
    let P := platform 8
    let w := bootWith trailingFile
    Fate P HwRev.zero .app w.disk (P.run (mcubootFwUpdate P .slot0 HwRev.zero) w).2.disk
      (decide ((P.run (mcubootFwUpdate P .slot0 HwRev.zero) w).1 = .rebooted)) :=
  boot_accounts (platform 8) .slot0 HwRev.zero (bootWith trailingFile) (fun _ _ => rfl) rfl
    (bootWith_words trailingFile) .app

/-! ## The loader and the application on their own -/

/-- A file and its partition. -/
def Disk.part (x : Disk) (f : UpdateFile) : Option DirEntry × Bytes := (x.files f, x.flash f.dst)

/-- The boot hands over. -/
def BootHandsOver (P : Platform) (slot : SlotId) (hwRev : HwRev) (w : World) : Prop :=
  handsOver P slot hwRev
    (bufferAfter P slot.otherFile (w.files slot.otherFile) w.sharedBuf
      (w.flash slot.otherFaId).length)
    (updateOn P hwRev slot.otherFile w.sharedBuf w.disk).2 = true

/-- Only the version of the running MCUboot is compared with files for MCUboot. -/
theorem downgradeAllowed_running (v : ImageVersion) {dst : FaId} (h0 : dst ≠ .s0) (h1 : dst ≠ .s1)
    (hdr : ImageHeader) : downgradeAllowed (P.running v) dst hdr = downgradeAllowed P dst hdr := by
  have hdst : ∀ rc : Int, ¬ (rc ≥ 0 ∧ (dst = .s0 ∨ dst = .s1)) := by
    intro rc h
    exact h.2.elim h0 h1
  unfold downgradeAllowed
  dsimp only
  rw [if_neg (hdst _), if_neg (hdst _)]
  rfl

theorem gatesAccept_running (v : ImageVersion) {d : FileData} {content : Bytes}
    {hwRev hwRev' : HwRev} (hname : cString hwRev.hwRevName = cString hwRev'.hwRevName)
    {dst : FaId} (h0 : dst ≠ .s0) (h1 : dst ≠ .s1) :
    gatesAccept (P.running v) f (some (.file d)) [] dst content hwRev false =
      gatesAccept P f (some (.file d)) [] dst content hwRev' false := by
  unfold gatesAccept fileAccepted dstAccepts
  rw [if_neg Bool.false_ne_true, if_neg Bool.false_ne_true, fileFwInfo_file, fileFwInfo_file,
    fileCheck_file, fileCheck_file, fwInfoOn_running]
  have hval : validateOn (P.running v) d ((P.running v).faOff dst) content.length =
      validateOn P d (P.faOff dst) content.length := validateOn_running v d _ _
  rw [hval]
  cases fwInfoOn P d with
  | none => rfl
  | some info =>
    dsimp only
    rw [downgradeAllowed_running v h0 h1, hwRevMismatch_of_name hname]
    rfl

/-- What becomes of the part of an update that is not for MCUboot. -/
theorem updateOn_part (v v' : ImageVersion) (hflag : f.flagValidateB0Signature = false)
    {hwRev hwRev' : HwRev} (hname : cString hwRev.hwRevName = cString hwRev'.hwRevName)
    (hsame : x.part f = y.part f) :
    (updateOn (P.running v) hwRev f [] x).2.part f =
      (updateOn (P.running v') hwRev' f [] y).2.part f := by
  have h0 : f.dst ≠ .s0 := by
    cases f <;> first | decide | cases hflag
  have h1 : f.dst ≠ .s1 := by
    cases f <;> first | decide | cases hflag
  have hentry : x.files f = y.files f := congrArg Prod.fst hsame
  have hcontent : x.flash f.dst = y.flash f.dst := congrArg Prod.snd hsame
  unfold updateOn
  rw [hentry, hcontent]
  cases hfile : regular (y.files f) with
  | none => exact hsame
  | some d =>
    dsimp only
    rw [regular_some hfile, hflag, gatesAccept_running v hname h0 h1,
      gatesAccept_running v' rfl h0 h1]
    have hgone : discard f x.files f = discard f y.files f := by
      rw [discard_file (hentry.trans (regular_some hfile)), discard_file (regular_some hfile)]
    split
    · refine Prod.ext hgone ?_
      show Function.update x.flash f.dst (placed d.bytes (x.flash f.dst)) f.dst =
        Function.update y.flash f.dst (placed d.bytes (y.flash f.dst)) f.dst
      rw [Function.update_self, Function.update_self, hcontent]
    · exact Prod.ext hgone hcontent

theorem loaderAndAppOn_part (hf : f = .loader ∨ f = .app) :
    (loaderAndAppOn P hwRev x).2.part f = (updateOn P hwRev f [] x).2.part f := by
  rcases hf with hf | hf
  · subst hf
    exact Prod.ext (updateOn_files_ne (by decide) hwRev [] _)
      (updateOn_flash_ne (by decide) hwRev [] _)
  · subst hf
    have hbefore : (updateOn P hwRev .loader [] x).2.part .app = x.part .app :=
      Prod.ext (updateOn_files_ne (by decide) hwRev [] x)
        (updateOn_flash_ne (by decide) hwRev [] x)
    exact updateOn_part (P := P) P.mcubootS0S1ImageVersion P.mcubootS0S1ImageVersion rfl rfl hbefore

/-- The part of the loader or the application behind a boot that does not hand over. -/
theorem checkUpdatesOn_part (hf : f = .loader ∨ f = .app)
    (h : handsOver P slot hwRev
      (bufferAfter P slot.otherFile (x.files slot.otherFile) buf (x.flash slot.otherFaId).length)
      (updateOn P hwRev slot.otherFile buf x).2 = false) :
    (checkUpdatesOn P slot hwRev buf x).2.part f = (updateOn P hwRev f [] x).2.part f := by
  have hflag : f.flagValidateB0Signature = false := by
    rcases hf with hf | hf <;> rw [hf] <;> rfl
  have hother : f ≠ slot.otherFile := by
    rcases hf with hf | hf <;> subst hf
    · exact (otherFile_ne slot).1.symm
    · exact (otherFile_ne slot).2.symm
  have hown : f ≠ slot.ownFile := by
    rcases hf with hf | hf <;> subst hf
    · exact (ownFile_ne slot).1.symm
    · exact (ownFile_ne slot).2.symm
  have hbefore : ((updateOn P hwRev slot.otherFile buf x).2.discard slot.ownFile).part f =
      x.part f :=
    Prod.ext ((discard_of_ne hown _).trans (updateOn_files_ne hother hwRev buf x))
      (updateOn_flash_ne (dst_ne hother) hwRev buf x)
  rw [checkUpdatesOn_goOn h]
  exact (loaderAndAppOn_part hf).trans
    (updateOn_part P.mcubootS0S1ImageVersion P.mcubootS0S1ImageVersion hflag rfl hbefore)

/-- What becomes of the loader or the application is decided by its file, its partition and
the name of the running hardware: two boots that agree in these and do not hand over agree in
the outcome, whichever slot and version runs and whatever else there is. -/
theorem signed_part_independent (P : Platform) (hf : f = .loader ∨ f = .app)
    {v v' : ImageVersion} {slot slot' : SlotId} {hwRev hwRev' : HwRev} {w w' : World}
    (hw : Reliable w) (hw' : Reliable w') (ht : w.opened = []) (ht' : w'.opened = [])
    (hwords : w.disk.Words) (hwords' : w'.disk.Words)
    (hname : cString hwRev.hwRevName = cString hwRev'.hwRevName)
    (hsame : w.disk.part f = w'.disk.part f)
    (hstay : ¬ BootHandsOver (P.running v) slot hwRev w)
    (hstay' : ¬ BootHandsOver (P.running v') slot' hwRev' w') :
    (P.run (mcubootFwUpdate (P.running v) slot hwRev) w).2.disk.part f =
      (P.run (mcubootFwUpdate (P.running v') slot' hwRev') w').2.disk.part f := by
  have hflag : f.flagValidateB0Signature = false := by
    rcases hf with hf | hf <;> rw [hf] <;> rfl
  have hdisk := (run_fwUpdate_eq (P.running v) slot hwRev w hw ht hwords).2
  have hdisk' := (run_fwUpdate_eq (P.running v') slot' hwRev' w' hw' ht' hwords').2
  calc (P.run (mcubootFwUpdate (P.running v) slot hwRev) w).2.disk.part f
      = (checkUpdatesOn (P.running v) slot hwRev w.sharedBuf w.disk).2.part f :=
        congrArg (fun x => Disk.part x f) hdisk
    _ = (updateOn (P.running v) hwRev f [] w.disk).2.part f :=
        checkUpdatesOn_part hf (Bool.eq_false_of_not_eq_true hstay)
    _ = (updateOn (P.running v') hwRev' f [] w'.disk).2.part f :=
        updateOn_part v v' hflag hname hsame
    _ = (checkUpdatesOn (P.running v') slot' hwRev' w'.sharedBuf w'.disk).2.part f :=
        (checkUpdatesOn_part hf (Bool.eq_false_of_not_eq_true hstay')).symm
    _ = (P.run (mcubootFwUpdate (P.running v') slot' hwRev') w').2.disk.part f :=
        congrArg (fun x => Disk.part x f) hdisk'.symm

namespace Reference

/-- A boot with a file for the application alone, and something in the shared buffer. -/
def bootWithApp (d : FileData) : World :=
  World.atBoot (fun f => if f = .app then some (.file d) else none) (fun _ => oldFirmware) [1, 2]
    (fun _ _ => .none)

theorem bootWithApp_words (d : FileData) : (bootWithApp d).disk.Words := bootWith_words d

end Reference

open Reference in
/-- The other files, the slot and the version make no difference to the application. -/
theorem trailingFile_independent :
    let P := platform 8
    let v : ImageVersion := { ivMajor := 3, ivMinor := 0, ivRevision := 0, ivBuildNum := 0 }
    (P.run (mcubootFwUpdate (P.running v) .slot0 HwRev.zero)
        (bootWith trailingFile)).2.disk.part .app =
      (P.run (mcubootFwUpdate (P.running P.mcubootS0S1ImageVersion) .slot1 HwRev.zero)
        (bootWithApp trailingFile)).2.disk.part .app := by
  intro P v
  have hstay : ¬ BootHandsOver (P.running v) .slot0 HwRev.zero (bootWith trailingFile) := by
    rw [BootHandsOver]
    decide +kernel
  have hstay' : ¬ BootHandsOver (P.running P.mcubootS0S1ImageVersion) .slot1 HwRev.zero
      (bootWithApp trailingFile) := by
    rw [BootHandsOver]
    decide +kernel
  exact signed_part_independent P (Or.inr rfl) (fun _ _ => rfl) (fun _ _ => rfl) rfl rfl
    (bootWith_words trailingFile) (bootWithApp_words trailingFile) rfl rfl hstay hstay'

end RuuviMcuboot
