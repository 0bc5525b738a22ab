/-
What a boot may change.

From start-up on, whatever fails, a boot leaves the slot it is executing alone, but for
one invalidation from slot 0.  It writes no update file, only removes them, and the sizes
of the other partitions stay.
-/
import RuuviMcuboot.Update.PowerCut
import RuuviMcuboot.Update.RevisionGate

namespace RuuviMcuboot

open Binary Effect

variable {P : Platform} {w w' : World} {f : UpdateFile} {fa : FaId} {slot : SlotId} {hwRev : HwRev}

/-! ## The calls of a boot -/

/-- The calls of a boot from a slot, as far as they change anything. -/
def Op.ofBoot (slot : SlotId) : Op → Prop
  | .flashAreaErase fa _ _ | .flashAreaWrite fa _ _ =>
    fa = slot.otherFaId ∨ fa = .mcubootSecondary ∨ fa = .mcubootPrimary
  | .flashAreaFlatten fa => fa = .littlefsStorage1
  | .fwInfoInvalidate fa => fa = .s0 ∧ slot = .slot0
  | _ => True

theorem Op.inspects.ofBoot {o : Op} (ho : o.inspects) : o.ofBoot slot := by
  cases o <;> first | exact True.intro | exact ho.elim

theorem Op.mayRemove.ofBoot {o : Op} (ho : o.mayRemove f) : o.ofBoot slot := by
  rcases ho with ho | ho
  · exact ho.ofBoot
  · subst ho
    exact True.intro

theorem Op.mayInstall.ofBoot
    (hfa : fa = slot.otherFaId ∨ fa = .mcubootSecondary ∨ fa = .mcubootPrimary) {o : Op}
    (ho : o.mayInstall f fa) : o.ofBoot slot := by
  rcases ho with ho | ho
  · cases o with
    | flashAreaErase fa' off len | flashAreaWrite fa' off data =>
      have hsame : fa' = fa := ho
      rw [← hsame] at hfa
      exact hfa
    | _ => exact Op.inspects.ofBoot ho
  · subst ho
    exact True.intro

theorem Op.mayFormat.ofBoot {o : Op} (ho : o.mayFormat) : o.ofBoot slot := by
  rcases ho with ho | ho
  · exact ho.ofBoot
  · subst ho
    rfl

theorem within_handOver_ofBoot (P : Platform) (slot : SlotId) :
    Issues (Op.ofBoot slot) (handOver P slot) := by
  cases slot with
  | slot1 => exact within_ret _
  | slot0 =>
    apply (within_handOver P .slot0).mono
    intro o ho
    rcases ho with ho | ho
    · exact ho.ofBoot
    · subst ho
      exact ⟨rfl, rfl⟩

theorem within_checkUpdates (P : Platform) (slot : SlotId) (hwRev : HwRev) :
    Issues (Op.ofBoot slot) (checkUpdatesOnFs P slot hwRev) := by
  rw [checkUpdatesOnFs_eq]
  apply within_bind
  · exact (within_checkFileAndUpdate P hwRev true).mono
      (fun _ ho => ho.ofBoot (Or.inl rfl))
  intro found
  apply within_bind
  · exact (within_handoverCheck P slot hwRev).mono (fun _ ho => ho.ofBoot)
  intro accepted
  apply within_ite (within_handOver_ofBoot P slot)
  apply (within_loaderAndApp P hwRev found).mono
  intro o ho
  rcases ho with ho | ho
  · exact ho.ofBoot (Or.inr (Or.inl rfl))
  · exact ho.ofBoot (Or.inr (Or.inr rfl))

theorem within_fwUpdate (P : Platform) (slot : SlotId) (hwRev : HwRev) :
    Issues (Op.ofBoot slot) (mcubootFwUpdate P slot hwRev) := by
  rw [mcubootFwUpdate_eq]
  apply within_bind (within_mount.mono (fun _ ho => ho.ofBoot))
  intro mounted
  apply within_ite _ (within_ret _)
  exact within_bind (within_checkUpdates P slot hwRev)
    (fun found => (within_bootEnd found).mono (fun _ ho => ho.ofBoot))

theorem within_onStartup (P : Platform) (build : Build) (slot : SlotId) :
    Issues (Op.ofBoot slot) (onStartup P build slot) := by
  apply within_bind ((within_printSlots slot).mono (fun _ ho => ho.ofBoot))
  intro found
  apply within_ite (within_ret _)
  apply within_bind ((within_loadImageHeader P slot.activeFaId).mono (fun _ ho => ho.ofBoot))
  intro hdr
  cases hdr with
  | none => exact within_ret _
  | some hdr =>
    apply within_ite (within_ret _)
    apply within_ite (within_ret _)
    exact within_bind (within_fwUpdate P slot _) (fun _ => within_ret _)

/-! ## Files and sizes -/

/-- No call changes an update file but by removing it. -/
theorem exec_file_kept (P : Platform) (o : Op) (w : World) (f : UpdateFile) :
    (P.exec o w).2.files f = w.files f ∨ (P.exec o w).2.files f = none := by
  cases o with
  | fsUnlink g =>
    by_cases hg : f = g
    · subst hg
      simp only [Platform.exec]
      (repeat' split) <;> first | exact Or.inl rfl | exact Or.inr (Function.update_self _ _ _)
    · exact Or.inl (exec_fsUnlink_files_ne P hg w)
  | flashAreaErase fa off len | flashAreaWrite fa off data | flashAreaFlatten fa
  | fwInfoInvalidate fa =>
    simp only [Platform.exec]
    (repeat' split) <;> first | exact Or.inl rfl | exact Or.inr rfl
  | _ =>
    left
    exact congrFun (exec_files_of_inspects P (by exact True.intro) w) f

theorem reaches_file_kept {α : Type} {p : Fw α} (hr : Reaches (S := Api) P.exec p w w')
    (f : UpdateFile) : w'.files f = w.files f ∨ w'.files f = none := by
  induction hr with
  | here => exact Or.inl rfl
  | step o k w w' next ih =>
    rcases ih with ih | ih
    · rcases exec_file_kept P o w f with hsame | hgone
      · exact Or.inl (ih.trans hsame)
      · exact Or.inr (ih.trans hgone)
    · exact Or.inr ih

/-- A call that does not invalidate the partition keeps its size. -/
theorem exec_length_kept {o : Op} (ho : o ≠ .fwInfoInvalidate fa) (w : World) :
    ((P.exec o w).2.flash fa).length = (w.flash fa).length := by
  cases o with
  | flashAreaErase fa' off len | flashAreaWrite fa' off data | flashAreaFlatten fa' =>
    by_cases h : fa = fa'
    · subst h
      simp only [Platform.exec]
      (repeat' split) <;> simp [World.setFlash, World.setFiles, World.tick]
    · simp only [Platform.exec]
      (repeat' split) <;> simp [World.setFlash, World.setFiles, World.tick, h]
  | fwInfoInvalidate fa' =>
    have hne : fa ≠ fa' := fun h => ho (congrArg Op.fwInfoInvalidate h.symm)
    rw [exec_flash_of_spares P (o := .fwInfoInvalidate fa') hne]
  | fsUnlink g => rw [exec_fsUnlink_flash]
  | _ =>
    apply congrArg List.length
    exact congrFun (exec_flash_of_inspects P (by exact True.intro) w) fa

/-- Flattening the partition of the file system removes the files and nothing else. -/
theorem exec_littlefs_kept {o : Op} (ho : o.ofBoot slot) (w : World) :
    (P.exec o w).2.flash .littlefsStorage1 = w.flash .littlefsStorage1 := by
  cases o with
  | flashAreaErase fa off len | flashAreaWrite fa off data =>
    apply exec_flash_of_spares
    intro h
    subst h
    cases slot <;> rcases ho with ho | ho | ho <;> exact nomatch ho
  | fwInfoInvalidate fa =>
    apply exec_flash_of_spares
    intro h
    subst h
    exact nomatch ho.1
  | flashAreaFlatten fa =>
    have hfa : fa = .littlefsStorage1 := ho
    subst hfa
    simp only [Platform.exec]
    split
    · rfl
    · rw [if_pos True.intro]
      rfl
  | fsUnlink f => exact congrFun (exec_fsUnlink_flash P f w) _
  | _ => exact congrFun (exec_flash_of_inspects P (by exact True.intro) w) _

/-! ## The executing slot -/

/-- As it was, or invalidated. -/
def KeptOrInvalidated (P : Platform) (fa : FaId) (w w' : World) : Prop :=
  w'.flash fa = w.flash fa ∨ w'.flash fa = P.fwInfoInvalidate (w.flash fa)

theorem KeptOrInvalidated.of_eq {v v' : World} (h : KeptOrInvalidated P fa v v')
    (hv : v.flash fa = w.flash fa) (hv' : w'.flash fa = v'.flash fa) :
    KeptOrInvalidated P fa w w' := by
  rw [KeptOrInvalidated, ← hv, hv']
  exact h

theorem exec_invalidate_kept (P : Platform) (fa : FaId) (w : World) :
    KeptOrInvalidated P fa w (P.exec (.fwInfoInvalidate fa) w).2 := by
  simp only [Platform.exec]
  split
  · exact Or.inl rfl
  · exact Or.inr (Function.update_self _ _ _)

theorem kept_of_inspects {α : Type} {p : Fw α} (hp : Issues Op.inspects p)
    (hr : Reaches (S := Api) P.exec p w w') : KeptOrInvalidated P fa w w' :=
  Or.inl (congrFun (flash_of_inspects hp hr) fa)

/-- The record of a partition is invalidated once. -/
theorem reaches_imgInvalidate (hr : Reaches (S := Api) P.exec (imgInvalidate P fa) w w') :
    KeptOrInvalidated P fa w w' := by
  have hclose : ∀ (fa' : FaId) (b : Bool),
      Issues Op.inspects (flashAreaClose fa' >>= fun _ => pure b) :=
    fun fa' b => within_bind (issues_perform (.flashAreaClose fa') True.intro)
      (fun _ => within_ret _)
  have hopen := congrFun (exec_flash_of_inspects P (o := .flashAreaOpen fa) True.intro w) fa
  have hanswer := exec_answers P (.flashAreaOpen fa) w
  have hrun : P.run (flashAreaOpen fa) w = P.exec (.flashAreaOpen fa) w := rfl
  cases hexec : P.exec (.flashAreaOpen fa) w with
  | mk r w₁ =>
    rw [hexec] at hopen hanswer hrun
    rw [imgInvalidate] at hr
    rcases (reaches_bind_of hrun w').mp hr with hr | hr
    · exact kept_of_inspects (issues_perform (.flashAreaOpen fa) True.intro) hr
    cases r with
    | error e => exact (kept_of_inspects (within_ret _) hr).of_eq hopen rfl
    | ok a =>
      have ha : a.faId = fa := hanswer
      dsimp only at hr
      rw [ha] at hr
      have hmapped : P.run (flashMapped fa) w₁ = (w₁.flash fa, w₁.tick) := rfl
      rcases (reaches_bind_of hmapped w').mp hr with hr | hr
      · exact (kept_of_inspects (issues_perform (.flashMapped fa) True.intro) hr).of_eq hopen rfl
      cases hfind : P.fwInfoFind (w₁.flash fa) with
      | none =>
        rw [hfind] at hr
        exact (kept_of_inspects (hclose fa false) hr).of_eq hopen rfl
      | some info =>
        rw [hfind] at hr
        dsimp only at hr
        have hcall := exec_invalidate_kept P fa w₁.tick
        rcases (reaches_bind _ _ _ _).mp hr with hr | hr
        · rcases (reaches_perform _ _ _).mp hr with heq | heq
          · rw [heq]
            exact Or.inl hopen
          · rw [heq]
            exact hcall.of_eq hopen rfl
        · exact hcall.of_eq hopen (congrFun (flash_of_inspects (hclose fa true) hr) fa)

theorem reaches_handOver (hr : Reaches (S := Api) P.exec (handOver P slot) w w') :
    KeptOrInvalidated P .s0 w w' := by
  cases slot with
  | slot1 => exact kept_of_inspects (within_ret _) hr
  | slot0 =>
    rcases (reaches_bind _ _ _ _).mp hr with hr | hr
    · exact reaches_imgInvalidate hr
    · rw [(reaches_ret _ _ _).mp hr]
      exact reaches_imgInvalidate (reaches_run _ _)

/-- The calls of a boot from slot 1 leave its own partition alone. -/
theorem Op.ofBoot.spares_active {o : Op} (ho : o.ofBoot .slot1) : o.spares .s1 := by
  cases o with
  | flashAreaErase fa off len | flashAreaWrite fa off data =>
    intro h
    subst h
    rcases ho with ho | ho | ho <;> exact nomatch ho
  | flashAreaFlatten fa =>
    intro h
    subst h
    exact nomatch ho
  | fwInfoInvalidate fa =>
    intro h
    subst h
    exact nomatch ho.1
  | _ => exact True.intro

/-- A partition that every call of a program spares. -/
theorem spared_kept {α : Type} {p : Fw α} {A : Op → Prop} (hA : ∀ o, A o → o.spares fa)
    (hp : Issues A p) (hr : Reaches (S := Api) P.exec p w w') : w'.flash fa = w.flash fa :=
  hp.reaches_eq (exec_answers P) (f := fun v : World => v.flash fa)
    (fun o v ho => exec_flash_of_spares P (hA o ho) v) hr

/-- The updates of a boot from slot 0 invalidate its partition at most once. -/
theorem reaches_checkUpdates_slot0
    (hr : Reaches (S := Api) P.exec (checkUpdatesOnFs P .slot0 hwRev) w w') :
    KeptOrInvalidated P .s0 w w' := by
  have hother : ∀ {v v' : World}, Reaches (S := Api) P.exec
      (checkFileAndUpdate P .mcuboot1 .s1 hwRev true) v v' → v'.flash .s0 = v.flash .s0 :=
    fun hv => spared_kept (fun _ ho => ho.spares (by decide))
      (within_checkFileAndUpdate P hwRev true) hv
  have hcheck : ∀ {v v' : World}, Reaches (S := Api) P.exec
      (handoverCheck P .slot0 hwRev) v v' → v'.flash .s0 = v.flash .s0 :=
    fun hv => spared_kept (fun _ ho => ho.spares) (within_handoverCheck P .slot0 hwRev) hv
  have hrest : ∀ {v v' : World} {found : Bool}, Reaches (S := Api) P.exec
      (checkLoaderAndApp P hwRev found) v v' → v'.flash .s0 = v.flash .s0 := by
    intro v v' found hv
    apply spared_kept _ (within_loaderAndApp P hwRev found) hv
    intro o ho
    rcases ho with ho | ho
    · exact ho.spares (by decide)
    · exact ho.spares (by decide)
  rw [checkUpdatesOnFs_eq] at hr
  rcases (reaches_bind _ _ _ _).mp hr with hr | hr
  · exact Or.inl (hother hr)
  have h₁ := hother (reaches_run (h := P.exec) (checkFileAndUpdate P .mcuboot1 .s1 hwRev true) w)
  rcases (reaches_bind _ _ _ _).mp hr with hr | hr
  · exact Or.inl ((hcheck hr).trans h₁)
  have h₂ := (hcheck (reaches_run _ _)).trans h₁
  split at hr
  · exact (reaches_handOver hr).of_eq h₂ rfl
  · exact Or.inl ((hrest hr).trans h₂)

theorem reaches_fwUpdate_slot0
    (hr : Reaches (S := Api) P.exec (mcubootFwUpdate P .slot0 hwRev) w w') :
    KeptOrInvalidated P .s0 w w' := by
  have hmount : ∀ {v v' : World}, Reaches (S := Api) P.exec btldrFsMount v v' →
      v'.flash .s0 = v.flash .s0 :=
    fun hv => spared_kept (fun _ ho => ho.spares (by decide)) within_mount hv
  rw [mcubootFwUpdate_eq] at hr
  rcases (reaches_bind _ _ _ _).mp hr with hr | hr
  · exact Or.inl (hmount hr)
  have h₁ := hmount (reaches_run (h := P.exec) btldrFsMount w)
  split at hr
  · rcases (reaches_bind _ _ _ _).mp hr with hr | hr
    · exact (reaches_checkUpdates_slot0 hr).of_eq h₁ rfl
    · exact (reaches_checkUpdates_slot0 (reaches_run _ _)).of_eq h₁
        (congrFun (flash_of_inspects (within_bootEnd _) hr) .s0)
  · rw [(reaches_ret _ _ _).mp hr]
    exact Or.inl h₁

theorem reaches_onStartup_slot0 {build : Build}
    (hr : Reaches (S := Api) P.exec (onStartup P build .slot0) w w') :
    KeptOrInvalidated P .s0 w w' := by
  rcases (reaches_bind _ _ _ _).mp hr with hr | hr
  · exact kept_of_inspects (within_printSlots .slot0) hr
  have hprint := within_printSlots (P := P) .slot0
  have h₁ := congrFun (flash_of_inspects (P := P) hprint (reaches_run _ w)) .s0
  dsimp only at hr
  split at hr
  · exact (kept_of_inspects (within_ret _) hr).of_eq h₁ rfl
  have hload := within_loadImageHeader P SlotId.slot0.activeFaId
  rcases (reaches_bind _ _ _ _).mp hr with hr | hr
  · exact (kept_of_inspects hload hr).of_eq h₁ rfl
  have h₂ := (congrFun (flash_of_inspects (P := P) hload (reaches_run _ _)) .s0).trans h₁
  split at hr
  · exact (kept_of_inspects (within_ret _) hr).of_eq h₂ rfl
  split at hr
  · exact (kept_of_inspects (within_ret _) hr).of_eq h₂ rfl
  split at hr
  · exact (kept_of_inspects (within_ret _) hr).of_eq h₂ rfl
  rcases (reaches_bind _ _ _ _).mp hr with hr | hr
  · exact (reaches_fwUpdate_slot0 hr).of_eq h₂ rfl
  · rw [(reaches_ret _ _ _).mp hr]
    exact (reaches_fwUpdate_slot0 (reaches_run _ _)).of_eq h₂ rfl

/-! ## The whole boot -/

/-- Whatever fails, in every world a boot reaches: update files are as they were or gone, the
partition of the file system is as it was but for its files, the other partitions keep their
sizes, and the executing slot keeps its contents, but for one invalidation from slot 0. -/
theorem boot_frame (P : Platform) (build : Build) (slot : SlotId) (w w' : World)
    (hr : Reaches (S := Api) P.exec (onStartup P build slot) w w') :
    (∀ f, w'.files f = w.files f ∨ w'.files f = none) ∧
      w'.flash .littlefsStorage1 = w.flash .littlefsStorage1 ∧
      (∀ fa, fa ≠ .s0 ∨ slot = .slot1 → (w'.flash fa).length = (w.flash fa).length) ∧
      (w'.flash slot.activeFaId = w.flash slot.activeFaId ∨
        slot = .slot0 ∧ w'.flash .s0 = P.fwInfoInvalidate (w.flash .s0)) := by
  have hin := within_onStartup P build slot
  refine ⟨fun f => reaches_file_kept hr f, ?_, ?_, ?_⟩
  · apply hin.reaches_eq (exec_answers P) (f := fun v : World => v.flash .littlefsStorage1) _ hr
    intro o v ho
    exact exec_littlefs_kept ho v
  · intro fa hfa
    apply hin.reaches_eq (exec_answers P) (f := fun v : World => (v.flash fa).length) _ hr
    intro o v ho
    apply exec_length_kept
    intro heq
    rw [heq] at ho
    rcases hfa with hfa | hfa
    · exact hfa ho.1
    · rw [hfa] at ho
      exact nomatch ho.2
  · cases slot with
    | slot1 => exact Or.inl (spared_kept (fun _ ho => ho.spares_active) hin hr)
    | slot0 =>
      rcases reaches_onStartup_slot0 hr with hsame | hinv
      · exact Or.inl hsame
      · exact Or.inr ⟨rfl, hinv⟩

open Reference in
/-- A boot from slot 0 that is cut behind its hundredth call, and in which every seventh call
fails. -/
theorem boot_frame_failing :
    let w : World := { bootRunning recordedFile.bytes recordedFile with
      faults := fun n _ => if n % 7 = 6 then .fail 4 [0xFF] else .none }
    let w' := cut (S := Api) (platform 160).exec 100 (onStartup (platform 160) buildRev5 .slot0) w
    (w'.files .app = w.files .app ∨ w'.files .app = none) ∧
      (w'.flash .mcubootPrimary).length = (w.flash .mcubootPrimary).length := by
  intro w w'
  have h := boot_frame (platform 160) buildRev5 .slot0 w w' (reaches_cut _ _ _ _)
  exact ⟨h.1 .app, h.2.2.1 .mcubootPrimary (Or.inl (by decide))⟩

/-! ## Everything but one installation -/

/-- The calls of a boot outside the installation of one file. -/
def Op.besides (f : UpdateFile) : Op → Prop
  | .flashAreaErase fa _ _ | .flashAreaWrite fa _ _ => fa ≠ f.dst
  | .flashAreaFlatten fa => fa = .littlefsStorage1
  | .fwInfoInvalidate fa => fa = .s0
  | _ => True

theorem Op.inspects.besides {o : Op} (ho : o.inspects) : o.besides f := by
  cases o <;> first | exact True.intro | exact ho.elim

theorem Op.mayRemove.besides {g : UpdateFile} {o : Op} (ho : o.mayRemove g) : o.besides f := by
  rcases ho with ho | ho
  · exact ho.besides
  · subst ho
    exact True.intro

theorem Op.mayFormat.besides {o : Op} (ho : o.mayFormat) : o.besides f := by
  rcases ho with ho | ho
  · exact ho.besides
  · subst ho
    rfl

theorem Op.mayInvalidate.besides {o : Op} (ho : o.mayInvalidate .s0) : o.besides f := by
  rcases ho with ho | ho
  · exact ho.besides
  · subst ho
    rfl

theorem Op.mayInstall.besides {g : UpdateFile} (hg : f ≠ g) {o : Op} (ho : o.mayInstall g g.dst) :
    o.besides f := by
  rcases ho with ho | ho
  · cases o with
    | flashAreaErase fa off len | flashAreaWrite fa off data =>
      have hfa : fa = g.dst := ho
      rw [hfa]
      exact (dst_ne hg).symm
    | _ => exact Op.inspects.besides ho
  · subst ho
    exact True.intro

/-- What else a boot does leaves the partition of the file alone, except in slot 0. -/
theorem Op.besides.spares {o : Op} (ho : o.besides f) (hf : f ≠ .mcuboot0) : o.spares f.dst := by
  cases o with
  | flashAreaErase fa off len | flashAreaWrite fa off data => exact ho.symm
  | flashAreaFlatten fa =>
    have hfa : fa = .littlefsStorage1 := ho
    subst hfa
    cases f <;> exact nofun
  | fwInfoInvalidate fa =>
    have hfa : fa = UpdateFile.mcuboot0.dst := ho
    subst hfa
    exact dst_ne hf
  | _ => exact True.intro

/-- An invariant of every world of a run. -/
abbrev Kept (P : Platform) (I : World → Prop) {α : Type} (p : Fw α) : Prop :=
  Triple (S := Api) P.exec I p (fun _ => I) I

variable {I : World → Prop} {α : Type}

theorem kept_besides (hI : ∀ o v, o.besides f → I v → I (P.exec o v).2) {p : Fw α}
    (hp : Issues (Op.besides f) p) : Kept P I p := triple_of_within (exec_answers P) hI hp

theorem kept_of_issues (hI : ∀ o v, o.besides f → I v → I (P.exec o v).2) {A : Op → Prop}
    (hA : ∀ o, A o → o.besides f) {p : Fw α} (hp : Issues A p) : Kept P I p :=
  kept_besides hI (hp.mono hA)

theorem kept_ret (a : α) : Kept P I (Prog.ret a) := triple_ret (fun _ hv => hv) (fun _ hv => hv)

section Rule

variable (hI : ∀ o v, Op.besides f o → I v → I (P.exec o v).2)
  (hinstall : ∀ hwRev, Kept P I (checkFileAndUpdate P f f.dst hwRev f.flagValidateB0Signature))

include hI hinstall

theorem kept_checkFileAndUpdate (g : UpdateFile) (hwRev : HwRev) :
    Kept P I (checkFileAndUpdate P g g.dst hwRev g.flagValidateB0Signature) := by
  by_cases hg : f = g
  · subst hg
    exact hinstall hwRev
  · exact kept_of_issues hI (fun _ ho => ho.besides hg) (within_checkFileAndUpdate P hwRev _)

theorem kept_checkUpdates (slot : SlotId) (hwRev : HwRev) :
    Kept P I (checkUpdatesOnFs P slot hwRev) := by
  have hother : Kept P I (checkFileAndUpdate P slot.otherFile slot.otherFaId hwRev true) := by
    cases slot with
    | slot0 => exact kept_checkFileAndUpdate hI hinstall .mcuboot1 hwRev
    | slot1 => exact kept_checkFileAndUpdate hI hinstall .mcuboot0 hwRev
  rw [checkUpdatesOnFs_eq]
  apply triple_bind hother
  intro found
  apply triple_bind (kept_of_issues hI (fun _ ho => ho.besides) (within_handoverCheck P slot hwRev))
  intro accepted
  apply triple_ite
  · intro _
    exact kept_of_issues hI (fun _ ho => ho.besides) (within_handOver P slot)
  · intro _
    apply triple_bind (kept_checkFileAndUpdate hI hinstall .loader hwRev)
    intro loader
    apply triple_bind (kept_checkFileAndUpdate hI hinstall .app hwRev)
    exact fun app => kept_ret _

theorem kept_fwUpdate (slot : SlotId) (hwRev : HwRev) :
    Kept P I (mcubootFwUpdate P slot hwRev) := by
  rw [mcubootFwUpdate_eq]
  apply triple_bind (kept_of_issues hI (fun _ ho => ho.besides) within_mount)
  intro mounted
  apply triple_ite
  · intro _
    apply triple_bind (kept_checkUpdates hI hinstall slot hwRev)
    exact fun found => kept_of_issues hI (fun _ ho => ho.besides) (within_bootEnd found)
  · exact fun _ => kept_ret _

/-- What the installation of one file keeps, and every call outside of it, a boot keeps. -/
theorem kept_onStartup (build : Build) (slot : SlotId) : Kept P I (onStartup P build slot) := by
  apply triple_bind (kept_of_issues hI (fun _ ho => ho.besides) (within_printSlots slot))
  intro found
  apply triple_ite (fun _ => kept_ret _)
  intro _
  apply triple_bind (kept_of_issues hI (fun _ ho => ho.besides)
    (within_loadImageHeader P slot.activeFaId))
  intro hdr
  cases hdr with
  | none => exact kept_ret _
  | some hdr =>
    apply triple_ite (fun _ => kept_ret _)
    intro _
    apply triple_ite (fun _ => kept_ret _)
    intro _
    apply triple_bind (kept_fwUpdate hI hinstall slot _)
    exact fun o => kept_ret _

end Rule

end RuuviMcuboot
