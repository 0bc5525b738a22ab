/-
Power cuts in an installation.

The update file is removed behind the copy, so a cut in front of that leaves it for the
next boot.  But the next boot checks the destination again before it copies, and a
partition that a cut has left half written need not pass these checks: then the file is
removed as well.  As long as every boot finds the destination complete, or in a state that
passes, the image or the file survives all cuts.
-/
import RuuviMcuboot.Update.Reboots

namespace RuuviMcuboot

open Binary Effect

variable {P Q : Platform} {w w' : World} {f : UpdateFile} {hwRev : HwRev}

/-! ## An installation -/

/-- The partition a file is installed in. -/
def UpdateFile.dst : UpdateFile → FaId
  | .mcuboot0 => .s0
  | .mcuboot1 => .s1
  | .loader => .mcubootSecondary
  | .app => .mcubootPrimary

/-- The files of the first-stage bootloader are checked as it would check them. -/
def UpdateFile.flagValidateB0Signature : UpdateFile → Bool
  | .mcuboot0 | .mcuboot1 => true
  | .loader | .app => false

theorem otherFaId_eq (slot : SlotId) : slot.otherFaId = slot.otherFile.dst := by
  cases slot <;> rfl

theorem activeFaId_eq (slot : SlotId) : slot.activeFaId = slot.ownFile.dst := by
  cases slot <;> rfl

theorem dst_ne {f g : UpdateFile} (h : f ≠ g) : f.dst ≠ g.dst := by
  cases f <;> cases g <;> first | exact absurd rfl h | decide

/-- A file that is to be installed over the image `old` by an MCUboot with the name of a
hardware revision. -/
structure Install where
  file : UpdateFile
  data : FileData
  old : Bytes
  hwRevName : Bytes

namespace Install

variable (J : Install)

def dst : FaId := J.file.dst

/-- The old image or the whole file. -/
def Complete (content : Bytes) : Prop :=
  content = J.old ∨ content = J.data.bytes ++ blank (J.old.length - J.data.bytes.length)

/-- The file is there. -/
def Present (x : Disk) : Prop := x.files J.file = some (.file J.data)

/-- The partition holds an image, or the file is still there. -/
def Safe (x : Disk) : Prop := J.Complete (x.flash J.dst) ∨ J.Present x

/-- A partition that passes the checks of the destination, with a shared buffer over
which the file passes the check of the first stage. -/
structure Resumes (P : Platform) (content buf : Bytes) : Prop where
  versions : VersionsAllow P J.dst J.data content
  signature : J.file.flagValidateB0Signature = true →
    b0Verdict P (overlay buf 0 J.data.bytes) (P.faOff J.dst) = true

/-- What holds over all cuts.  A file longer than the partition is never copied. -/
structure Holds (x : Disk) : Prop where
  length : (x.flash J.dst).length = J.old.length
  state : J.Present x ∨ regular (x.files J.file) = none ∧ J.Complete (x.flash J.dst)
  tooLong : J.old.length < J.data.bytes.length → x.flash J.dst = J.old

/-- What the checks of the file alone say about it, for a partition of this size. -/
structure Passes (P : Platform) : Prop where
  info : ∃ info, fwInfoOn P J.data = some info
  name : ∀ hwRev, cString hwRev.hwRevName = J.hwRevName →
    hwRevMismatch hwRev (validateOn P J.data (P.faOff J.dst) J.old.length).hwRev = false
  loads : J.file.flagValidateB0Signature = true →
    b0Loads P (some J.data) J.old.length = some J.data
  validated : J.file.flagValidateB0Signature = false →
    (validateOn P J.data (P.faOff J.dst) J.old.length).ok = true

end Install

variable {J : Install} {x : Disk}

theorem Install.Holds.safe (h : J.Holds x) : J.Safe x :=
  h.state.elim Or.inr (fun h => Or.inl h.2)

theorem Install.Holds.congr (h : J.Holds w.disk) (hfile : w'.files J.file = w.files J.file)
    (hflash : w'.flash J.dst = w.flash J.dst) : J.Holds w'.disk := by
  obtain ⟨hlength, hstate, hlong⟩ := h
  unfold Present at hstate
  constructor
  · show (w'.flash J.dst).length = _
    rw [hflash]
    exact hlength
  · show w'.files J.file = _ ∨ regular (w'.files J.file) = none ∧ J.Complete (w'.flash J.dst)
    rw [hfile, hflash]
    exact hstate
  · show _ → w'.flash J.dst = J.old
    rw [hflash]
    exact hlong

/-! ## The checks in a later boot -/

theorem Install.Passes.running (h : J.Passes P) (v : ImageVersion) : J.Passes (P.running v) := by
  refine ⟨h.info, fun hwRev hname => ?_, h.loads, fun hflag => ?_⟩
  · rw [validateOn_running]
    exact h.name hwRev hname
  · rw [validateOn_running]
    exact h.validated hflag

/-- An installer lets the file pass if the destination passes. -/
theorem Install.Passes.gatesAccept (h : J.Passes P) {content buf : Bytes}
    (hname : cString hwRev.hwRevName = J.hwRevName) (hlength : content.length = J.old.length)
    (hresumes : J.Resumes P content buf) :
    gatesAccept P J.file (some (.file J.data)) buf J.dst content hwRev
      J.file.flagValidateB0Signature = true := by
  obtain ⟨info, hinfo⟩ := h.info
  have hmatch := h.name hwRev hname
  rw [← hlength] at hmatch
  refine (gatesAccept_file J.file buf J.file.flagValidateB0Signature hinfo hmatch).mpr
    ⟨?_, hresumes.versions⟩
  cases hflag : J.file.flagValidateB0Signature with
  | true =>
    have hload := h.loads hflag
    rw [fileAccepted_b0, b0Accepts, hlength, hload]
    exact hresumes.signature hflag
  | false =>
    show ((regular (some (.file J.data))).isSome &&
      (fileCheck P J.file (some (.file J.data)) (P.faOff J.dst) content.length).ok) = true
    rw [fileCheck_file, hlength, h.validated hflag]
    rfl

/-- A file that an installer lets pass over the old image passes the checks of the file. -/
theorem Install.passes_of_gates {buf : Bytes} (hname : cString hwRev.hwRevName = J.hwRevName)
    (h : gatesAccept P J.file (some (.file J.data)) buf J.dst J.old hwRev
      J.file.flagValidateB0Signature = true) : J.Passes P := by
  unfold RuuviMcuboot.gatesAccept at h
  rw [fileFwInfo_file, fileCheck_file, Bool.and_eq_true] at h
  obtain ⟨hfile, hrest⟩ := h
  cases hinfo : fwInfoOn P J.data with
  | none =>
    rw [hinfo] at hrest
    exact absurd hrest Bool.false_ne_true
  | some info =>
    rw [hinfo] at hrest
    dsimp only at hrest
    rw [Bool.and_eq_true] at hrest
    refine ⟨⟨info, hinfo⟩, fun hwRev' hname' => ?_, fun hflag => ?_, fun hflag => ?_⟩
    · rw [hwRevMismatch_of_name (hname'.trans hname.symm)]
      simpa using hrest.1
    · rw [hflag, fileAccepted_b0, b0Accepts] at hfile
      cases hload : b0Loads P (some J.data) J.old.length with
      | none =>
        rw [hload] at hfile
        exact absurd hfile Bool.false_ne_true
      | some d => rw [(b0Loads_some P hload).1]
    · rw [hflag] at hfile
      unfold fileAccepted at hfile
      rw [Bool.and_eq_true, if_neg (by decide), fileCheck_file] at hfile
      exact hfile.2

/-! ## Calls that leave the installation alone -/

/-- The file and the partition are as they were. -/
def Install.Same (J : Install) (w w' : World) : Prop :=
  w'.files J.file = w.files J.file ∧ w'.flash J.dst = w.flash J.dst

theorem Install.Same.trans {w₁ w₂ w₃ : World} (h : J.Same w₁ w₂) (h' : J.Same w₂ w₃) :
    J.Same w₁ w₃ := ⟨h'.1.trans h.1, h'.2.trans h.2⟩

theorem Install.Holds.same (h : J.Holds w.disk) (hsame : J.Same w w') : J.Holds w'.disk :=
  h.congr hsame.1 hsame.2

theorem same_of_inspects {α : Type} {p : Fw α} (hp : Issues Op.inspects p)
    (hr : Reaches (S := Api) P.exec p w w') : J.Same w w' :=
  ⟨congrFun (hp.reaches_eq (exec_answers P) (fun _ v ho => exec_files_of_inspects P ho v) hr) _,
    congrFun (flash_of_inspects hp hr) _⟩

theorem same_of_mayInstall {α : Type} {p : Fw α} (hne : J.file ≠ f)
    (hp : Issues (Op.mayInstall f f.dst) p) (hr : Reaches (S := Api) P.exec p w w') :
    J.Same w w' := by
  constructor
  · exact hp.reaches_eq (exec_answers P) (f := fun v : World => v.files J.file)
      (fun _ v ho => exec_files_ne_of_mayInstall P hne ho v) hr
  · exact hp.reaches_eq (exec_answers P) (f := fun v : World => v.flash J.dst)
      (fun _ v ho => exec_flash_ne_of_mayInstall P (dst_ne hne) ho v) hr

theorem same_of_mayRemove {α : Type} {p : Fw α} (hne : J.file ≠ f)
    (hp : Issues (Op.mayRemove f) p) (hr : Reaches (S := Api) P.exec p w w') : J.Same w w' :=
  same_of_mayInstall hne (hp.mono (fun _ => Op.mayRemove.mayInstall)) hr

theorem reaches_mount (hw : Reliable w) (hr : Reaches (S := Api) P.exec btldrFsMount w w') :
    J.Same w w' := by
  have hmount : P.run fsMount w = (0, w.tick) := by
    rw [run_fsMount]
    simp only [Platform.exec, hw.rc]
  unfold btldrFsMount at hr
  rcases (reaches_bind_of hmount w').mp hr with hr | hr
  · exact same_of_inspects (issues_perform .fsMount True.intro) hr
  · rw [if_neg (by decide)] at hr
    have hsame : J.Same w.tick w' := same_of_inspects
      (within_bind (issues_perform .fsStatvfs True.intro) (fun _ => within_ret _)) hr
    exact hsame

/-! ## The checks -/

theorem exec_file_of_mayRemove {o : Op} (ho : o.mayRemove f) (w : World) :
    (P.exec o w).2.files f = w.files f ∨ (P.exec o w).2.files f = none := by
  rcases ho with ho | rfl
  · exact Or.inl (congrFun (exec_files_of_inspects P ho w) f)
  · simp only [Platform.exec]
    (repeat' split) <;>
      first | exact Or.inl rfl | exact Or.inr (Function.update_self _ _ _)

/-- Checks that may remove the file, but keep it in the end as long as the partition is
not complete. -/
theorem Install.Holds.mayRemove {α : Type} {p : Fw α} (h : J.Holds w.disk)
    (hp : Issues (Op.mayRemove J.file) p)
    (hkeep : J.Present w.disk → ¬ J.Complete (w.flash J.dst) →
      J.Present (P.run p w).2.disk)
    (hr : Reaches (S := Api) P.exec p w w') : J.Holds w'.disk := by
  have hflash : w'.flash J.dst = w.flash J.dst := congrFun (flash_of_mayRemove hp hr) _
  have hfile : w'.files J.file = w.files J.file ∨ w'.files J.file = none := by
    refine hp.reaches_rel (exec_answers P)
      (R := fun a b : World => b.files J.file = a.files J.file ∨ b.files J.file = none)
      (fun _ => Or.inl rfl) (fun a b c hab hbc => ?_) (fun o v ho => exec_file_of_mayRemove ho v) hr
    rcases hbc with hbc | hbc
    · exact hab.imp hbc.trans hbc.trans
    · exact Or.inr hbc
  rcases hfile with hfile | hgone
  · exact h.congr hfile hflash
  · -- what is gone stays gone
    have hend : (P.run p w).2.files J.file = none := by
      refine hp.run_inv_of_reaches (exec_answers P) (I := fun v : World => v.files J.file = none)
        (fun o v ho hv => ?_) hr hgone
      exact (exec_file_of_mayRemove ho v).elim (fun hsame => hsame.trans hv) id
    have hcomplete : J.Complete (w.flash J.dst) := by
      rcases h.state with hpresent | hdone
      · by_contra hnot
        have hpresent' : (P.run p w).2.files J.file = _ := hkeep hpresent hnot
        exact nomatch hend.symm.trans hpresent'
      · exact hdone.2
    refine ⟨?_, Or.inr ⟨?_, ?_⟩, ?_⟩
    · show (w'.flash J.dst).length = _
      rw [hflash]
      exact h.length
    · show regular (w'.files J.file) = none
      rw [hgone]
      rfl
    · show J.Complete (w'.flash J.dst)
      rw [hflash]
      exact hcomplete
    · show _ → w'.flash J.dst = J.old
      rw [hflash]
      exact h.tooLong

/-- As long as the partition is not complete, it passes. -/
def Install.Resumable (J : Install) (P : Platform) (w : World) : Prop :=
  J.Present w.disk → ¬ J.Complete (w.flash J.dst) → J.Resumes P (w.flash J.dst) w.sharedBuf

theorem Install.Resumable.same (h : J.Resumable P w) (hsame : J.Same w w')
    (hbuf : J.file.flagValidateB0Signature = true → w'.sharedBuf = w.sharedBuf) :
    J.Resumable P w' := by
  intro hpresent hnot
  have hpresent : w'.files J.file = some (.file J.data) := hpresent
  rw [hsame.1] at hpresent
  rw [hsame.2] at hnot ⊢
  obtain ⟨hversions, hsignature⟩ := h hpresent hnot
  refine ⟨hversions, fun hflag => ?_⟩
  rw [hbuf hflag]
  exact hsignature hflag

theorem Install.Holds.updateGates (h : J.Holds w.disk) (hpass : J.Passes P) (hw : Reliable w)
    (ht : w.opened = []) (hname : cString hwRev.hwRevName = J.hwRevName) (hres : J.Resumable P w)
    (hr : Reaches (S := Api) P.exec
      (updateGates P J.file J.dst hwRev J.file.flagValidateB0Signature) w w') :
    J.Holds w'.disk := by
  refine h.mayRemove (within_updateGates P hwRev _) (fun hpresent hnot => ?_) hr
  have hacc := hpass.gatesAccept hname h.length (hres hpresent hnot)
  have hfile : w.files J.file = some (.file J.data) := hpresent
  obtain ⟨n, buf, hrun⟩ : ∃ n buf, P.run (RuuviMcuboot.updateGates P J.file J.dst hwRev
      J.file.flagValidateB0Signature) w = _ :=
    run_updateGates P hw ht hwRev J.file.flagValidateB0Signature
  rw [hfile, show gatesAccept P J.file (some (.file J.data)) w.sharedBuf J.dst (w.flash J.dst)
    hwRev J.file.flagValidateB0Signature = true from hacc] at hrun
  rw [hrun]
  exact hfile

/-! ## The copy -/

/-- A file that is longer than the partition is never copied. -/
theorem reaches_copy_too_long {C : CopyJob} (hw : Reliable w) {pos : Nat}
    (ht : w.opened = (C.hd, C.file pos) :: C.t) (hlong : (w.flash C.dst).length < C.d.bytes.length)
    (hr : Reaches (S := Api) P.exec (mcubootImgOpCopy C.dst C.hd) w w') : w'.flash = w.flash := by
  have hopen : P.run (flashAreaOpen C.dst) w =
      (.ok { faId := C.dst, faOff := P.faOff C.dst, faSize := (w.flash C.dst).length }, w.tick) := by
    rw [run_flashAreaOpen]
    simp only [Platform.exec, hw.rc?, World.tick_flash]
  have hseekEnd : P.run (fsSeek C.hd 0 .fromEnd) w.tick =
      (0, w.tick.tick.setOpened ((C.hd, C.file C.d.bytes.length) :: C.t)) :=
    run_fsSeek_head P hw.tick (show w.tick.opened = _ from ht) (CopyJob.target_end pos)
  have htell := run_fsTell_head P (w := w.tick.tick.setOpened
    ((C.hd, C.file C.d.bytes.length) :: C.t)) rfl
  have hseekStart := run_fsSeek_head P (w := (w.tick.tick.setOpened
    ((C.hd, C.file C.d.bytes.length) :: C.t)).tick) (hw.tick.tick.setOpened _).tick rfl
      (CopyJob.target_start C.d.bytes.length)
  have hlook : ∀ {o : Op} {v : World},
      Reaches (S := Api) P.exec (Prog.perform (S := Api) o) v w' → o.inspects →
        v.flash = w.flash → w'.flash = w.flash :=
    fun {o v} hr ho hv => (flash_of_inspects (issues_perform o ho) hr).trans hv
  unfold mcubootImgOpCopy imgProcess at hr
  rcases (reaches_bind_of hopen w').mp hr with hr | hr
  · exact hlook hr True.intro rfl
  rcases (reaches_bind_of hseekEnd w').mp hr with hr | hr
  · exact hlook hr True.intro rfl
  rw [if_neg (by decide)] at hr
  rcases (reaches_bind_of htell w').mp hr with hr | hr
  · exact hlook hr True.intro rfl
  rcases (reaches_bind_of hseekStart w').mp hr with hr | hr
  · exact hlook hr True.intro rfl
  rw [if_neg (by decide), if_pos (by rw [CopyJob.file, toSizeT_length]; exact hlong)] at hr
  rw [(reaches_ret _ _ _).mp hr]
  rfl

/-- What an installation does to the partition in the end. -/
theorem Install.Holds.installed (h : J.Holds w.disk) (hwords : J.old.length % 4 = 0)
    (hinst : Installed J.data J.dst w w') : J.Complete (w'.flash J.dst) := by
  have hlength : (w.flash J.dst).length = J.old.length := h.length
  by_cases hlong : J.old.length < J.data.bytes.length
  · left
    rw [hinst.tooLong (hlength ▸ hlong)]
    exact h.tooLong hlong
  · right
    rw [hinst.whole (hlength ▸ padding_le (Nat.le_of_not_lt hlong) hwords), hlength]

theorem Install.Holds.copyUpdate (h : J.Holds w.disk)
    (hinv : ∀ b, (P.fwInfoInvalidate b).length = b.length) (hwords : J.old.length % 4 = 0)
    (hw : Reliable w) (ht : w.opened = []) (hpresent : J.Present w.disk)
    (hr : Reaches (S := Api) P.exec (copyUpdate J.file J.dst) w w') : J.Holds w'.disk := by
  have hfile : w.files J.file = some (.file J.data) := hpresent
  let C := copyJob J.file J.dst J.data w
  have hopen : P.run (btldrFsOpenFile J.file) w = (some C.hd, copyWorld C w) := by
    show P.run (fsOpen J.file >>= _) w = _
    rw [P.run_bind, run_fsOpen]
    simp only [Platform.exec, hw.rc?, World.tick_files, hfile]
    rfl
  obtain ⟨w₃, hend, -, -, hinst⟩ : ∃ w₃, P.run (RuuviMcuboot.copyUpdate J.file J.dst) w = _ ∧ _ :=
    run_copyUpdate_reliable P hw ht hfile
  have hcopy : P.run (RuuviMcuboot.copyUpdate J.file J.dst) w = _ :=
    run_copyUpdate P hfile (hw.rc? w.clock (.fsOpen J.file))
  rw [hend] at hcopy
  have hcopies : Issues (Op.copies C.hd J.dst) (mcubootImgOpCopy J.dst C.hd) := within_copy
  -- the copy changes nothing but the contents of the partition
  have hduring : ∀ w₂, Reaches (S := Api) P.exec (mcubootImgOpCopy J.dst C.hd) (copyWorld C w) w₂ →
      J.Holds w₂.disk := by
    intro w₂ hr
    have hsame : w₂.files = (copyWorld C w).files := hcopies.reaches_eq (exec_answers P)
      (fun _ v ho => exec_files_of_mayWrite P (Op.copies.mayWrite ho) v) hr
    refine ⟨?_, Or.inl ?_, fun hlong => ?_⟩
    · have hlength : (w₂.flash J.dst).length = ((copyWorld C w).flash J.dst).length :=
        hcopies.reaches_eq (exec_answers P) (f := fun v : World => (v.flash J.dst).length)
          (fun o v _ => exec_flash_length P hinv o v J.dst) hr
      exact hlength.trans h.length
    · show w₂.files J.file = _
      rw [hsame]
      exact hfile
    · have hlong' : ((copyWorld C w).flash C.dst).length < C.d.bytes.length := by
        show (w.flash J.dst).length < _
        rw [show (w.flash J.dst).length = J.old.length from h.length]
        exact hlong
      have hflash : w₂.flash = (copyWorld C w).flash :=
        reaches_copy_too_long (C := C) (hw.tick.setOpened _) rfl hlong' hr
      show w₂.flash J.dst = J.old
      rw [hflash]
      exact h.tooLong hlong
  unfold RuuviMcuboot.copyUpdate at hr
  rcases (reaches_bind_of hopen w').mp hr with hr | hr
  · exact h.same (same_of_inspects (within_looks (f := J.file) within_openFile) hr)
  rcases (reaches_bind _ _ _ _).mp hr with hr | hr
  · exact hduring w' hr
  -- behind the copy the partition is complete
  have hrest : Issues (Op.mayRemove J.file) (btldrFsCloseFile C.hd >>= fun _ =>
      btldrFsUnlinkFile J.file >>= fun _ => pure true) :=
    within_bind (within_inspects (issues_perform (.fsClose C.hd) True.intro))
      (fun _ => within_unlinkReturn _)
  have hflash : w₃.flash = (P.run (mcubootImgOpCopy J.dst C.hd) (copyWorld C w)).2.flash := by
    rw [show w₃ = _ from congrArg Prod.snd hcopy]
    exact flash_of_mayRemove hrest (reaches_run _ _)
  refine (hduring _ (reaches_run _ _)).mayRemove hrest (fun _ hnot => absurd ?_ hnot) hr
  rw [← hflash]
  exact h.installed hwords hinst

/-- A call of `check_file_and_update` for some file. -/
theorem Install.Holds.update (h : J.Holds w.disk) (hpass : J.Passes P)
    (hinv : ∀ b, (P.fwInfoInvalidate b).length = b.length) (hwords : J.old.length % 4 = 0)
    (hw : Reliable w) (ht : w.opened = []) (hname : cString hwRev.hwRevName = J.hwRevName)
    (f : UpdateFile) (hres : J.file = f → J.Resumable P w)
    (hr : Reaches (S := Api) P.exec
      (checkFileAndUpdate P f f.dst hwRev f.flagValidateB0Signature) w w') : J.Holds w'.disk := by
  by_cases hown : J.file = f
  · subst hown
    have hdst : J.file.dst = J.dst := rfl
    rw [hdst] at hr
    obtain ⟨n, buf, hrun⟩ : ∃ n buf, P.run (RuuviMcuboot.updateGates P J.file J.dst hwRev
        J.file.flagValidateB0Signature) w = _ :=
      run_updateGates P hw ht hwRev J.file.flagValidateB0Signature
    unfold checkFileAndUpdate at hr
    rcases (reaches_bind_of hrun w').mp hr with hr | hr
    · exact h.updateGates hpass hw ht hname (hres rfl) hr
    · cases hacc : gatesAccept P J.file (w.files J.file) w.sharedBuf J.dst (w.flash J.dst) hwRev
        J.file.flagValidateB0Signature with
      | false =>
        rw [hacc, if_pos rfl] at hr
        rw [(reaches_ret _ _ _).mp hr, ← hacc,
          show w.after n buf _ = (P.run (RuuviMcuboot.updateGates P J.file J.dst hwRev _) w).2 from
            (congrArg Prod.snd hrun).symm]
        exact h.updateGates hpass hw ht hname (hres rfl) (reaches_run _ _)
      | true =>
        rw [hacc, if_neg (by decide)] at hr
        have hpresent : J.Present w.disk := by
          rcases h.state with hpresent | hgone
          · exact hpresent
          · obtain ⟨d, hd⟩ := gatesAccept_regular P hacc
            exact nomatch hgone.1.symm.trans hd
        have hkept : J.Holds (w.after n buf w.files).disk := h
        exact hkept.copyUpdate hinv hwords (hw.after n buf w.files) ht hpresent hr
  · exact h.same (same_of_mayInstall hown (within_checkFileAndUpdate P hwRev _) hr)

/-! ## A boot -/

/-- A boot in which nothing fails.  An image that is running is complete. -/
structure Install.Boot (J : Install) (slot : SlotId) (hwRev : HwRev) (w : World) : Prop where
  reliable : Reliable w
  opened : w.opened = []
  name : cString hwRev.hwRevName = J.hwRevName
  active : slot.activeFaId = J.dst → J.Complete (w.flash J.dst)

theorem Install.Holds.handOver (h : J.Holds w.disk)
    (hinv : ∀ b, (P.fwInfoInvalidate b).length = b.length) {buf : Bytes}
    (hacc : handoverAccepts P slot.ownFile (w.files slot.ownFile) buf slot.activeFaId
      (w.flash slot.activeFaId).length hwRev = true)
    (hr : Reaches (S := Api) P.exec (handOver P slot) w w') : J.Holds w'.disk := by
  have hissues := within_handOver P slot
  have hfiles : w'.files = w.files := by
    refine hissues.reaches_eq (exec_answers P) (f := World.files) (fun o v ho => ?_) hr
    rcases ho with ho | rfl
    · exact exec_files_of_inspects P ho v
    · simp only [Platform.exec]
      split <;> rfl
  cases slot with
  | slot1 =>
    rw [(reaches_ret _ _ _).mp hr]
    exact h
  | slot0 =>
    by_cases hown : J.file = .mcuboot0
    · have hdst : J.dst = .s0 := congrArg UpdateFile.dst hown
      have hacc : handoverAccepts P .mcuboot0 (w.files .mcuboot0) buf .s0 (w.flash .s0).length
          hwRev = true := hacc
      have hpresent : w.files .mcuboot0 = some (.file J.data) := by
        rw [← hown]
        rcases h.state with hpresent | hgone
        · exact hpresent
        · have hregular := handoverAccepts_regular hacc
          have hnone : regular (w.files .mcuboot0) = none := hown ▸ hgone.1
          rw [hnone] at hregular
          exact absurd hregular Bool.false_ne_true
      rw [hpresent] at hacc
      have hfits : J.data.bytes.length ≤ J.old.length := by
        rw [← h.length, hdst]
        exact b0Accepts_length (handoverAccepts_file hacc).1
      refine ⟨?_, Or.inl ?_, fun hlong => absurd hfits (Nat.not_le_of_lt hlong)⟩
      · have hlength : (w'.flash J.dst).length = (w.flash J.dst).length :=
          hissues.reaches_eq (exec_answers P) (f := fun v : World => (v.flash J.dst).length)
            (fun o v _ => exec_flash_length P hinv o v J.dst) hr
        exact hlength.trans h.length
      · show w'.files J.file = _
        rw [hfiles, hown]
        exact hpresent
    · have hdst : J.dst ≠ .s0 := dst_ne (g := .mcuboot0) hown
      refine h.congr (congrFun hfiles _) ?_
      refine hissues.reaches_eq (exec_answers P) (f := fun v : World => v.flash J.dst)
        (fun o v ho => exec_flash_of_spares P ?_ v) hr
      rcases ho with ho | rfl
      · exact ho.spares
      · exact hdst

theorem Install.Holds.loaderAndApp (h : J.Holds w.disk) (hpass : J.Passes P)
    (hinv : ∀ b, (P.fwInfoInvalidate b).length = b.length) (hwords : J.old.length % 4 = 0)
    (hw : Reliable w) (ht : w.opened = []) (hname : cString hwRev.hwRevName = J.hwRevName)
    (hres : J.file.flagValidateB0Signature = false → J.Resumable P w) (found : Bool)
    (hr : Reaches (S := Api) P.exec (checkLoaderAndApp P hwRev found) w w') : J.Holds w'.disk := by
  obtain ⟨ok, w₁, hrun, h₁⟩ := run_update (P := P) hw ht .loader .mcubootSecondary hwRev false
  have hloader : ∀ v, Reaches (S := Api) P.exec
      (checkFileAndUpdate P .loader .mcubootSecondary hwRev false) w v → J.Holds v.disk :=
    fun v hr => h.update hpass hinv hwords hw ht hname .loader (fun hf => hres (by rw [hf]; rfl)) hr
  unfold checkLoaderAndApp at hr
  rcases (reaches_bind_of hrun w').mp hr with hr | hr
  · exact hloader w' hr
  have hend := hloader (P.run (checkFileAndUpdate P .loader .mcubootSecondary hwRev false) w).2
    (reaches_run _ _)
  rw [hrun] at hend
  have happ : ∀ v, Reaches (S := Api) P.exec
      (checkFileAndUpdate P .app .mcubootPrimary hwRev false) w₁ v → J.Holds v.disk := by
    intro v hr
    refine hend.update hpass hinv hwords h₁.reliable h₁.opened hname .app (fun hf => ?_) hr
    have hne : J.file ≠ .loader := by
      rw [hf]
      decide
    have hsame : J.Same w w₁ := by
      have hsame : J.Same w (P.run (checkFileAndUpdate P .loader .mcubootSecondary hwRev false) w).2 :=
        same_of_mayInstall hne (within_checkFileAndUpdate P hwRev false) (reaches_run _ _)
      rwa [hrun] at hsame
    have hflag : J.file.flagValidateB0Signature = false := by
      rw [hf]
      rfl
    exact (hres hflag).same hsame (fun h => absurd (hflag.symm.trans h) Bool.false_ne_true)
  rcases (reaches_bind _ _ _ _).mp hr with hr | hr
  · exact happ w' hr
  · rw [(reaches_ret _ _ _).mp hr]
    exact happ _ (reaches_run _ _)

theorem Install.Holds.updates (h : J.Holds w.disk) (hpass : J.Passes P)
    (hinv : ∀ b, (P.fwInfoInvalidate b).length = b.length) (hwords : J.old.length % 4 = 0)
    (hboot : J.Boot slot hwRev w) (hres : J.Resumable P w)
    (hr : Reaches (S := Api) P.exec (checkUpdatesOnFs P slot hwRev) w w') : J.Holds w'.disk := by
  obtain ⟨hw, ht, hname, hactive⟩ := hboot
  have hflag : slot.otherFile.flagValidateB0Signature = true := by cases slot <;> rfl
  obtain ⟨found, w₁, hrun, h₁⟩ :=
    run_update (P := P) hw ht slot.otherFile slot.otherFaId hwRev true
  have hother : ∀ v, Reaches (S := Api) P.exec
      (checkFileAndUpdate P slot.otherFile slot.otherFaId hwRev true) w v → J.Holds v.disk := by
    intro v hr
    rw [otherFaId_eq, ← hflag] at hr
    exact h.update hpass hinv hwords hw ht hname slot.otherFile (fun _ => hres) hr
  have hend := hother (P.run (checkFileAndUpdate P slot.otherFile slot.otherFaId hwRev true) w).2
    (reaches_run _ _)
  rw [hrun] at hend
  have hsame₁ : J.file ≠ slot.otherFile → J.Same w w₁ := by
    intro hne
    have hissues : Issues (Op.mayInstall slot.otherFile slot.otherFile.dst)
        (checkFileAndUpdate P slot.otherFile slot.otherFaId hwRev true) := by
      rw [otherFaId_eq]
      exact within_checkFileAndUpdate P hwRev true
    have hsame : J.Same w (P.run (checkFileAndUpdate P slot.otherFile slot.otherFaId hwRev true) w).2 :=
      same_of_mayInstall hne hissues (reaches_run _ _)
    rwa [hrun] at hsame
  obtain ⟨n, buf, hcheck⟩ := run_handoverCheck (P := P) h₁.reliable h₁.opened slot hwRev
  have hown : ∀ v, Reaches (S := Api) P.exec (handoverCheck P slot hwRev) w₁ v →
      J.Holds v.disk := by
    intro v hr
    by_cases hfile : J.file = slot.ownFile
    · refine hend.mayRemove (hfile ▸ within_handoverCheck P slot hwRev) (fun _ hnot => ?_) hr
      have hne : J.file ≠ slot.otherFile := hfile ▸ ownFile_ne_otherFile slot
      have hdst : slot.activeFaId = J.dst := by
        rw [activeFaId_eq, ← hfile]
        rfl
      rw [(hsame₁ hne).2] at hnot
      exact absurd (hactive hdst) hnot
    · exact hend.same (same_of_mayRemove hfile (within_handoverCheck P slot hwRev) hr)
  have hend₂ := hown (P.run (handoverCheck P slot hwRev) w₁).2 (reaches_run _ _)
  rw [hcheck] at hend₂
  rw [checkUpdatesOnFs_eq] at hr
  rcases (reaches_bind_of hrun w').mp hr with hr | hr
  · exact hother w' hr
  rcases (reaches_bind_of hcheck w').mp hr with hr | hr
  · exact hown w' hr
  cases hacc : handoverAccepts P slot.ownFile (w₁.files slot.ownFile) w₁.sharedBuf slot.activeFaId
    (w₁.flash slot.activeFaId).length hwRev with
  | true =>
    rw [hacc] at hr hend₂
    rw [if_pos rfl] at hr
    exact hend₂.handOver hinv hacc hr
  | false =>
    rw [hacc] at hr hend₂
    rw [if_neg (by decide)] at hr
    refine hend₂.loaderAndApp hpass hinv hwords (h₁.reliable.after n buf _) h₁.opened hname
      (fun hflag' => ?_) found hr
    have hneOther : J.file ≠ slot.otherFile := by
      intro hf
      rw [hf, hflag] at hflag'
      exact absurd hflag'.symm Bool.false_ne_true
    have hneOwn : J.file ≠ slot.ownFile := by
      intro hf
      rw [hf] at hflag'
      cases slot <;> exact absurd hflag'.symm Bool.false_ne_true
    have hsame₂ : J.Same w₁ (w₁.after n buf (settled false slot.ownFile w₁.files)) :=
      ⟨discard_of_ne hneOwn _, rfl⟩
    exact hres.same ((hsame₁ hneOther).trans hsame₂)
      (fun h => absurd (hflag'.symm.trans h) Bool.false_ne_true)

theorem Install.Holds.boot (h : J.Holds w.disk) (hpass : J.Passes P)
    (hinv : ∀ b, (P.fwInfoInvalidate b).length = b.length) (hwords : J.old.length % 4 = 0)
    (hboot : J.Boot slot hwRev w) (hres : J.Resumable P w)
    (hr : Reaches (S := Api) P.exec (mcubootFwUpdate P slot hwRev) w w') : J.Holds w'.disk := by
  obtain ⟨hw, ht, hname, hactive⟩ := hboot
  rw [mcubootFwUpdate_eq] at hr
  rcases (reaches_bind_of (run_mount hw) w').mp hr with hr | hr
  · exact h.same (reaches_mount hw hr)
  rw [if_pos rfl] at hr
  have hmounted : J.Boot slot hwRev (w.after (w.clock + 2) w.sharedBuf w.files) :=
    ⟨hw.after _ _ _, ht, hname, hactive⟩
  have hkept : J.Holds (w.after (w.clock + 2) w.sharedBuf w.files).disk := h
  have hupdates : ∀ v, Reaches (S := Api) P.exec (checkUpdatesOnFs P slot hwRev)
      (w.after (w.clock + 2) w.sharedBuf w.files) v → J.Holds v.disk :=
    fun v hr => hkept.updates hpass hinv hwords hmounted hres hr
  rcases (reaches_bind _ _ _ _).mp hr with hr | hr
  · exact hupdates w' hr
  · exact (hupdates _ (reaches_run _ _)).same (same_of_inspects (within_bootEnd _) hr)

/-! ## All cuts -/

theorem reliable_of_reaches {α : Type} {p : Fw α} (hw : Reliable w)
    (hr : Reaches (S := Api) P.exec p w w') : Reliable w' := by
  induction hr with
  | here => exact hw
  | step o _ _ _ _ ih => exact ih (hw.exec P o)

/-- A boot on `x`, with an image of the version `v` running. -/
structure Install.BootsOn (J : Install) (P : Platform) (slot : SlotId) (v : ImageVersion)
    (hwRev : HwRev) (x : Disk) (w : World) (p : Fw Outcome) : Prop where
  disk : w.disk = x
  program : p = mcubootFwUpdate (P.running v) slot hwRev
  boot : J.Boot slot hwRev w

/-- Boots that find the file only with a partition that is complete or passes. -/
def Install.Launches (J : Install) (P : Platform) (x : Disk) (w : World) (p : Fw Outcome) : Prop :=
  ∃ slot v hwRev, J.BootsOn P slot v hwRev x w p ∧ J.Resumable (P.running v) w

theorem World.reboot_disk (w : World) : w.reboot.disk = w.disk := rfl

theorem World.reboot_opened (w : World) : w.reboot.opened = [] := rfl

namespace Reference

/-- The newer file over the image in slot 0. -/
def install : Install where
  file := .mcuboot0
  data := newerFile
  old := slotContent 5 0x10
  hwRevName := cString slotRev.hwRevName

/-- A boot from slot 1 that is cut behind the erase of slot 0. -/
def erasedSlot : World :=
  cut (S := Api) (platform 160).exec 68 (mcubootFwUpdate (platform 160) .slot1 slotRev)
    (bootForSlot0 newerFile)

theorem install_old (d : FileData) : (bootForSlot0 d).flash install.dst = install.old :=
  congrArg (slotContent 5) (if_neg (by decide))

theorem boot_slot1 {w : World} (hw : Reliable w) (ht : w.opened = []) :
    install.Boot .slot1 slotRev w := ⟨hw, ht, rfl, fun h => nomatch h⟩

end Reference

end RuuviMcuboot
