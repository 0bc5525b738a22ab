/-
The contract of an installation under failing reads and writes.

What is rejected changes no flash, what is installed is complete, and a file is
removed in no other case.  The contract holds exactly as long as the copy goes
through.
-/
import RuuviMcuboot.Update.Install

namespace RuuviMcuboot

open Binary Effect

variable (P : Platform) {w : World} {f : UpdateFile} {dst : FaId}

/-! ## Accepted files are there -/

theorem triple_inspects {α : Type} {p : Fw α} (hp : Issues Op.inspects p)
    (F : UpdateFile → Option DirEntry) :
    Triple (S := Api) P.exec (fun w => w.files = F) p (fun _ w => w.files = F) (fun _ => True) :=
  (triple_of_within (exec_answers P)
    (fun _ w ho hw => (exec_files_of_inspects P ho w).trans hw) hp).weaken
      (fun _ hw => hw) (fun _ _ hw => hw) (fun _ _ => True.intro)

/-- A rejection says so. -/
theorem triple_rejects {I : World → Prop} {α : Type} (a : α) :
    Triple (S := Api) P.exec I (btldrFsUnlinkFile f >>= fun _ => pure a) (fun r _ => r = a)
      (fun _ => True) := by
  intro w _
  refine ⟨fun _ _ => True.intro, ?_⟩
  rw [Effect.run_bind]
  rfl

/-- The outcome of a check that removes no file it accepts. -/
def KeepsAccepted (F : UpdateFile → Option DirEntry) (f : UpdateFile) (ok : Bool) (w : World) :
    Prop :=
  ok = true → w.files = F ∧ ∃ d, F f = some (.file d)

theorem triple_isFileExist (F : UpdateFile → Option DirEntry) :
    Triple (S := Api) P.exec (fun w => w.files = F) (btldrFsIsFileExist f)
      (fun ok w => w.files = F ∧ (ok = true → ∃ d, F f = some (.file d))) (fun _ => True) := by
  rintro w rfl
  refine ⟨fun _ _ => True.intro, ?_, ?_⟩
  · exact (within_looks (within_isFileExist (f := f))).run_eq (exec_answers P)
      (fun _ w ho => exec_files_of_inspects P ho w) w
  · intro hok
    change (P.run (fsStat f >>= _) w).1 = true at hok
    rw [P.run_bind, run_fsStat] at hok
    simp only [Platform.exec, World.tick_files] at hok
    cases hrc : (w.faults w.clock (.fsStat f)).rc? with
    | some rc =>
      rw [hrc] at hok
      exact absurd hok Bool.false_ne_true
    | none =>
      rw [hrc] at hok
      cases he : w.files f with
      | none =>
        rw [he] at hok
        exact absurd hok Bool.false_ne_true
      | some e =>
        cases e with
        | file d => exact ⟨d, rfl⟩
        | dir =>
          rw [he] at hok
          exact absurd hok (by decide : ¬ (EntryType.dir == EntryType.file) = true)

theorem checkFile_keeps (F : UpdateFile → Option DirEntry) (dstFaAddr : UInt32) (dstFaSize : Nat)
    (flagValidateB0Signature : Bool) :
    Triple (S := Api) P.exec (fun w => w.files = F)
      (checkFile P f dstFaAddr dstFaSize flagValidateB0Signature)
      (fun out => KeepsAccepted F f out.ok) (fun _ => True) := by
  refine triple_bind (triple_isFileExist P F) (fun e => triple_ite (fun _ => ?_) (fun he => ?_))
  · exact triple_ret (fun _ _ h => absurd h Bool.false_ne_true) (fun _ _ => True.intro)
  have hfile : ∀ w : World, (w.files = F ∧ (e = true → ∃ d, F f = some (.file d))) →
      w.files = F ∧ ∃ d, F f = some (.file d) :=
    fun w hw => ⟨hw.1, hw.2 (by simpa using he)⟩
  have hlook : ∀ {α : Type} {p : Fw α}, Issues Op.inspects p →
      Triple (S := Api) P.exec (fun w => w.files = F ∧ (e = true → ∃ d, F f = some (.file d))) p
        (fun _ w => w.files = F ∧ (e = true → ∃ d, F f = some (.file d))) (fun _ => True) := by
    intro α p hp w hw
    exact ⟨fun _ _ => True.intro, ((triple_inspects P hp F) w hw.1).2, hw.2⟩
  refine triple_ite (fun _ => ?_) (fun _ => ?_)
  · refine triple_bind (hlook (within_b0Signature P _ _))
      (fun ok => triple_ite (fun _ => ?_) (fun _ => ?_))
    · refine (triple_rejects P FileCheck.failed).weaken (fun _ hw => hw) (fun out _ hr h => ?_)
        (fun _ _ => True.intro)
      rw [hr] at h
      exact absurd h Bool.false_ne_true
    · refine triple_bind (hlook (within_looks (within_validateFile P _ _))) (fun out => ?_)
      exact triple_ret (fun w hw _ => hfile w hw) (fun _ _ => True.intro)
  · refine triple_bind (hlook (within_looks (within_validateFile P _ _)))
      (fun out => triple_ite (fun hbad => ?_) (fun _ => ?_))
    · refine (triple_rejects P out).weaken (fun _ hw => hw) (fun out' _ hr h => ?_)
        (fun _ _ => True.intro)
      rw [hr, hbad] at h
      exact absurd h Bool.false_ne_true
    · exact triple_ret (fun w hw _ => hfile w hw) (fun _ _ => True.intro)

/-- A file that passes the checks is a regular file and still there. -/
theorem updateGates_keeps (F : UpdateFile → Option DirEntry) (hwRev : HwRev)
    (flagValidateB0Signature : Bool) :
    Triple (S := Api) P.exec (fun w => w.files = F)
      (updateGates P f dst hwRev flagValidateB0Signature) (KeepsAccepted F f) (fun _ => True) := by
  have hfail : ∀ {I : World → Prop}, Triple (S := Api) P.exec I (Prog.ret false)
      (KeepsAccepted F f) (fun _ => True) :=
    triple_ret (fun _ _ h => absurd h Bool.false_ne_true) (fun _ _ => True.intro)
  have hreject : ∀ {I : World → Prop}, Triple (S := Api) P.exec I
      (btldrFsUnlinkFile f >>= fun _ => pure false) (KeepsAccepted F f) (fun _ => True) :=
    (triple_rejects P false).weaken (fun _ hw => hw)
      (fun _ _ hr h => absurd (hr ▸ h) Bool.false_ne_true) (fun _ _ => True.intro)
  refine triple_bind (triple_inspects P (within_getFlashArea dst) F) (fun r => ?_)
  cases r with
  | none => exact hfail
  | some a =>
    refine triple_bind (checkFile_keeps P F a.1 a.2 flagValidateB0Signature) (fun out => ?_)
    refine triple_ite (fun _ => hfail) (fun hok => ?_)
    have hok' : out.ok = true := by simpa using hok
    intro w hw
    obtain ⟨hF, hd⟩ := hw hok'
    have hgood : Triple (S := Api) P.exec (fun w => w.files = F) (Prog.ret true)
        (KeepsAccepted F f) (fun _ => True) :=
      triple_ret (fun _ hw _ => ⟨hw, hd⟩) (fun _ _ => True.intro)
    refine triple_bind (P := fun w => w.files = F)
      (triple_inspects P (within_looks (within_fwInfoFindInFile P)) F) (fun r => ?_) w hF
    cases r with
    | none => exact hreject
    | some fileFwInfo =>
      refine triple_bind (triple_inspects P (issues_perform (.flashMapped dst) True.intro) F)
        (fun content => ?_)
      cases P.fwInfoFind content with
      | none => exact hreject
      | some dstFwInfo =>
        refine triple_ite (fun _ => hreject) (fun _ => triple_ite (fun _ => hreject) (fun _ => ?_))
        refine triple_ite (fun _ => ?_) (fun _ => hgood)
        exact triple_bind (triple_inspects P (within_downgradePrevention P _) F)
          (fun ok => triple_ite (fun _ => hreject) (fun _ => hgood))

/-! ## The contract -/

/-- The calls that may fail: seeks and reads, and the calls that open, erase and
write a partition. -/
def Op.mayFail : Op → Bool
  | .fsSeek _ _ _ | .fsRead _ _ | .fsReadShared _ _ => true
  | .flashAreaOpen _ | .flashAreaErase _ _ _ | .flashAreaWrite _ _ _ => true
  | _ => false

/-- Nothing else fails. -/
def OnlyIoFails (w : World) : Prop := ∀ n o, o.mayFail = false → w.faults n o = .none

theorem OnlyIoFails.run (hw : OnlyIoFails w) {α : Type} (p : Fw α) : OnlyIoFails (P.run p w).2 := by
  intro n o ho
  rw [run_faults]
  exact hw n o ho

theorem OnlyIoFails.rc? (hw : OnlyIoFails w) (n : Nat) {o : Op} (ho : o.mayFail = false) :
    (w.faults n o).rc? = none := by
  rw [hw n o ho]
  rfl

/-- The partition holds the whole file and erased bytes behind it. -/
def Complete (f : UpdateFile) (dst : FaId) (w w' : World) : Prop :=
  ∃ d, w.files f = some (.file d) ∧
    w'.flash dst = d.bytes ++ blank ((w.flash dst).length - d.bytes.length)

/-- The result of the copy of `d` when it starts from `w`. -/
def copyResult (f : UpdateFile) (dst : FaId) (d : FileData) (w : World) : Bool :=
  let J := copyJob f dst d w
  (P.run (mcubootImgOpCopy dst J.hd) (copyWorld J w)).1

/-- The contract of one installation from `w`. -/
structure InstallContract (f : UpdateFile) (dst : FaId) (hwRev : HwRev)
    (flagValidateB0Signature : Bool) (w : World) : Prop where
  rejected : (P.run (checkFileAndUpdate P f dst hwRev flagValidateB0Signature) w).1 = false →
    (P.run (checkFileAndUpdate P f dst hwRev flagValidateB0Signature) w).2.flash = w.flash
  installed : (P.run (checkFileAndUpdate P f dst hwRev flagValidateB0Signature) w).1 = true →
    Complete f dst w (P.run (checkFileAndUpdate P f dst hwRev flagValidateB0Signature) w).2
  unlinked : let w' := (P.run (checkFileAndUpdate P f dst hwRev flagValidateB0Signature) w).2
    w'.files f ≠ w.files f → w'.flash dst = w.flash dst ∨ Complete f dst w w'
  /-- A copy that fails is not reported as a success with the file gone. -/
  noSilentFailure : let g := P.run (updateGates P f dst hwRev flagValidateB0Signature) w
    let r := P.run (checkFileAndUpdate P f dst hwRev flagValidateB0Signature) w
    ∀ d, w.files f = some (.file d) → g.1 = true → copyResult P f dst d g.2 = false →
      ¬ (r.1 = true ∧ r.2.files f = none)

theorem updateGates_flash (hwRev : HwRev) (flag : Bool) (w : World) :
    (P.run (updateGates P f dst hwRev flag) w).2.flash = w.flash :=
  (within_updateGates P hwRev flag).run_eq (exec_answers P)
    (fun _ w ho => exec_flash_of_mayRemove P ho w) w

/-- The way out of an installation behind the copy. -/
theorem run_copyUpdate_end (hw : OnlyIoFails w) {d : FileData} (hd : w.files f = some (.file d)) :
    ∃ w', P.run (copyUpdate f dst) w = (true, w') ∧ w'.files f = none ∧
      w'.flash = (P.run (mcubootImgOpCopy dst (copyJob f dst d w).hd)
        (copyWorld (copyJob f dst d w) w)).2.flash := by
  rw [run_copyUpdate P hd (hw.rc? _ rfl)]
  have hio : OnlyIoFails (P.run (mcubootImgOpCopy dst (copyJob f dst d w).hd)
      (copyWorld (copyJob f dst d w) w)).2 :=
    OnlyIoFails.run P (w := copyWorld (copyJob f dst d w) w) (fun n o ho => hw n o ho) _
  generalize P.run (mcubootImgOpCopy dst (copyJob f dst d w).hd)
    (copyWorld (copyJob f dst d w) w) = r at *
  have hclose : P.run (btldrFsCloseFile (copyJob f dst d w).hd) r.2 =
      ((), r.2.tick.setOpened (dropFile (copyJob f dst d w).hd r.2.opened)) := rfl
  have hunlink := run_unlink_return P (f := f)
    (w := r.2.tick.setOpened (dropFile (copyJob f dst d w).hd r.2.opened)) (hio.rc? _ rfl) true
  rw [P.run_bind_of hclose, hunlink]
  exact ⟨_, rfl, Function.update_self _ _ _, rfl⟩

/-- The contract holds exactly when the file is rejected, or fits the partition and
no call of the copy fails or is cut short. -/
theorem installContract_iff (hw : OnlyIoFails w) (hwRev : HwRev) (flagValidateB0Signature : Bool) :
    let g := P.run (updateGates P f dst hwRev flagValidateB0Signature) w
    InstallContract P f dst hwRev flagValidateB0Signature w ↔
      g.1 = false ∨ ∃ d, w.files f = some (.file d) ∧ (copyJob f dst d g.2).Fits ∧
        (copyJob f dst d g.2).Undisturbed (g.2.clock + 1) := by
  intro g
  have hflash : g.2.flash = w.flash := updateGates_flash P hwRev flagValidateB0Signature w
  have hio : OnlyIoFails g.2 := hw.run P _
  cases hg : g.1 with
  | false =>
    have hr : P.run (checkFileAndUpdate P f dst hwRev flagValidateB0Signature) w = (false, g.2) := by
      show P.run (updateGates P f dst hwRev flagValidateB0Signature >>= _) w = _
      rw [P.run_bind, show (P.run (updateGates P f dst hwRev flagValidateB0Signature) w).1 = false
        from hg]
      rfl
    refine ⟨fun _ => Or.inl rfl, fun _ => ⟨?_, ?_, ?_, ?_⟩⟩
    · intro _
      rw [hr]
      exact hflash
    · intro h
      rw [hr] at h
      exact absurd h Bool.false_ne_true
    · intro w' _
      left
      show (P.run (checkFileAndUpdate P f dst hwRev flagValidateB0Signature) w).2.flash dst = _
      rw [hr]
      exact congrFun hflash dst
    · intro g' r d _ hacc
      exact absurd (hg.symm.trans hacc) Bool.false_ne_true
  | true =>
    obtain ⟨hfiles, d, hd⟩ := ((updateGates_keeps P w.files hwRev flagValidateB0Signature) w rfl).2 hg
    have hd' : g.2.files f = some (.file d) := by rw [show g.2.files = w.files from hfiles, hd]
    obtain ⟨w', hrun, hgone, hend⟩ : ∃ w', P.run (copyUpdate f dst) g.2 = _ ∧ _ :=
      run_copyUpdate_end P hio hd'
    have hr : P.run (checkFileAndUpdate P f dst hwRev flagValidateB0Signature) w = (true, w') := by
      show P.run (updateGates P f dst hwRev flagValidateB0Signature >>= _) w = _
      rw [P.run_bind, show (P.run (updateGates P f dst hwRev flagValidateB0Signature) w).1 = true
        from hg, if_neg (by decide)]
      exact hrun
    obtain ⟨hiff, hdone⟩ := run_copyJob P f dst d g.2
    constructor
    · intro hc
      right
      refine ⟨d, hd, hiff.mp ?_⟩
      by_contra hfail
      have hsilent := hc.noSilentFailure d hd hg (Bool.eq_false_iff.mpr hfail)
      exact hsilent ⟨by rw [hr], by rw [hr]; exact hgone⟩
    · rintro (h | ⟨d', hd'', hfits, hun⟩)
      · exact absurd h (by simp)
      obtain rfl : d = d' := by
        rw [hd] at hd''
        injection hd'' with h
        injection h
      have hcopied := hiff.mpr ⟨hfits, hun⟩
      have hcomplete : Complete f dst w w' := by
        refine ⟨d, hd, ?_⟩
        rw [hend, ← hflash]
        exact hdone hcopied
      refine ⟨?_, ?_, ?_, ?_⟩
      · intro h
        rw [hr] at h
        exact absurd h.symm Bool.false_ne_true
      · intro _
        rw [hr]
        exact hcomplete
      · intro w'' _
        right
        show Complete f dst w (P.run (checkFileAndUpdate P f dst hwRev flagValidateB0Signature) w).2
        rw [hr]
        exact hcomplete
      · intro g' r d' hd₂ _ hfail
        obtain rfl : d = d' := by
          rw [hd] at hd₂
          injection hd₂ with h
          injection h
        exact absurd (hcopied.symm.trans hfail) (by simp)

/-- The contract of an installation in which nothing fails. -/
theorem trailingFile_contract :
    let w := Reference.bootWith Reference.trailingFile
    let g := (Reference.platform 8).run
      (updateGates (Reference.platform 8) .app .mcubootPrimary HwRev.zero false) w
    InstallContract (Reference.platform 8) .app .mcubootPrimary HwRev.zero false w ↔
      g.1 = false ∨ ∃ d, w.files .app = some (.file d) ∧
        (copyJob .app .mcubootPrimary d g.2).Fits ∧
          (copyJob .app .mcubootPrimary d g.2).Undisturbed (g.2.clock + 1) :=
  installContract_iff (Reference.platform 8) (w := Reference.bootWith Reference.trailingFile)
    (fun _ _ _ => rfl) HwRev.zero false

namespace Reference

/-- A boot in which the first write to a partition fails and leaves it erased. -/
def bootWithFailingWrite (d : FileData) : World :=
  World.atBoot (fun _ => some (.file d)) (fun _ => oldFirmware) [] fun _ o =>
    match o with
    | .flashAreaWrite _ 0 _ => .fail 4 []
    | _ => .none

end Reference

theorem failing_write_outcome :
    let r := (Reference.platform 8).run
      (checkFileAndUpdate (Reference.platform 8) .app .mcubootPrimary HwRev.zero false)
      (Reference.bootWithFailingWrite Reference.trailingFile)
    r.1 = true ∧ (r.2.files .app).isNone = true ∧ r.2.flash .mcubootPrimary = blank 160 := by
  decide +kernel

theorem onlyIoFails_failingWrite (d : FileData) :
    OnlyIoFails (Reference.bootWithFailingWrite d) := by
  intro n o ho
  cases o with
  | flashAreaWrite fa off data => exact absurd (show true = false from ho) (by simp)
  | _ => rfl

/-- A write that fails leaves the partition erased, the file gone and a success
reported. -/
theorem failed_write_reported_as_success :
    let r := (Reference.platform 8).run
      (checkFileAndUpdate (Reference.platform 8) .app .mcubootPrimary HwRev.zero false)
      (Reference.bootWithFailingWrite Reference.trailingFile)
    (r.1 = true ∧ (r.2.files .app).isNone = true ∧ r.2.flash .mcubootPrimary = blank 160) ∧
      OnlyIoFails (Reference.bootWithFailingWrite Reference.trailingFile) ∧
      ¬ InstallContract (Reference.platform 8) .app .mcubootPrimary HwRev.zero false
        (Reference.bootWithFailingWrite Reference.trailingFile) := by
  refine ⟨failing_write_outcome, onlyIoFails_failingWrite _, fun hc => ?_⟩
  obtain ⟨hok, -, hblank⟩ := failing_write_outcome
  obtain ⟨d, hd, hflash⟩ := hc.installed hok
  have hfile : some (DirEntry.file Reference.trailingFile) = some (.file d) := hd
  have hsame : Reference.trailingFile = d := DirEntry.file.inj (Option.some.inj hfile)
  have hlen : blank 160 = d.bytes ++ blank (160 - d.bytes.length) := hblank.symm.trans hflash
  rw [← hsame] at hlen
  exact absurd hlen (by decide +kernel)

end RuuviMcuboot
