/-
The checks in front of an installation, in a world where nothing fails.

`gatesAccept` is the verdict as a function of the file, the destination and the
shared buffer.  A rejected file is removed, and nothing else changes.
-/
import RuuviMcuboot.Update.B0Check
import RuuviMcuboot.Update.FileCheck

namespace RuuviMcuboot

open Binary Effect

variable (P : Platform) {w : World} {f : UpdateFile} {dst : FaId}

/-! ## Verdicts -/

/-- The verdict of `check_file`.  In B0 mode the verdict of `validate_file` is
not asked for. -/
def fileAccepted (f : UpdateFile) (entry : Option DirEntry) (buf : Bytes) (dstFaAddr : UInt32)
    (dstFaSize : Nat) (flagValidateB0Signature : Bool) : Bool :=
  (regular entry).isSome &&
    if flagValidateB0Signature then b0Accepts P (regular entry) buf dstFaAddr dstFaSize
    else (fileCheck P f entry dstFaAddr dstFaSize).ok

/-- The destination takes a file with this firmware information and header. -/
def dstAccepts (dst : FaId) (content : Bytes) (fileFwInfo : FwInfo) (hdr : ImageHeader) : Bool :=
  match P.fwInfoFind content with
  | none => false
  | some dstFwInfo =>
    decide (dstFwInfo.version ≤ fileFwInfo.version) &&
      (!P.downgradePrevention ||
        ((partitionHeader P content).isSome && downgradeAllowed P dst hdr))

def gatesAccept (f : UpdateFile) (entry : Option DirEntry) (buf : Bytes) (dst : FaId)
    (content : Bytes) (hwRev : HwRev) (flagValidateB0Signature : Bool) : Bool :=
  let check := fileCheck P f entry (P.faOff dst) content.length
  fileAccepted P f entry buf (P.faOff dst) content.length flagValidateB0Signature &&
    match fileFwInfo P f entry with
    | none => false
    | some info => !hwRevMismatch hwRev check.hwRev && dstAccepts P dst content info check.hdr

/-- The verdict of `check_update_for_mcuboot`: neither the firmware information
of the destination nor a version is looked at. -/
def handoverAccepts (f : UpdateFile) (entry : Option DirEntry) (buf : Bytes) (dst : FaId)
    (dstFaSize : Nat) (hwRev : HwRev) : Bool :=
  fileAccepted P f entry buf (P.faOff dst) dstFaSize true &&
    ((fileFwInfo P f entry).isSome &&
      !hwRevMismatch hwRev (fileCheck P f entry (P.faOff dst) dstFaSize).hwRev)

/-- The files after a rejection: an update file is removed. -/
def discard (f : UpdateFile) (files : UpdateFile → Option DirEntry) :
    UpdateFile → Option DirEntry :=
  if (regular (files f)).isSome then Function.update files f none else files

/-- The files after a verdict. -/
def settled (accepted : Bool) (f : UpdateFile) (files : UpdateFile → Option DirEntry) :
    UpdateFile → Option DirEntry :=
  if accepted then files else discard f files

theorem discard_regular {files : UpdateFile → Option DirEntry} {d : FileData}
    (hd : regular (files f) = some d) : discard f files = Function.update files f none := by
  rw [discard, hd]
  rfl

theorem discard_self (f : UpdateFile) (files : UpdateFile → Option DirEntry) :
    regular (discard f files f) = none := by
  unfold discard
  by_cases h : (regular (files f)).isSome
  · rw [if_pos h, Function.update_self]
    rfl
  · rw [if_neg h]
    exact Option.not_isSome_iff_eq_none.mp h

theorem discard_of_ne {g : UpdateFile} (hg : g ≠ f) (files : UpdateFile → Option DirEntry) :
    discard f files g = files g := by
  unfold discard
  by_cases h : (regular (files f)).isSome
  · rw [if_pos h, Function.update_of_ne hg]
  · rw [if_neg h]

/-! ## Runs -/

/-- Every rejection of an update file ends by removing it. -/
theorem run_reject (hw : Reliable w) {d : FileData} (hd : regular (w.files f) = some d) (n : Nat)
    (buf : Bytes) {α : Type} (a : α) :
    P.run (btldrFsUnlinkFile f >>= fun _ => pure a) (w.after n buf w.files) =
      (a, w.after (n + 1) buf (discard f w.files)) := by
  rw [run_unlink_return P ((hw.after n buf w.files).rc? _ _), discard_regular hd]
  rfl

theorem run_checkFile (hw : Reliable w) (ht : w.opened = []) (dstFaAddr : UInt32)
    (dstFaSize : Nat) (flagValidateB0Signature : Bool) :
    let accepted := fileAccepted P f (w.files f) w.sharedBuf dstFaAddr dstFaSize
      flagValidateB0Signature
    ∃ out n buf, P.run (checkFile P f dstFaAddr dstFaSize flagValidateB0Signature) w =
        (out, w.after n buf (settled accepted f w.files)) ∧
      out.ok = accepted ∧
      (accepted → out = { fileCheck P f (w.files f) dstFaAddr dstFaSize with ok := true }) := by
  intro accepted
  unfold checkFile
  rw [P.run_bind_of (run_isFileExist P hw), World.tick_eq_after]
  cases hfile : regular (w.files f) with
  | none =>
    have hrej : accepted = false := by simp [accepted, fileAccepted, hfile]
    refine ⟨FileCheck.failed, w.clock + 1, w.sharedBuf, ?_, hrej.symm, ?_⟩
    · rw [hrej, settled, discard, hfile]
      rfl
    · intro hacc
      rw [hrej] at hacc
      exact absurd hacc (by decide)
  | some d =>
    rw [if_neg (show ¬ (some d).isSome = false by simp)]
    have hw₁ := hw.after (w.clock + 1) w.sharedBuf w.files
    cases flagValidateB0Signature with
    | true =>
      have hacc : accepted = b0Accepts P (some d) w.sharedBuf dstFaAddr dstFaSize := by
        simp [accepted, fileAccepted, hfile]
      obtain ⟨n, hb0⟩ := run_validateB0Signature P (f := f) hw₁ dstFaAddr dstFaSize
      rw [World.after_files, World.after_sharedBuf, hfile, ← hacc, World.after_after] at hb0
      rw [if_pos rfl, P.run_bind_of hb0]
      cases haccv : accepted with
      | false =>
        rw [if_pos rfl, run_reject P hw hfile]
        exact ⟨FileCheck.failed, _, _, rfl, rfl, fun h => absurd h (by decide)⟩
      | true =>
        obtain ⟨m, hval⟩ := run_validateFile_after P (f := f) hw ht n
          (b0Buffer P (some d) w.sharedBuf dstFaSize) dstFaAddr dstFaSize
        rw [if_neg (by decide), P.run_bind_of hval, P.run_pure]
        exact ⟨_, _, _, rfl, rfl, fun _ => rfl⟩
    | false =>
      have hacc : accepted = (fileCheck P f (w.files f) dstFaAddr dstFaSize).ok := by
        simp [accepted, fileAccepted, hfile]
      obtain ⟨n, hval⟩ := run_validateFile_after P (f := f) hw ht (w.clock + 1) w.sharedBuf dstFaAddr
        dstFaSize
      rw [if_neg (by decide), P.run_bind_of hval]
      cases haccv : accepted with
      | false =>
        rw [if_pos (hacc.symm.trans haccv), run_reject P hw hfile]
        exact ⟨_, _, _, rfl, hacc.symm.trans haccv, fun h => absurd h (by decide)⟩
      | true =>
        rw [if_neg (by rw [← hacc, haccv]; decide), P.run_pure]
        refine ⟨_, _, _, rfl, hacc.symm.trans haccv, fun _ => ?_⟩
        rw [← hacc.symm.trans haccv]

theorem run_downgradePrevention (hw : Reliable w) (hdr : ImageHeader) :
    P.run (checkDowngradePrevention P dst hdr) w =
      ((partitionHeader P (w.flash dst)).isSome && downgradeAllowed P dst hdr,
        w.after (w.clock + 3) w.sharedBuf w.files) := by
  show P.run (loadImageHeader P dst >>= _) w = _
  rw [P.run_bind_of (run_loadImageHeader P hw)]
  cases partitionHeader P (w.flash dst) with
  | none => rfl
  | some h => rfl

/-- The checks that look at the destination. -/
theorem run_dstGates (hw : Reliable w) {d : FileData} (hd : regular (w.files f) = some d)
    (hwRev : HwRev) (out : FileCheck) (fileFwInfo : FwInfo) (n : Nat) (buf : Bytes) :
    let accepted := !hwRevMismatch hwRev out.hwRev &&
      dstAccepts P dst (w.flash dst) fileFwInfo out.hdr
    ∃ m, P.run (do
        match P.fwInfoFind (← flashMapped dst) with
        | none =>
          let _ ← btldrFsUnlinkFile f
          return false
        | some dstFwInfo =>
          if hwRevMismatch hwRev out.hwRev then
            let _ ← btldrFsUnlinkFile f
            return false
          else if dstFwInfo.version > fileFwInfo.version then
            let _ ← btldrFsUnlinkFile f
            return false
          else if P.downgradePrevention then
            if (← checkDowngradePrevention P dst out.hdr) = false then
              let _ ← btldrFsUnlinkFile f
              return false
            else
              return true
          else
            return true) (w.after n buf w.files) =
      (accepted, w.after m buf (settled accepted f w.files)) := by
  intro accepted
  have hmapped : P.run (flashMapped dst) (w.after n buf w.files) =
      (w.flash dst, w.after (n + 1) buf w.files) := rfl
  have hreject : ∀ k, accepted = false →
      ∃ m, P.run (btldrFsUnlinkFile f >>= fun _ => pure false) (w.after k buf w.files) =
        (accepted, w.after m buf (settled accepted f w.files)) := by
    intro k hrej
    rw [hrej]
    exact ⟨_, run_reject P hw hd k buf false⟩
  have haccept : ∀ k, accepted = true →
      ∃ m, P.run (pure true) (w.after k buf w.files) =
        (accepted, w.after m buf (settled accepted f w.files)) := by
    intro k hacc
    rw [hacc]
    exact ⟨k, rfl⟩
  rw [P.run_bind_of hmapped]
  cases hfind : P.fwInfoFind (w.flash dst) with
  | none =>
    refine hreject _ ?_
    simp [accepted, dstAccepts, hfind]
  | some dstFwInfo =>
    dsimp only
    by_cases hrev : hwRevMismatch hwRev out.hwRev
    · rw [if_pos hrev]
      refine hreject _ ?_
      simp [accepted, hrev]
    · rw [if_neg hrev]
      by_cases hver : dstFwInfo.version > fileFwInfo.version
      · rw [if_pos hver]
        refine hreject _ ?_
        have : ¬ dstFwInfo.version ≤ fileFwInfo.version := UInt32.not_le.mpr hver
        simp [accepted, dstAccepts, hfind, this]
      · rw [if_neg hver]
        have hle : dstFwInfo.version ≤ fileFwInfo.version := UInt32.not_lt.mp hver
        cases hdown : P.downgradePrevention with
        | false =>
          refine haccept _ ?_
          simp [accepted, dstAccepts, hfind, hle, hdown, hrev]
        | true =>
          have hdowngrade : P.run (checkDowngradePrevention P dst out.hdr)
              (w.after (n + 1) buf w.files) =
                ((partitionHeader P (w.flash dst)).isSome && downgradeAllowed P dst out.hdr,
                  w.after (n + 1 + 3) buf w.files) :=
            run_downgradePrevention P (hw.after _ _ _) out.hdr
          rw [if_pos rfl, P.run_bind_of hdowngrade]
          cases hv : (partitionHeader P (w.flash dst)).isSome && downgradeAllowed P dst out.hdr with
          | false =>
            rw [if_pos rfl]
            refine hreject _ ?_
            simp only [accepted, dstAccepts, hfind, hdown, hv, Bool.not_true, Bool.or_false,
              Bool.and_false]
          | true =>
            rw [if_neg (by decide)]
            refine haccept _ ?_
            simp only [accepted, dstAccepts, hfind, hv, Bool.or_true, Bool.and_true,
              Bool.eq_false_iff.mpr hrev, decide_eq_true hle, Bool.not_false]

/-- The checks in front of an installation reach the verdict `gatesAccept`; the
file is gone if they reject it. -/
theorem run_updateGates (hw : Reliable w) (ht : w.opened = []) (hwRev : HwRev)
    (flagValidateB0Signature : Bool) :
    let accepted := gatesAccept P f (w.files f) w.sharedBuf dst (w.flash dst) hwRev
      flagValidateB0Signature
    ∃ n buf, P.run (updateGates P f dst hwRev flagValidateB0Signature) w =
      (accepted, w.after n buf (settled accepted f w.files)) := by
  intro accepted
  have hcheck := run_checkFile P (f := f) hw.tick.tick ht (P.faOff dst) (w.flash dst).length
    flagValidateB0Signature
  simp only [World.tick_files, World.tick_sharedBuf] at hcheck
  obtain ⟨out, n, buf, hrun, hok, hout⟩ := hcheck
  unfold updateGates
  rw [P.run_bind_of (run_getFlashArea P hw)]
  dsimp only
  rw [P.run_bind_of hrun]
  by_cases hacc : fileAccepted P f (w.files f) w.sharedBuf (P.faOff dst) (w.flash dst).length
    flagValidateB0Signature
  · rw [if_neg (by rw [hok, hacc]; decide), hacc]
    obtain ⟨d, hd⟩ : ∃ d, regular (w.files f) = some d := by
      rw [← Option.isSome_iff_exists]
      exact (Bool.and_eq_true _ _ ▸ hacc).1
    obtain ⟨m, hinfo⟩ := run_fwInfoFindInFile_after P (f := f) hw ht n buf
    have hstart : w.tick.tick.after n buf (settled true f w.files) = w.after n buf w.files := rfl
    have hacc' : accepted = (match fileFwInfo P f (w.files f) with
      | none => false
      | some info => !hwRevMismatch hwRev out.hwRev &&
          dstAccepts P dst (w.flash dst) info out.hdr) := by
      rw [hout hacc]
      simp only [accepted, gatesAccept, hacc, Bool.true_and]
    rw [hstart, P.run_bind_of hinfo, hacc']
    cases fileFwInfo P f (w.files f) with
    | none => exact ⟨_, _, run_reject P hw hd m buf false⟩
    | some info =>
      obtain ⟨k, hdst⟩ := run_dstGates P hw hd hwRev out info m buf
      exact ⟨k, buf, hdst⟩
  · have hrej : accepted = false := by
      simp [accepted, gatesAccept, hacc]
    rw [if_pos (by rw [hok]; exact Bool.eq_false_iff.mpr hacc), Bool.eq_false_iff.mpr hacc, hrej]
    exact ⟨n, buf, rfl⟩

theorem run_checkUpdateForMcuboot (hw : Reliable w) (ht : w.opened = []) (hwRev : HwRev) :
    let accepted := handoverAccepts P f (w.files f) w.sharedBuf dst (w.flash dst).length hwRev
    ∃ n buf, P.run (checkUpdateForMcuboot P f dst hwRev) w =
      (accepted, w.after n buf (settled accepted f w.files)) := by
  intro accepted
  unfold checkUpdateForMcuboot
  rw [P.run_bind_of (run_isFileExist P hw)]
  cases hfile : regular (w.files f) with
  | none =>
    have hrej : accepted = false := by simp [accepted, handoverAccepts, fileAccepted, hfile]
    refine ⟨w.clock + 1, w.sharedBuf, ?_⟩
    rw [hrej, settled, discard, hfile]
    rfl
  | some d =>
    rw [if_neg (show ¬ (some d).isSome = false by simp), P.run_bind_of (run_getFlashArea P hw.tick)]
    dsimp only
    obtain ⟨n, hb0⟩ := run_validateB0Signature P (f := f) hw.tick.tick.tick (P.faOff dst)
      (w.flash dst).length
    have hb0' : P.run (validateB0Signature P f (P.faOff dst) (w.flash dst).length) w.tick.tick.tick =
        (b0Accepts P (some d) w.sharedBuf (P.faOff dst) (w.flash dst).length,
          w.after n (b0Buffer P (some d) w.sharedBuf (w.flash dst).length) w.files) := by
      rw [hb0, ← hfile]
      rfl
    have hacc : accepted = (b0Accepts P (some d) w.sharedBuf (P.faOff dst) (w.flash dst).length &&
        ((fileFwInfo P f (w.files f)).isSome && !hwRevMismatch hwRev
          (fileCheck P f (w.files f) (P.faOff dst) (w.flash dst).length).hwRev)) := by
      simp only [accepted, handoverAccepts, fileAccepted, hfile, Option.isSome_some, Bool.true_and,
        if_true]
    rw [World.tick_flash, P.run_bind_of hb0', hacc]
    cases b0Accepts P (some d) w.sharedBuf (P.faOff dst) (w.flash dst).length with
    | false =>
      rw [if_pos rfl]
      exact ⟨_, _, run_reject P hw hfile _ _ false⟩
    | true =>
      generalize b0Buffer P (some d) w.sharedBuf (w.flash dst).length = buf
      obtain ⟨m, hval⟩ := run_validateFile_after P (f := f) hw ht n buf (P.faOff dst)
        (w.flash dst).length
      obtain ⟨k, hinfo⟩ := run_fwInfoFindInFile_after P (f := f) hw ht m buf
      rw [if_neg (by decide), P.run_bind_of hval, P.run_bind_of hinfo]
      cases fileFwInfo P f (w.files f) with
      | none => exact ⟨_, _, run_reject P hw hfile _ _ false⟩
      | some info =>
        dsimp only
        by_cases hrev : hwRevMismatch hwRev
            (fileCheck P f (w.files f) (P.faOff dst) (w.flash dst).length).hwRev
        · rw [if_pos hrev, hrev]
          exact ⟨_, _, run_reject P hw hfile _ _ false⟩
        · rw [if_neg hrev, Bool.eq_false_iff.mpr hrev]
          exact ⟨_, _, rfl⟩

end RuuviMcuboot
