/-
The footprints of the updater's functions.

Reading and validating a file touches that file only.  The checks in front of an
installation may remove the update file, the installation itself may write one
partition as well.
-/
import RuuviMcuboot.FwUpdate
import RuuviMcuboot.Platform.Frame

namespace RuuviMcuboot

open Binary Effect

variable (P : Platform) {hd : Handle} {f : UpdateFile} {dst : FaId}

/-! ## Functions on an open file -/

theorem within_fsSeek (off : Int) (whence : Whence) : Issues (Op.reads hd) (fsSeek hd off whence) :=
  issues_perform (.fsSeek hd off whence) rfl

theorem within_fsTell : Issues (Op.reads hd) (fsTell hd) :=
  issues_perform (.fsTell hd) rfl

theorem within_fsRead (len : Nat) : Issues (Op.reads hd) (fsRead hd len) :=
  issues_perform (.fsRead hd len) rfl

theorem within_loadImageData (start : UInt32) (size : Nat) :
    Issues (Op.reads hd) (loadImageData hd start size) := by
  unfold loadImageData
  refine within_bind (within_fsSeek _ _) (fun rc => within_ite (within_ret _) ?_)
  refine within_bind (within_fsRead _) (fun r => ?_)
  cases r with
  | error e => exact within_ret _
  | ok b => exact within_ite (within_ret _) (within_ret _)

theorem within_getFileSize : Issues (Op.reads hd) (btldrFsGetFileSize hd) := by
  unfold btldrFsGetFileSize
  refine within_bind within_fsTell (fun cur => ?_)
  refine within_bind (within_fsSeek _ _) (fun rc => within_ite (within_ret _) ?_)
  refine within_bind within_fsTell (fun size => ?_)
  exact within_bind (within_fsSeek _ _) (fun _ => within_ret _)

theorem within_iterBegin (hdr : ImageHeader) (type : UInt16) (prot : Bool) :
    Issues (Op.reads hd) (fileTlvIterBegin hd hdr type prot) := by
  unfold fileTlvIterBegin
  refine within_bind (within_loadImageData _ _) (fun r => ?_)
  cases r with
  | error e => exact within_ret _
  | ok b =>
    refine within_ite (within_ite (within_ret _) ?_) (within_ite (within_ret _) (within_ret _))
    refine within_bind (within_loadImageData _ _) (fun r => ?_)
    cases r with
    | error e => exact within_ret _
    | ok b' => exact within_ret _

theorem within_iterNext (it : FileTlvIter) : Issues (Op.reads hd) (fileTlvIterNext hd it) := by
  refine within_loop (fun s => within_ite ?_ (within_ret _)) _ _ _
  refine within_bind (within_loadImageData _ _) (fun r => ?_)
  cases r with
  | error e => exact within_ret _
  | ok b => exact within_ite (within_ret _) (within_ite (within_ret _) (within_ret _))

theorem within_imgHash (hdr : ImageHeader) (tmpBufSz : UInt32) (seed : Option Bytes) :
    Issues (Op.reads hd) (fileImgHash P hd hdr tmpBufSz seed) := by
  refine within_loop (fun s => ?_) _ _ _
  obtain ⟨off, ctx⟩ := s
  refine within_ite ?_ (within_ret _)
  refine within_bind (within_loadImageData _ _) (fun r => ?_)
  cases r with
  | error e => exact within_ret _
  | ok b => exact within_ret _

theorem within_expectedHash (tlv : FoundTlv) (hash : Bytes) :
    Issues (Op.reads hd) (fileImageValidateTlvExpectedHash P hd tlv hash) := by
  refine within_ite (within_ret _) (within_bind (within_loadImageData _ _) (fun r => ?_))
  cases r with
  | error e => exact within_ret _
  | ok b => exact within_ret _

theorem within_expectedKey (tlv : FoundTlv) :
    Issues (Op.reads hd) (fileImageValidateTlvExpectedKey P hd tlv) := by
  refine within_ite (within_ret _) (within_bind (within_loadImageData _ _) (fun r => ?_))
  cases r with
  | error e => exact within_ret _
  | ok b => exact within_ret _

theorem within_expectedSig (tlv : FoundTlv) (hash : Bytes) (keyId : Int) :
    Issues (Op.reads hd) (fileImageValidateTlvExpectedSig P hd tlv hash keyId) := by
  refine within_ite (within_ret _) (within_bind (within_loadImageData _ _) (fun r => ?_))
  cases r with
  | error e => exact within_ret _
  | ok b => exact within_ret _

theorem within_validateTlv (hash : Bytes) (st : ValidateState) :
    Issues (Op.reads hd) (fileImageValidateTlv P hd hash st) := by
  refine within_bind (within_iterNext _) (fun n => within_ite (within_ret _) ?_)
  refine within_ite (within_ret _) (within_ite ?_ (within_ite ?_ (within_ite ?_ (within_ret _))))
  · refine within_bind (within_expectedHash P _ _) (fun r => ?_)
    cases r with
    | none => exact within_ret _
    | some u => exact within_ret _
  · refine within_bind (within_expectedKey P _) (fun r => ?_)
    cases r with
    | none => exact within_ret _
    | some keyId => exact within_ret _
  · refine within_ite (within_ret _) (within_bind (within_expectedSig P _ _ _) (fun r => ?_))
    cases r with
    | none => exact within_ret _
    | some res => exact within_ret _

theorem within_imgValidate (hdr : ImageHeader) (faSize : Nat) (tmpBufSz : UInt32)
    (seed : Option Bytes) :
    Issues (Op.reads hd) (fileImgValidate P hd hdr faSize tmpBufSz seed) := by
  refine within_bind (within_imgHash P _ _ _) (fun r => ?_)
  cases r with
  | error e => exact within_ret _
  | ok hash =>
    refine within_bind (within_iterBegin _ _ _) (fun r => ?_)
    cases r with
    | none => exact within_ret _
    | some it =>
      refine within_ite (within_ret _) (within_bind (within_loop (fun s => ?_) _ _ _) (fun r => ?_))
      · exact within_bind (within_validateTlv P _ _)
          (fun r => within_ite (within_ret _) (within_ite (within_ret _) (within_ret _)))
      · exact within_ite (within_ret _) (within_ite (within_ret _) (within_ret _))

theorem within_findTlvs (magic : UInt16) (startOffset : UInt32) :
    Issues (Op.reads hd) (findTlvsInFile hd magic startOffset) := by
  refine within_bind (within_fsSeek _ _) (fun rc => within_ite (within_ret _) ?_)
  refine within_bind (within_fsRead _) (fun r => ?_)
  cases r with
  | error e => exact within_ret _
  | ok b => exact within_ite (within_ret _) (within_ret _)

theorem within_hwRevTlv (tlv : ImageTlv) (r : HwRev) :
    Issues (Op.reads hd) (fwImgHwRevHandleTlvHwRevInFile P tlv hd r) := by
  refine within_bind ?_ (fun s => within_ite (within_ret _) ?_)
  · refine within_ite (within_ite (within_ret _) (within_ite (within_ret _) ?_)) (within_ret _)
    refine within_bind (within_fsRead _) (fun b => ?_)
    cases b with
    | error e => exact within_ret _
    | ok b => exact within_ret _
  · refine within_ite (within_ite (within_ret _) (within_ite (within_ret _) ?_)) (within_ret _)
    refine within_bind (within_fsRead _) (fun b => ?_)
    cases b with
    | error e => exact within_ret _
    | ok b => exact within_ret _

theorem within_hwRevFind (r : HwRev) : Issues (Op.reads hd) (fwImgHwRevFindInFile P hd r) := by
  refine within_bind (within_fsSeek _ _) (fun rc => within_ite (within_ret _) ?_)
  refine within_bind (within_fsRead _) (fun b => ?_)
  cases b with
  | error e => exact within_ret _
  | ok b =>
    refine within_ite (within_ret _) (within_bind (within_findTlvs _ _) (fun r => ?_))
    cases r with
    | none => exact within_ret _
    | some bounds =>
      refine within_loop (fun s => within_ite ?_ (within_ret _)) _ _ _
      refine within_bind (within_fsSeek _ _) (fun rc => within_ite (within_ret _) ?_)
      refine within_bind (within_fsRead _) (fun b => ?_)
      cases b with
      | error e => exact within_ret _
      | ok b =>
        exact within_bind (within_hwRevTlv P _ _)
          (fun s => within_ite (within_ret _) (within_ite (within_ret _) (within_ret _)))

theorem within_loadHeaderFromFile : Issues (Op.reads hd) (loadImageHeaderFromFile hd) := by
  refine within_bind (within_fsRead _) (fun b => ?_)
  cases b with
  | error e => exact within_ret _
  | ok b =>
    refine within_ite (within_ret _) (within_ite (within_ret _) (within_ite (within_ret _) ?_))
    cases bootU32SafeAdd (ImageHeader.decode b).ihImgSize
      (ImageHeader.decode b).ihHdrSize.toUInt32 with
    | none => exact within_ret _
    | some imgSize =>
      exact within_bind within_getFileSize (fun _ => within_ite (within_ret _) (within_ret _))

theorem within_fwInfoCheck (offset : Nat) :
    Issues (Op.reads hd) (fwInfoCheckInFile P hd offset) := by
  refine within_bind (within_fsSeek _ _) (fun rc => within_ite (within_ret _) ?_)
  refine within_bind (within_fsRead _) (fun b => ?_)
  cases b with
  | error e => exact within_ret _
  | ok b => exact within_ite (within_ret _) (within_ite (within_ret _) (within_ret _))

theorem within_fwInfoSearch (offsets : List Nat) :
    Issues (Op.reads hd) (fwInfoSearchInFile P hd offsets) := by
  induction offsets with
  | nil => exact within_ret _
  | cons offset rest ih =>
    refine within_bind (within_fwInfoCheck P _) (fun r => ?_)
    cases r with
    | none => exact ih
    | some info => exact within_ret _

/-! ## Functions on a file by name -/

theorem within_reads {α : Type} {p : Fw α} (hp : Issues (Op.reads hd) p) :
    Issues (Op.looksAt f) p := hp.mono (fun _ => Op.reads.looksAt)

theorem within_fsClose : Issues (Op.looksAt f) (fsClose hd) :=
  issues_perform (.fsClose hd) True.intro

theorem within_isFileExist : Issues (Op.looksAt f) (btldrFsIsFileExist f) := by
  refine within_bind (issues_perform (.fsStat f) rfl) (fun r => ?_)
  cases r with
  | error e => exact within_ret _
  | ok t => exact within_ret _

theorem within_openFile : Issues (Op.looksAt f) (btldrFsOpenFile f) := by
  refine within_bind (issues_perform (.fsOpen f) rfl) (fun r => ?_)
  cases r with
  | error e => exact within_ret _
  | ok hd => exact within_ret _

theorem within_closeReturn {α : Type} (a : α) :
    Issues (Op.looksAt f) (fsClose hd >>= fun _ => pure a) :=
  within_bind within_fsClose (fun _ => within_ret _)

theorem within_openHeader : Issues (Op.looksAt f) (openFileAndLoadImageHeader f) := by
  refine within_bind within_openFile (fun r => ?_)
  cases r with
  | none => exact within_ret _
  | some hd =>
    refine within_bind (within_reads within_loadHeaderFromFile) (fun r => ?_)
    cases r with
    | none => exact within_closeReturn _
    | some h => exact within_ret _

theorem within_validateFile (dstFaAddr : UInt32) (dstFaSize : Nat) :
    Issues (Op.looksAt f) (validateFile P f dstFaAddr dstFaSize) := by
  refine within_bind within_isFileExist (fun e => within_ite (within_ret _) ?_)
  refine within_bind within_openHeader (fun r => ?_)
  cases r with
  | none => exact within_ret _
  | some h =>
    obtain ⟨hd, hdr, imgSize⟩ := h
    refine within_ite (within_closeReturn _) ?_
    refine within_bind (within_reads (within_fsSeek _ _))
      (fun rc => within_ite (within_closeReturn _) ?_)
    refine within_bind (within_reads (within_fsRead _)) (fun b => ?_)
    cases b with
    | error e => exact within_closeReturn _
    | ok b =>
      refine within_ite (within_closeReturn _) (within_ite (within_closeReturn _) ?_)
      refine within_bind (within_reads (within_hwRevFind P _)) (fun r => ?_)
      exact within_bind (within_reads (within_imgValidate P _ _ _ _))
        (fun res => within_ite (within_closeReturn _) (within_closeReturn _))

theorem within_fwInfoFindInFile : Issues (Op.looksAt f) (fwInfoFindInFile P f) := by
  refine within_bind within_openFile (fun r => ?_)
  cases r with
  | none => exact within_ret _
  | some hd =>
    exact within_bind (within_reads (within_fwInfoSearch P _)) (fun _ => within_closeReturn _)

/-! ## Checks that may remove the file -/

theorem within_looks {α : Type} {p : Fw α} (hp : Issues (Op.looksAt f) p) :
    Issues Op.inspects p := hp.mono (fun _ => Op.looksAt.inspects)

theorem within_inspects {α : Type} {p : Fw α} (hp : Issues Op.inspects p) :
    Issues (Op.mayRemove f) p := hp.mono (fun _ => Op.inspects.mayRemove)

theorem within_b0Signature (dstFaAddr : UInt32) (dstFaSize : Nat) :
    Issues Op.inspects (validateB0Signature P f dstFaAddr dstFaSize) := by
  have hclose : ∀ (hd : Handle) (b : Bool), Issues Op.inspects (fsClose hd >>= fun _ => pure b) :=
    fun hd b => within_looks (within_closeReturn (f := f) b)
  refine within_ite (within_ret _) (within_bind (within_looks within_openFile) (fun r => ?_))
  cases r with
  | none => exact within_ret _
  | some hd =>
    refine within_bind (within_looks (within_reads (f := f) within_getFileSize))
      (fun size => within_ite (hclose _ _) ?_)
    refine within_bind (issues_perform (.fsReadShared hd _) True.intro) (fun r => ?_)
    cases r with
    | error e => exact hclose _ _
    | ok n =>
      refine within_ite (hclose _ _)
        (within_bind (issues_perform .sharedBuf True.intro) (fun buf => ?_))
      dsimp only
      cases P.fwInfoFind buf with
      | none => exact hclose _ _
      | some info => exact within_ite (hclose _ _) (within_ite (hclose _ _) (hclose _ _))

theorem within_getFlashArea (fa : FaId) : Issues Op.inspects (getFlashAreaAddressAndSize fa) := by
  refine within_bind (issues_perform (.flashAreaOpen fa) True.intro) (fun r => ?_)
  cases r with
  | error e => exact within_ret _
  | ok p =>
    exact within_bind (issues_perform (.flashAreaClose p.faId) True.intro) (fun _ => within_ret _)

theorem within_loadImageHeader (fa : FaId) : Issues Op.inspects (loadImageHeader P fa) := by
  refine within_bind (issues_perform (.flashAreaOpen fa) True.intro) (fun r => ?_)
  cases r with
  | error e => exact within_ret _
  | ok p =>
    refine within_bind (issues_perform (.flashAreaRead p.faId 0 imageHeaderSize) True.intro)
      (fun b => ?_)
    cases b with
    | error e =>
      exact within_bind (issues_perform (.flashAreaClose p.faId) True.intro) (fun _ => within_ret _)
    | ok b =>
      exact within_bind (issues_perform (.flashAreaClose p.faId) True.intro) (fun _ => within_ret _)

theorem within_unlinkFile : Issues (Op.mayRemove f) (btldrFsUnlinkFile f) :=
  within_bind (issues_perform (.fsUnlink f) (Or.inr rfl)) (fun _ => within_ret _)

theorem within_unlinkReturn {α : Type} (a : α) :
    Issues (Op.mayRemove f) (btldrFsUnlinkFile f >>= fun _ => pure a) :=
  within_bind within_unlinkFile (fun _ => within_ret _)

theorem within_checkFile (dstFaAddr : UInt32) (dstFaSize : Nat) (flagValidateB0Signature : Bool) :
    Issues (Op.mayRemove f) (checkFile P f dstFaAddr dstFaSize flagValidateB0Signature) := by
  have hvalidate := within_inspects (f := f)
    (within_looks (within_validateFile P (f := f) dstFaAddr dstFaSize))
  refine within_bind (within_inspects (within_looks within_isFileExist))
    (fun e => within_ite (within_ret _) (within_ite ?_ ?_))
  · refine within_bind (within_inspects (within_b0Signature P _ _))
      (fun ok => within_ite (within_unlinkReturn _) ?_)
    exact within_bind hvalidate (fun _ => within_ret _)
  · exact within_bind hvalidate (fun _ => within_ite (within_unlinkReturn _) (within_ret _))

theorem within_downgradePrevention (hdr : ImageHeader) :
    Issues Op.inspects (checkDowngradePrevention P dst hdr) := by
  refine within_bind (within_loadImageHeader P dst) (fun r => ?_)
  cases r with
  | none => exact within_ret _
  | some h => exact within_ret _

theorem within_updateGates (hwRev : HwRev) (flagValidateB0Signature : Bool) :
    Issues (Op.mayRemove f) (updateGates P f dst hwRev flagValidateB0Signature) := by
  refine within_bind (within_inspects (within_getFlashArea dst)) (fun r => ?_)
  cases r with
  | none => exact within_ret _
  | some a =>
    obtain ⟨dstFaAddr, dstFaSize⟩ := a
    refine within_bind (within_checkFile P _ _ _) (fun out => within_ite (within_ret _) ?_)
    refine within_bind (within_inspects (within_looks (within_fwInfoFindInFile P))) (fun r => ?_)
    cases r with
    | none => exact within_unlinkReturn _
    | some fileFwInfo =>
      refine within_bind (within_inspects (issues_perform (.flashMapped dst) True.intro))
        (fun content => ?_)
      cases P.fwInfoFind content with
      | none => exact within_unlinkReturn _
      | some dstFwInfo =>
        refine within_ite (within_unlinkReturn _) (within_ite (within_unlinkReturn _)
          (within_ite ?_ (within_ret _)))
        exact within_bind (within_inspects (within_downgradePrevention P _))
          (fun ok => within_ite (within_unlinkReturn _) (within_ret _))

theorem within_checkUpdateForMcuboot (hwRev : HwRev) :
    Issues (Op.mayRemove f) (checkUpdateForMcuboot P f dst hwRev) := by
  refine within_bind (within_inspects (within_looks within_isFileExist))
    (fun e => within_ite (within_ret _) ?_)
  refine within_bind (within_inspects (within_getFlashArea dst)) (fun r => ?_)
  cases r with
  | none => exact within_ret _
  | some a =>
    obtain ⟨dstFaAddr, dstFaSize⟩ := a
    refine within_bind (within_inspects (within_b0Signature P _ _))
      (fun ok => within_ite (within_unlinkReturn _) ?_)
    refine within_bind (within_inspects (within_looks (within_validateFile P _ _))) (fun out => ?_)
    refine within_bind (within_inspects (within_looks (within_fwInfoFindInFile P))) (fun r => ?_)
    cases r with
    | none => exact within_unlinkReturn _
    | some info => exact within_ite (within_unlinkReturn _) (within_ret _)

/-! ## Installation -/

theorem within_processBlocks {fa : FlashArea} {cb : CbImgProcess}
    (hcb : ∀ off b, Issues (Op.copies hd dst) (cb fa off b)) (srcFileSize : Nat) :
    Issues (Op.copies hd dst) (imgProcessBlocks fa hd cb srcFileSize) := by
  refine within_bind (within_loop (fun s => ?_) _ _ _)
    (fun ok => within_bind (issues_perform (.flashAreaClose fa.faId) True.intro)
      (fun _ => within_ret _))
  refine within_ite (within_bind (issues_perform (.fsRead hd _) rfl) (fun b => ?_)) (within_ret _)
  cases b with
  | error e => exact within_ret _
  | ok b =>
    exact within_ite (within_ret _)
      (within_bind (hcb _ _) (fun ok => within_ite (within_ret _) (within_ret _)))

/-- The copy writes the partition it opened and no other. -/
theorem within_imgProcess {cb : CbImgProcess} {erase : Bool}
    (hcb : ∀ fa off b, fa.faId = dst → Issues (Op.copies hd dst) (cb fa off b)) :
    Issues (Op.copies hd dst) (imgProcess dst hd erase cb) := by
  refine within_perform_bind (S := Api) (T := Op.Answered) (A := Op.copies hd dst)
    (o := .flashAreaOpen dst) True.intro (fun r hr => ?_)
  cases r with
  | error e => exact within_ret _
  | ok fa =>
    have hfa : fa.faId = dst := hr
    have hblocks := fun n => within_processBlocks (fun off b => hcb fa off b hfa) n
    refine within_bind (issues_perform (.fsSeek hd 0 .fromEnd) rfl)
      (fun rc => within_ite (within_ret _) ?_)
    refine within_bind (issues_perform (.fsTell hd) rfl) (fun size => ?_)
    refine within_bind (issues_perform (.fsSeek hd 0 .set) rfl)
      (fun rc => within_ite (within_ret _) (within_ite (within_ret _) (within_ite ?_ (hblocks _))))
    exact within_bind (issues_perform (.flashAreaErase fa.faId 0 fa.faSize) hfa)
      (fun rc => within_ite (within_ret _) (hblocks _))

theorem within_copy : Issues (Op.copies hd dst) (mcubootImgOpCopy dst hd) :=
  within_imgProcess (fun fa off b hfa =>
    within_bind (issues_perform (.flashAreaWrite fa.faId off b) hfa) (fun _ => within_ret _))

theorem within_copyUpdate : Issues (Op.mayInstall f dst) (copyUpdate f dst) := by
  have hunlink : ∀ b : Bool,
      Issues (Op.mayInstall f dst) (btldrFsUnlinkFile f >>= fun _ => pure b) :=
    fun b => (within_unlinkReturn b).mono (fun _ => Op.mayRemove.mayInstall)
  have hlook : ∀ {α : Type} {p : Fw α}, Issues (Op.looksAt f) p → Issues (Op.mayInstall f dst) p :=
    fun hp => (within_looks hp).mono (fun _ => Op.inspects.mayInstall)
  refine within_bind (hlook within_openFile) (fun r => ?_)
  cases r with
  | none => exact hunlink _
  | some hd =>
    refine within_bind (within_copy.mono (fun _ ho => Or.inl ho.mayWrite)) (fun ok => ?_)
    exact within_bind (hlook within_fsClose) (fun _ => hunlink _)

theorem within_checkFileAndUpdate (hwRev : HwRev) (flagValidateB0Signature : Bool) :
    Issues (Op.mayInstall f dst) (checkFileAndUpdate P f dst hwRev flagValidateB0Signature) :=
  within_bind ((within_updateGates P _ _).mono (fun _ => Op.mayRemove.mayInstall))
    (fun _ => within_ite (within_ret _) within_copyUpdate)

end RuuviMcuboot
