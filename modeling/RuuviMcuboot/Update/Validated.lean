/-
What `validate_file` finds in a file.

`validateOn` is the function on the contents of the file.  A file it accepts has a
sound header whose sizes do not overflow, and passes `file_img_validate`.
-/
import RuuviMcuboot.Platform.LocalRead
import RuuviMcuboot.Update.FileCheck
import RuuviMcuboot.Validate.Authenticity

namespace RuuviMcuboot

open Binary Effect

variable (P : Platform) {w : World} {f : UpdateFile} {hd : Handle} {d : FileData}

/-! ## The header -/

/-- The header at the start of a file. -/
def fileHeader (d : FileData) : ImageHeader := ImageHeader.decode (slice d.bytes 0 imageHeaderSize)

/-- What `load_image_header_from_file` yields for a file. -/
def loadedHeader (d : FileData) : Option (ImageHeader × UInt32) :=
  if (slice d.bytes 0 imageHeaderSize).length ≠ imageHeaderSize then none
  else if (fileHeader d).ihMagic ≠ IMAGE_MAGIC then none
  else if (fileHeader d).ihFlags &&& IMAGE_F_NON_BOOTABLE ≠ 0 then none
  else
    match bootU32SafeAdd (fileHeader d).ihImgSize (fileHeader d).ihHdrSize.toUInt32 with
    | none => none
    | some imgSize =>
      if imgSize.toNat > d.bytes.length then none else some (fileHeader d, imgSize)

theorem run_loadHeaderFromFile (hw : Reliable w) {o : OpenFile} {t : List (Handle × OpenFile)}
    (ht : w.opened = (hd, o) :: t) (hpos : o.pos = 0) :
    (P.run (loadImageHeaderFromFile hd) w).1 = loadedHeader o.data := by
  obtain ⟨w₁, hread, hw₁, hpos₁, ht₁⟩ : ∃ w₁,
      P.run (fsRead hd imageHeaderSize) w = (.ok (slice o.data.bytes 0 imageHeaderSize), w₁) ∧
        Reliable w₁ ∧ ∃ pos ≤ lfsFileMax, w₁.opened = (hd, { o with pos := pos }) :: t := by
    have hread := run_fsRead_head P hw ht imageHeaderSize
    rw [hpos] at hread
    refine ⟨_, hread, hw.tick.setOpened _, _, ?_, rfl⟩
    rw [slice_length]
    unfold imageHeaderSize lfsFileMax
    omega
  have hsize := run_getFileSize_head P hw₁ ht₁.2 ht₁.1
  unfold loadImageHeaderFromFile loadedHeader
  rw [P.run_bind_of hread]
  show (P.run (if (slice o.data.bytes 0 imageHeaderSize).length ≠ imageHeaderSize then pure none
    else if (fileHeader o.data).ihMagic ≠ IMAGE_MAGIC then pure none
    else if (fileHeader o.data).ihFlags &&& IMAGE_F_NON_BOOTABLE ≠ 0 then pure none else _) w₁).1 = _
  by_cases hlen : (slice o.data.bytes 0 imageHeaderSize).length ≠ imageHeaderSize
  · rw [if_pos hlen, if_pos hlen]
    rfl
  rw [if_neg hlen, if_neg hlen]
  by_cases hmagic : (fileHeader o.data).ihMagic ≠ IMAGE_MAGIC
  · rw [if_pos hmagic, if_pos hmagic]
    rfl
  rw [if_neg hmagic, if_neg hmagic]
  by_cases hflags : (fileHeader o.data).ihFlags &&& IMAGE_F_NON_BOOTABLE ≠ 0
  · rw [if_pos hflags, if_pos hflags]
    rfl
  rw [if_neg hflags, if_neg hflags]
  show (P.run (match bootU32SafeAdd (fileHeader o.data).ihImgSize
    (fileHeader o.data).ihHdrSize.toUInt32 with
      | none => _
      | some imgSize => _) w₁).1 = _
  cases bootU32SafeAdd (fileHeader o.data).ihImgSize (fileHeader o.data).ihHdrSize.toUInt32 with
  | none => rfl
  | some imgSize =>
    dsimp only
    rw [P.run_bind_of hsize, toSizeT_length]
    by_cases hfit : imgSize.toNat > o.data.bytes.length
    · rw [if_pos hfit, if_pos hfit]
      rfl
    · rw [if_neg hfit, if_neg hfit]
      rfl

theorem bootU32SafeAdd_some {a b c : UInt32} (h : bootU32SafeAdd a b = some c) :
    c.toNat = a.toNat + b.toNat := by
  unfold bootU32SafeAdd at h
  by_cases hbig : a > 0xFFFFFFFF - b
  · rw [if_pos hbig] at h
    exact absurd h (by simp)
  · rw [if_neg hbig] at h
    obtain rfl := Option.some.inj h
    have hb := b.toNat_lt
    have hle : a.toNat ≤ (0xFFFFFFFF - b).toNat := UInt32.le_iff_toNat_le.mp (UInt32.not_lt.mp hbig)
    rw [UInt32.toNat_sub_of_le] at hle
    · rw [UInt32.toNat_add, Nat.mod_eq_of_lt]
      have : (0xFFFFFFFF : UInt32).toNat = 4294967295 := rfl
      omega
    · rw [UInt32.le_iff_toNat_le]
      have : (0xFFFFFFFF : UInt32).toNat = 4294967295 := rfl
      omega

/-- A loaded header is the one at the start of the file, and the image it
describes ends inside the file. -/
theorem loadedHeader_some {hdr : ImageHeader} {imgSize : UInt32}
    (h : loadedHeader d = some (hdr, imgSize)) :
    hdr = fileHeader d ∧ imgSize.toNat = hdr.ihHdrSize.toNat + hdr.ihImgSize.toNat ∧
      imgSize.toNat ≤ d.bytes.length := by
  unfold loadedHeader at h
  by_cases hlen : (slice d.bytes 0 imageHeaderSize).length ≠ imageHeaderSize
  · rw [if_pos hlen] at h
    exact absurd h (by simp)
  rw [if_neg hlen] at h
  by_cases hmagic : (fileHeader d).ihMagic ≠ IMAGE_MAGIC
  · rw [if_pos hmagic] at h
    exact absurd h (by simp)
  rw [if_neg hmagic] at h
  by_cases hflags : (fileHeader d).ihFlags &&& IMAGE_F_NON_BOOTABLE ≠ 0
  · rw [if_pos hflags] at h
    exact absurd h (by simp)
  rw [if_neg hflags] at h
  cases hadd : bootU32SafeAdd (fileHeader d).ihImgSize (fileHeader d).ihHdrSize.toUInt32 with
  | none =>
    rw [hadd] at h
    exact absurd h (by simp)
  | some size =>
    rw [hadd] at h
    dsimp only at h
    by_cases hfit : size.toNat > d.bytes.length
    · rw [if_pos hfit] at h
      exact absurd h (by simp)
    · rw [if_neg hfit] at h
      obtain ⟨rfl, rfl⟩ := Prod.mk.inj (Option.some.inj h)
      have hsum := bootU32SafeAdd_some hadd
      rw [UInt16.toNat_toUInt32] at hsum
      exact ⟨rfl, by omega, Nat.le_of_not_lt hfit⟩

/-! ## The checks behind the header -/

/-- The hardware revision record of a file: whether the search succeeded, and
what it filled in. -/
def hwRevOn (d : FileData) : Bool × HwRev :=
  (Effect.run (fileOps d) (fwImgHwRevFindInFile P 0 HwRev.zero) 0).1

/-- The reset vector lies in the partition. -/
def resetInRange (d : FileData) (hdr : ImageHeader) (dstFaAddr : UInt32) (dstFaSize : Nat) : Prop :=
  le32 (slice d.bytes (hdr.ihHdrSize.toNat + 4) 4) 0 ≥ dstFaAddr ∧
    le32 (slice d.bytes (hdr.ihHdrSize.toNat + 4) 4) 0 < dstFaAddr + UInt32.ofNat dstFaSize

instance (d : FileData) (hdr : ImageHeader) (dstFaAddr : UInt32) (dstFaSize : Nat) :
    Decidable (resetInRange d hdr dstFaAddr dstFaSize) :=
  inferInstanceAs (Decidable (_ ∧ _))

/-- `validate_file` on the contents of a file. -/
def validateOn (d : FileData) (dstFaAddr : UInt32) (dstFaSize : Nat) : FileCheck :=
  match loadedHeader d with
  | none => FileCheck.failed
  | some (hdr, imgSize) =>
    if imgSize.toNat ≥ dstFaSize then FileCheck.failed
    else if (slice d.bytes (hdr.ihHdrSize.toNat + 4) 4).length ≠ 4 then
      { FileCheck.failed with hdr := hdr }
    else if ¬ resetInRange d hdr dstFaAddr dstFaSize then { FileCheck.failed with hdr := hdr }
    else
      { ok := decide (validateData P d hdr dstFaSize hookTmpBufSz none = .success)
        hdr := hdr
        hwRev := (hwRevOn P d).2 }

/-- A verdict that is reached behind a close is the value that is returned. -/
theorem run_close_fst {α : Type} (a : α) (w : World) :
    (P.run (fsClose hd >>= fun _ => pure a) w).1 = a := by
  rw [P.run_bind]
  rfl

theorem OpenAt.reading {pos : Nat} (hw : OpenAt hd d w pos) : Reading True hd d w := by
  obtain ⟨f, t, ht⟩ := hw.isOpen
  exact ⟨fun _ => hw.reliable, _, by rw [ht, lookupFile_cons_self], rfl⟩

theorem run_imgValidate {pos : Nat} (hw : OpenAt hd d w pos) (hdr : ImageHeader) (faSize : Nat)
    (tmpBufSz : UInt32) (seed : Option Bytes) :
    (P.run (fileImgValidate P hd hdr faSize tmpBufSz seed) w).1 =
      validateData P d hdr faSize tmpBufSz seed :=
  (fileImgValidate_returns P hdr faSize tmpBufSz seed).fst hw.reading (fun _ h => h.1 trivial)

/-- The search for the hardware revision starts with a seek, so it does not matter
where the file stands. -/
theorem hwRevOn_anywhere (pos : Nat) :
    (Effect.run (fileOps d) (fwImgHwRevFindInFile P 0 HwRev.zero) pos).1 = hwRevOn P d := by
  have hseek : ∀ p, Effect.run (fileOps d) (fsSeek 0 0 .set) p = (0, 0) := fun p =>
    fileOps_fsSeek_set d p (Nat.zero_le _)
  unfold hwRevOn fwImgHwRevFindInFile
  rw [Effect.run_bind_of (hseek pos), Effect.run_bind_of (hseek 0)]

theorem run_hwRevFind {pos : Nat} (hw : OpenAt 0 d w pos) :
    (P.run (fwImgHwRevFindInFile P 0 HwRev.zero) w).1 = hwRevOn P d := by
  rw [(hw.run P (within_hwRevFind P _)).1, hwRevOn_anywhere]

/-- The checks of `validate_file` on an open file with a loaded header. -/
theorem run_validateOpen {pos : Nat} (hw : OpenAt 0 d w pos) (hdr : ImageHeader) (imgSize : UInt32)
    (dstFaAddr : UInt32) (dstFaSize : Nat) :
    (P.run (do
      if imgSize.toNat ≥ dstFaSize then
        fsClose 0
        return FileCheck.failed
      else
        let out : FileCheck := { FileCheck.failed with hdr := hdr }
        let rc ← fsSeek 0 ((hdr.ihHdrSize.toNat : Int) + 4) .set
        if rc ≠ 0 then
          fsClose 0
          return out
        else
          match ← fsRead 0 4 with
          | .error _ =>
            fsClose 0
            return out
          | .ok b =>
            let resetAddr := le32 b 0
            if b.length ≠ 4 then
              fsClose 0
              return out
            else if ¬ (resetAddr ≥ dstFaAddr ∧
                resetAddr < dstFaAddr + UInt32.ofNat dstFaSize) then
              fsClose 0
              return out
            else
              let (_, hwRev) ← fwImgHwRevFindInFile P 0 HwRev.zero
              let out := { out with hwRev := hwRev }
              let res ← fileImgValidate P 0 hdr dstFaSize hookTmpBufSz none
              if res ≠ .success then
                fsClose 0
                return out
              else
                fsClose 0
                return { out with ok := true }) w).1 =
      (if imgSize.toNat ≥ dstFaSize then FileCheck.failed
      else if (slice d.bytes (hdr.ihHdrSize.toNat + 4) 4).length ≠ 4 then
        { FileCheck.failed with hdr := hdr }
      else if ¬ resetInRange d hdr dstFaAddr dstFaSize then { FileCheck.failed with hdr := hdr }
      else
        { ok := decide (validateData P d hdr dstFaSize hookTmpBufSz none = .success)
          hdr := hdr
          hwRev := (hwRevOn P d).2 }) := by
  by_cases hbig : imgSize.toNat ≥ dstFaSize
  · rw [if_pos hbig, if_pos hbig]
    exact run_close_fst P _ w
  rw [if_neg hbig, if_neg hbig]
  have hoff : hdr.ihHdrSize.toNat + 4 ≤ lfsFileMax := by
    have := hdr.ihHdrSize.toNat_lt
    unfold lfsFileMax
    omega
  have hseek := hw.run P (p := fsSeek 0 ((hdr.ihHdrSize.toNat : Int) + 4) .set) (within_fsSeek _ _)
  have hval : Effect.run (fileOps d) (fsSeek 0 ((hdr.ihHdrSize.toNat : Int) + 4) .set) pos =
      (0, hdr.ihHdrSize.toNat + 4) := fileOps_fsSeek_set d pos hoff
  rw [hval] at hseek
  obtain ⟨w₁, hrun₁, hw₁⟩ : ∃ w₁,
      P.run (fsSeek 0 ((hdr.ihHdrSize.toNat : Int) + 4) .set) w = (0, w₁) ∧
        OpenAt 0 d w₁ (hdr.ihHdrSize.toNat + 4) := ⟨_, Prod.ext hseek.1 rfl, hseek.2⟩
  have hread := hw₁.run P (p := fsRead 0 4) (within_fsRead _)
  obtain ⟨w₂, hrun₂, pos₂, hw₂⟩ : ∃ w₂,
      P.run (fsRead 0 4) w₁ = (.ok (slice d.bytes (hdr.ihHdrSize.toNat + 4) 4), w₂) ∧
        ∃ pos₂, OpenAt 0 d w₂ pos₂ := ⟨_, Prod.ext hread.1 rfl, _, hread.2⟩
  dsimp only
  rw [P.run_bind_of hrun₁, if_neg (by decide), P.run_bind_of hrun₂]
  dsimp only
  by_cases hshort : (slice d.bytes (hdr.ihHdrSize.toNat + 4) 4).length ≠ 4
  · rw [if_pos hshort, if_pos hshort]
    exact run_close_fst P _ w₂
  rw [if_neg hshort, if_neg hshort]
  by_cases hrange : ¬ resetInRange d hdr dstFaAddr dstFaSize
  · rw [if_pos (show ¬ (_ ∧ _) from hrange), if_pos hrange]
    exact run_close_fst P _ w₂
  rw [if_neg (show ¬ ¬ (_ ∧ _) from hrange), if_neg hrange]
  have hrev := hw₂.run P (within_hwRevFind P HwRev.zero)
  have hrev₁ := run_hwRevFind P hw₂
  rw [P.run_bind, hrev₁]
  have hval := run_imgValidate P hrev.2 hdr dstFaSize hookTmpBufSz none
  rw [P.run_bind, hval]
  by_cases hok : validateData P d hdr dstFaSize hookTmpBufSz none = .success
  · rw [if_neg (not_not.mpr hok), decide_eq_true hok]
    exact run_close_fst P _ _
  · rw [if_pos hok, decide_eq_false hok]
    exact run_close_fst P _ _

/-- `validate_file` on a regular file. -/
theorem fileCheck_file (dstFaAddr : UInt32) (dstFaSize : Nat) :
    fileCheck P f (some (.file d)) dstFaAddr dstFaSize = validateOn P d dstFaAddr dstFaSize := by
  have hw := alone_reliable (some (.file d))
  have hreg : regular ((alone (some (.file d))).files f) = some d := rfl
  have hopen := run_openFile_some P (f := f) hw.tick hreg
  have hhd : freshHandle (alone (some (.file d))).tick.opened = 0 := rfl
  rw [hhd] at hopen
  obtain ⟨w₁, hrun, hw₁⟩ : ∃ w₁, P.run (btldrFsOpenFile f) (alone (some (.file d))).tick =
      (some 0, w₁) ∧ OpenAt 0 d w₁ 0 := ⟨_, hopen, hw.tick.tick.setOpened _, f, [], rfl⟩
  obtain ⟨f', t, ht⟩ := hw₁.isOpen
  have hheader := run_loadHeaderFromFile P hw₁.reliable ht rfl
  have hnext := hw₁.run P within_loadHeaderFromFile
  unfold fileCheck validateFile openFileAndLoadImageHeader validateOn
  rw [P.run_bind_of (run_isFileExist P hw), hreg, if_neg (show ¬ (some d).isSome = false by simp),
    P.run_bind, P.run_bind_of hrun]
  dsimp only
  rw [P.run_bind, hheader]
  cases loadedHeader d with
  | none => rfl
  | some h => exact run_validateOpen P hnext.2 h.1 h.2 dstFaAddr dstFaSize

/-- A file that `validate_file` accepts declares sizes that lie inside the file and
the partition, and its contents pass the validation. -/
theorem validateOn_ok {dstFaAddr : UInt32} {dstFaSize : Nat}
    (hok : (validateOn P d dstFaAddr dstFaSize).ok = true) :
    validateOn P d dstFaAddr dstFaSize =
        { ok := true, hdr := fileHeader d, hwRev := (hwRevOn P d).2 } ∧
      (fileHeader d).ihHdrSize.toNat + (fileHeader d).ihImgSize.toNat ≤ d.bytes.length ∧
      (fileHeader d).ihHdrSize.toNat + (fileHeader d).ihImgSize.toNat < dstFaSize ∧
      resetInRange d (fileHeader d) dstFaAddr dstFaSize ∧
      validateData P d (fileHeader d) dstFaSize hookTmpBufSz none = .success := by
  unfold validateOn at hok ⊢
  cases hload : loadedHeader d with
  | none =>
    rw [hload] at hok
    exact absurd hok Bool.false_ne_true
  | some h =>
    obtain ⟨hdr, imgSize⟩ := h
    obtain ⟨rfl, hsum, hfit⟩ := loadedHeader_some hload
    rw [hload] at hok
    dsimp only at hok ⊢
    by_cases hbig : imgSize.toNat ≥ dstFaSize
    · rw [if_pos hbig] at hok
      exact absurd hok (by decide)
    rw [if_neg hbig] at hok ⊢
    by_cases hshort : (slice d.bytes ((fileHeader d).ihHdrSize.toNat + 4) 4).length ≠ 4
    · rw [if_pos hshort] at hok
      exact absurd hok (by simp [FileCheck.failed])
    rw [if_neg hshort] at hok ⊢
    by_cases hrange : ¬ resetInRange d (fileHeader d) dstFaAddr dstFaSize
    · rw [if_pos hrange] at hok
      exact absurd hok (by simp [FileCheck.failed])
    rw [if_neg hrange] at hok ⊢
    have hval := of_decide_eq_true hok
    refine ⟨?_, by omega, by omega, not_not.mp hrange, hval⟩
    rw [decide_eq_true hval]

/-! ## Firmware information -/

/-- The record at an offset of a file, as `fw_info_check_in_file` finds it. -/
def fwInfoAt (d : FileData) (offset : Nat) : Option FwInfo :=
  if offset ≤ lfsFileMax then
    let b := slice d.bytes offset P.fwInfoSize
    if b.length ≠ P.fwInfoSize then none
    else if (P.fwInfoDecode b).magic = P.fwInfoMagic then some (P.fwInfoDecode b)
    else none
  else none

/-- The first record at an allowed offset. -/
def fwInfoOn (d : FileData) : Option FwInfo := P.fwInfoAllowedOffsets.findSome? (fwInfoAt P d)

theorem fileOps_fwInfoCheck (offset pos : Nat) :
    (Effect.run (fileOps d) (fwInfoCheckInFile P hd offset) pos).1 = fwInfoAt P d offset := by
  unfold fwInfoCheckInFile fwInfoAt
  by_cases hoff : offset ≤ lfsFileMax
  · rw [Effect.run_bind_of (fileOps_fsSeek_set d pos hoff), if_neg (by decide), if_pos hoff,
      Effect.run_bind_of (fileOps_fsRead d offset P.fwInfoSize)]
    dsimp only
    by_cases hlen : (slice d.bytes offset P.fwInfoSize).length ≠ P.fwInfoSize
    · rw [if_pos hlen, if_pos hlen]
      rfl
    rw [if_neg hlen, if_neg hlen]
    by_cases hmagic : (P.fwInfoDecode (slice d.bytes offset P.fwInfoSize)).magic = P.fwInfoMagic
    · rw [if_pos hmagic, if_pos hmagic]
      rfl
    · rw [if_neg hmagic, if_neg hmagic]
      rfl
  · have hbad : ¬ (0 ≤ (offset : Int) ∧ (offset : Int) ≤ lfsFileMax) := by omega
    rw [Effect.run_bind_of (fileOps_fsSeek_bad d pos hbad), if_pos (by decide), if_neg hoff]
    rfl

theorem fileOps_fwInfoSearch (offsets : List Nat) (pos : Nat) :
    (Effect.run (fileOps d) (fwInfoSearchInFile P hd offsets) pos).1 =
      offsets.findSome? (fwInfoAt P d) := by
  induction offsets generalizing pos with
  | nil => rfl
  | cons offset rest ih =>
    rw [fwInfoSearchInFile, Effect.run_bind, fileOps_fwInfoCheck, List.findSome?_cons]
    cases fwInfoAt P d offset with
    | some info => rfl
    | none => exact ih _

/-- `fw_info_find_in_file` on a regular file. -/
theorem fileFwInfo_file : fileFwInfo P f (some (.file d)) = fwInfoOn P d := by
  have hw := alone_reliable (some (.file d))
  have hopen := run_openFile_some P (f := f) hw (show regular ((alone (some (.file d))).files f) =
    some d from rfl)
  have hat : OpenAt 0 d ((alone (some (.file d))).tick.setOpened
      ((0, { name := f, data := d, pos := 0 }) :: [])) 0 := ⟨hw.tick.setOpened _, f, [], rfl⟩
  have hsearch := (hat.run P (within_fwInfoSearch P P.fwInfoAllowedOffsets)).1
  rw [fileOps_fwInfoSearch] at hsearch
  unfold fileFwInfo fwInfoFindInFile
  rw [P.run_bind_of hopen]
  show (P.run (fwInfoSearchInFile P 0 P.fwInfoAllowedOffsets >>= fun info =>
    fsClose 0 >>= fun _ => pure info) _).1 = _
  rw [P.run_bind, run_close_fst]
  exact hsearch

end RuuviMcuboot
