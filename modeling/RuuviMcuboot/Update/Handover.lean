/-
The hand-over from slot 0 to slot 1 and the installation that follows it.

`check_update_for_mcuboot` looks at the file only, and on its word the executing slot is
invalidated.  The installer of the next boot looks at the partition as well.  What the
pre-check accepts is installed exactly if the versions let it, so the pre-check does not
keep the slot from being invalidated for a file that is then rejected.
-/
import RuuviMcuboot.Revision.Found
import RuuviMcuboot.Update.Calls
import RuuviMcuboot.Update.Install
import RuuviMcuboot.Update.Versions

namespace RuuviMcuboot

open Binary Effect

variable {P : Platform} {w w₂ : World} {f : UpdateFile} {d : FileData} {hwRev hwRev₂ : HwRev}

/-! ## Invalidation -/

/-- A partition behind `img_invalidate`. -/
def invalidated (P : Platform) (content : Bytes) : Bytes :=
  match P.fwInfoFind content with
  | none => content
  | some _ => P.fwInfoInvalidate content

theorem run_imgInvalidate (hw : Reliable w) (fa : FaId) :
    ∃ ok n, P.run (imgInvalidate P fa) w =
      (ok, (w.after n w.sharedBuf w.files).setFlash fa (invalidated P (w.flash fa))) := by
  have hopen : P.run (flashAreaOpen fa) w =
      (.ok { faId := fa, faOff := P.faOff fa, faSize := (w.flash fa).length }, w.tick) := by
    rw [run_flashAreaOpen]
    simp only [Platform.exec, hw.rc?]
    rfl
  have hmapped : P.run (flashMapped fa) w.tick = (w.flash fa, w.tick.tick) := rfl
  unfold imgInvalidate invalidated
  rw [P.run_bind_of hopen]
  dsimp only
  rw [P.run_bind_of hmapped]
  cases P.fwInfoFind (w.flash fa) with
  | none =>
    refine ⟨false, w.clock + 3, Prod.ext rfl ?_⟩
    show w.tick.tick.tick = (w.after _ w.sharedBuf w.files).setFlash fa (w.flash fa)
    unfold World.setFlash
    rw [World.after_flash, Function.update_eq_self]
    rfl
  | some info =>
    have hinv : P.run (fwInfoInvalidate fa) w.tick.tick =
        ((), w.tick.tick.tick.setFlash fa (P.fwInfoInvalidate (w.flash fa))) := by
      rw [run_fwInfoInvalidate]
      simp only [Platform.exec, hw.tick.tick.rc?]
      rfl
    dsimp only
    rw [P.run_bind_of hinv]
    exact ⟨true, w.clock + 4, rfl⟩

/-- What the installer relies on in the functions of the SDK on firmware information:
an invalidation changes neither the size of a partition nor the version found in it,
and leaves an image header where one is. -/
structure InvalidationLaws (P : Platform) : Prop where
  length : ∀ b, (P.fwInfoInvalidate b).length = b.length
  version : ∀ b, fwInfoVersion P (P.fwInfoInvalidate b) = fwInfoVersion P b
  header : P.downgradePrevention = true → ∀ b,
    (partitionHeader P (P.fwInfoInvalidate b)).isSome = (partitionHeader P b).isSome

theorem invalidated_length (laws : InvalidationLaws P) (b : Bytes) :
    (invalidated P b).length = b.length := by
  unfold invalidated
  cases P.fwInfoFind b with
  | none => rfl
  | some info => exact laws.length b

theorem invalidated_version (laws : InvalidationLaws P) (b : Bytes) :
    fwInfoVersion P (invalidated P b) = fwInfoVersion P b := by
  unfold invalidated
  cases P.fwInfoFind b with
  | none => rfl
  | some info => exact laws.version b

theorem invalidated_header (laws : InvalidationLaws P) (hdown : P.downgradePrevention = true)
    (b : Bytes) :
    (partitionHeader P (invalidated P b)).isSome = (partitionHeader P b).isSome := by
  unfold invalidated
  cases P.fwInfoFind b with
  | none => rfl
  | some info => exact laws.header hdown b

/-! ## The verdicts -/

/-- The platform with another version of the running image. -/
def Platform.running (P : Platform) (v : ImageVersion) : Platform :=
  { P with mcubootS0S1ImageVersion := v }

theorem fwInfoOn_running (v : ImageVersion) (d : FileData) :
    fwInfoOn (P.running v) d = fwInfoOn P d := rfl

theorem fileImgFindKeyFrom_running (v : ImageVersion) (keyhash : Bytes) (keyhashLen : UInt8)
    (keys : List Bytes) (i : Int) :
    fileImgFindKeyFrom (P.running v) keyhash keyhashLen keys i =
      fileImgFindKeyFrom P keyhash keyhashLen keys i := by
  induction keys generalizing i with
  | nil => rfl
  | cons key rest ih =>
    unfold fileImgFindKeyFrom
    rw [ih]
    rfl

theorem fileImgFindKey_running (v : ImageVersion) (keyhash : Bytes) (keyhashLen : UInt8) :
    fileImgFindKey (P.running v) keyhash keyhashLen = fileImgFindKey P keyhash keyhashLen := by
  unfold fileImgFindKey
  rw [fileImgFindKeyFrom_running]
  rfl

theorem tlvStep_running (v : ImageVersion) (hash : Bytes) :
    tlvStep (P.running v) hash = tlvStep P hash := by
  funext s t
  unfold tlvStep
  simp only [fileImgFindKey_running]
  rfl

theorem validateData_running (v : ImageVersion) (d : FileData) (hdr : ImageHeader) (faSize : Nat)
    (tmpBufSz : UInt32) (seed : Option Bytes) :
    validateData (P.running v) d hdr faSize tmpBufSz seed =
      validateData P d hdr faSize tmpBufSz seed := by
  have hhash : hashOn (P.running v) d hdr tmpBufSz seed = hashOn P d hdr tmpBufSz seed := rfl
  unfold validateData tlvsVerdict verdictFrom
  simp only [hhash, tlvStep_running]

/-- What `validate_file` finds does not depend on the version of the running image. -/
theorem validateOn_running (v : ImageVersion) (d : FileData) (dstFaAddr : UInt32)
    (dstFaSize : Nat) :
    validateOn (P.running v) d dstFaAddr dstFaSize = validateOn P d dstFaAddr dstFaSize := by
  have hrev : hwRevOn (P.running v) d = hwRevOn P d := rfl
  unfold validateOn
  simp only [validateData_running, hrev]

/-- Only the name of the running image counts, as a string. -/
theorem hwRevMismatch_of_name (hname : cString hwRev.hwRevName = cString hwRev₂.hwRevName)
    (actual : HwRev) : hwRevMismatch hwRev actual = hwRevMismatch hwRev₂ actual := by
  have hempty : hwRev.nameEmpty = hwRev₂.nameEmpty := by
    rw [Bool.eq_iff_iff, nameEmpty_iff, nameEmpty_iff, hname]
  unfold hwRevMismatch
  rw [hempty, hname]

theorem fileAccepted_b0 (f : UpdateFile) (d : FileData) (buf : Bytes) (dstFaAddr : UInt32)
    (dstFaSize : Nat) :
    fileAccepted P f (some (.file d)) buf dstFaAddr dstFaSize true =
      b0Accepts P (some d) buf dstFaAddr dstFaSize := rfl

/-- What the pre-check says about a file. -/
theorem handoverAccepts_file {buf : Bytes} {dst : FaId} {dstFaSize : Nat}
    (h : handoverAccepts P f (some (.file d)) buf dst dstFaSize hwRev = true) :
    b0Accepts P (some d) buf (P.faOff dst) dstFaSize = true ∧
      (∃ info, fwInfoOn P d = some info) ∧
        hwRevMismatch hwRev (validateOn P d (P.faOff dst) dstFaSize).hwRev = false := by
  unfold handoverAccepts at h
  rw [fileAccepted_b0, fileFwInfo_file, fileCheck_file, Bool.and_eq_true, Bool.and_eq_true] at h
  exact ⟨h.1, Option.isSome_iff_exists.mp h.2.1, by simpa using h.2.2⟩

/-- A file with a size that the first-stage check takes. -/
theorem b0Accepts_length {buf : Bytes} {dstFaAddr : UInt32} {dstFaSize : Nat}
    (h : b0Accepts P (some d) buf dstFaAddr dstFaSize = true) : d.bytes.length ≤ dstFaSize := by
  unfold b0Accepts at h
  cases hload : b0Loads P (some d) dstFaSize with
  | none =>
    rw [hload] at h
    exact absurd h Bool.false_ne_true
  | some d' =>
    obtain ⟨hd, hsize, hle⟩ := b0Loads_some P hload
    rw [Option.some.inj hd, hsize]
    exact hle

/-- The version in the file is not below the one in the partition, and the partition
holds an image header if the versions of the images are compared. -/
structure VersionsAllow (P : Platform) (dst : FaId) (d : FileData) (content : Bytes) : Prop where
  fwInfo : ∃ v info, fwInfoVersion P content = some v ∧ fwInfoOn P d = some info ∧
    v ≤ info.version
  image : P.downgradePrevention = true → (partitionHeader P content).isSome = true ∧
    downgradeAllowed P dst (validateOn P d (P.faOff dst) content.length).hdr = true

theorem versionsAllow_invalidated (laws : InvalidationLaws P) (dst : FaId) (d : FileData)
    (content : Bytes) :
    VersionsAllow P dst d (invalidated P content) ↔ VersionsAllow P dst d content := by
  have hversion := invalidated_version laws content
  have hlength := invalidated_length laws content
  constructor
  · intro h
    refine ⟨hversion ▸ h.fwInfo, fun hdown => ?_⟩
    rw [← invalidated_header laws hdown, ← hlength]
    exact h.image hdown
  · intro h
    refine ⟨hversion.symm ▸ h.fwInfo, fun hdown => ?_⟩
    rw [invalidated_header laws hdown, hlength]
    exact h.image hdown

/-- The verdict of the installer on a file with firmware information, if the names are
equal. -/
theorem gatesAccept_file (f : UpdateFile) (buf : Bytes) (flag : Bool) {dst : FaId}
    {content : Bytes} {info : FwInfo} (hinfo : fwInfoOn P d = some info)
    (hname : hwRevMismatch hwRev (validateOn P d (P.faOff dst) content.length).hwRev = false) :
    gatesAccept P f (some (.file d)) buf dst content hwRev flag = true ↔
      fileAccepted P f (some (.file d)) buf (P.faOff dst) content.length flag = true ∧
        VersionsAllow P dst d content := by
  unfold gatesAccept
  rw [fileFwInfo_file, fileCheck_file, hinfo]
  dsimp only
  rw [hname, Bool.not_false, Bool.true_and, Bool.and_eq_true]
  refine and_congr_right fun _ => ?_
  unfold dstAccepts
  cases hdst : P.fwInfoFind content with
  | none =>
    refine iff_of_false Bool.false_ne_true fun h => ?_
    obtain ⟨v, _, hv, -⟩ := h.fwInfo
    unfold fwInfoVersion at hv
    rw [hdst] at hv
    exact absurd hv (by simp)
  | some dstInfo =>
    have hversion : fwInfoVersion P content = some dstInfo.version := by
      unfold fwInfoVersion
      rw [hdst]
      rfl
    dsimp only
    rw [Bool.and_eq_true, decide_eq_true_iff]
    constructor
    · rintro ⟨hle, hdown⟩
      refine ⟨⟨_, _, hversion, hinfo, hle⟩, fun h => ?_⟩
      rw [h, Bool.not_true, Bool.false_or, Bool.and_eq_true] at hdown
      exact hdown
    · intro h
      obtain ⟨v, info', hv, hinfo', hle⟩ := h.fwInfo
      rw [hversion] at hv
      rw [hinfo] at hinfo'
      obtain rfl := Option.some.inj hv
      obtain rfl := Option.some.inj hinfo'
      refine ⟨hle, ?_⟩
      cases hdown : P.downgradePrevention with
      | false => rfl
      | true =>
        rw [Bool.not_true, Bool.false_or, Bool.and_eq_true]
        exact h.image hdown

/-! ## Two boots -/

/-- A boot from slot 0 hands the file over to the other slot. -/
def HandsOver (P : Platform) (hwRev : HwRev) (w : World) : Prop :=
  (P.run (handoverCheck P .slot0 hwRev) ((otherSlotCall .slot0 w).finish P hwRev)).1 = true

instance (hwRev : HwRev) (w : World) : Decidable (HandsOver P hwRev w) :=
  inferInstanceAs (Decidable (_ = true))

/-- A boot from slot 1 lets the file pass every check and copies it into slot 0. -/
def InstallsHandedOver (P : Platform) (hwRev : HwRev) (d : FileData) (w : World) : Prop :=
  let c := otherSlotCall .slot1 w
  (P.run (updateGates P c.file c.dst hwRev c.flagValidateB0Signature) c.start).1 = true ∧
    (c.finish P hwRev).flash .s0 = d.bytes ++ blank ((w.flash .s0).length - d.bytes.length)

/-- A hand-over rests on the verdict of the pre-check, keeps the file and leaves slot 0
invalidated. -/
theorem run_handover (hw : Reliable w) (ht : w.opened = []) (h : HandsOver P hwRev w) :
    let w' := (P.run (checkUpdatesOnFs P .slot0 hwRev) w).2
    (∃ buf, handoverAccepts P .mcuboot0 (w.files .mcuboot0) buf .s0 (w.flash .s0).length hwRev =
        true) ∧
      w'.files .mcuboot0 = w.files .mcuboot0 ∧ w'.flash .s0 = invalidated P (w.flash .s0) := by
  intro w'
  obtain ⟨w₁, hrun, hopened, hfiles, -, -⟩ : ∃ w₁,
      P.run (checkFileAndUpdate P .mcuboot1 .s1 hwRev true) w = _ ∧ _ :=
    run_checkFileAndUpdate P hw ht hwRev true
  have hw₁ : Reliable w₁ := by
    rw [← show _ = w₁ from congrArg Prod.snd hrun]
    exact hw.run P _
  have hfile : w₁.files .mcuboot0 = w.files .mcuboot0 := by
    rw [hfiles]
    exact discard_of_ne (by decide) w.files
  have hflash : w₁.flash .s0 = w.flash .s0 := by
    rw [← show _ = w₁ from congrArg Prod.snd hrun]
    have hissues : Issues (Op.mayInstall .mcuboot1 .s1)
        (checkFileAndUpdate P .mcuboot1 .s1 hwRev true) := within_checkFileAndUpdate P hwRev true
    exact hissues.run_eq (exec_answers P) (f := fun v : World => v.flash .s0)
      (fun _ v ho => exec_flash_ne_of_mayInstall P (by decide) ho v) w
  have hfinish : (otherSlotCall .slot0 w).finish P hwRev = w₁ := congrArg Prod.snd hrun
  unfold HandsOver at h
  rw [hfinish] at h
  obtain ⟨n, buf, hcheck⟩ : ∃ n buf, P.run (handoverCheck P .slot0 hwRev) w₁ =
      (handoverAccepts P .mcuboot0 (w₁.files .mcuboot0) w₁.sharedBuf .s0 (w₁.flash .s0).length hwRev,
        w₁.after n buf (settled (handoverAccepts P .mcuboot0 (w₁.files .mcuboot0) w₁.sharedBuf .s0
          (w₁.flash .s0).length hwRev) .mcuboot0 w₁.files)) :=
    run_checkUpdateForMcuboot P hw₁ hopened hwRev
  rw [hcheck] at h
  dsimp only at h
  rw [h] at hcheck
  obtain ⟨ok, m, hinv⟩ := run_imgInvalidate (P := P)
    (hw₁.after n buf (settled true .mcuboot0 w₁.files)) .s0
  have hboot : P.run (checkUpdatesOnFs P .slot0 hwRev) w =
      (true, (w₁.after m buf w₁.files).setFlash .s0 (invalidated P (w₁.flash .s0))) := by
    rw [checkUpdatesOnFs_eq]
    show P.run (checkFileAndUpdate P .mcuboot1 .s1 hwRev true >>= _) w = _
    rw [P.run_bind_of hrun, P.run_bind_of hcheck, if_pos rfl]
    show P.run (imgInvalidate P .s0 >>= _) _ = _
    rw [P.run_bind_of hinv, P.run_pure]
    rfl
  rw [← hfile, ← hflash, show w' = _ from congrArg Prod.snd hboot]
  exact ⟨⟨w₁.sharedBuf, h⟩, rfl, Function.update_self FaId.s0 _ w₁.flash⟩

/-- What the pre-check has accepted is installed by the next boot exactly if the shared
buffer then passes the first-stage check with the file over its start, and the versions
allow it. -/
theorem handover_installs_iff (laws : InvalidationLaws P) (v : ImageVersion) (hw : Reliable w)
    (ht : w.opened = []) (hwords : (w.flash .s0).length % 4 = 0)
    (hfile : w.files .mcuboot0 = some (.file d)) (hover : HandsOver (P.running v) hwRev w)
    (hw₂ : Reliable w₂) (ht₂ : w₂.opened = []) (hfile₂ : w₂.files .mcuboot0 = w.files .mcuboot0)
    (hflash₂ : w₂.flash .s0 =
      ((P.running v).run (checkUpdatesOnFs (P.running v) .slot0 hwRev) w).2.flash .s0)
    (hname : cString hwRev.hwRevName = cString hwRev₂.hwRevName) :
    InstallsHandedOver P hwRev₂ d w₂ ↔
      b0Verdict P (overlay w₂.sharedBuf 0 d.bytes) (P.faOff .s0) = true ∧
        VersionsAllow P .s0 d (w.flash .s0) := by
  obtain ⟨⟨buf, hpre⟩, -, hs0⟩ := run_handover hw ht hover
  have hs0 : w₂.flash .s0 = invalidated P (w.flash .s0) := hflash₂.trans hs0
  have hlen : (w₂.flash .s0).length = (w.flash .s0).length := by
    rw [hs0, invalidated_length laws]
  rw [hfile] at hpre
  obtain ⟨hb0, ⟨info, hinfo⟩, hrev⟩ := handoverAccepts_file hpre
  have hfits := b0Accepts_length hb0
  have hinfo : fwInfoOn P d = some info := hinfo
  -- the second boot looks for the same name in the same file
  have hrev₂ : hwRevMismatch hwRev₂ (validateOn P d (P.faOff .s0) (w₂.flash .s0).length).hwRev =
      false := by
    rw [hlen, ← hwRevMismatch_of_name hname, ← validateOn_running v]
    exact hrev
  have hb0₂ : b0Accepts P (some d) w₂.sharedBuf (P.faOff .s0) (w₂.flash .s0).length =
      b0Verdict P (overlay w₂.sharedBuf 0 d.bytes) (P.faOff .s0) := by
    have hload : b0Loads P (some d) (w.flash .s0).length = some d := by
      cases hload : b0Loads P (some d) (w.flash .s0).length with
      | none =>
        have hload' : b0Loads (P.running v) (some d) (w.flash .s0).length = none := hload
        rw [b0Accepts, hload'] at hb0
        exact absurd hb0 Bool.false_ne_true
      | some d' => rw [(b0Loads_some P hload).1]
    rw [b0Accepts, hlen, hload]
  have haccept := gatesAccept_file .mcuboot0 w₂.sharedBuf true hinfo hrev₂
  rw [fileAccepted_b0, hb0₂, hs0, versionsAllow_invalidated laws, ← hs0] at haccept
  obtain ⟨w', hrun, -, -, -, hinst⟩ : ∃ w',
      P.run (checkFileAndUpdate P .mcuboot0 .s0 hwRev₂ true) w₂ = _ ∧ _ :=
    run_checkFileAndUpdate P hw₂ ht₂ hwRev₂ true
  have hverdict : (P.run (updateGates P .mcuboot0 .s0 hwRev₂ true) w₂).1 =
      gatesAccept P .mcuboot0 (w₂.files .mcuboot0) w₂.sharedBuf .s0 (w₂.flash .s0) hwRev₂ true := by
    obtain ⟨n, buf₂, hgates⟩ := run_updateGates P hw₂ ht₂ hwRev₂ true
    exact congrArg Prod.fst hgates
  rw [hfile₂, hfile] at hverdict hrun hinst
  have hfinish : (otherSlotCall .slot1 w₂).finish P hwRev₂ = w' := congrArg Prod.snd hrun
  show _ ∧ ((otherSlotCall .slot1 w₂).finish P hwRev₂).flash .s0 = _ ↔ _
  rw [hfinish, ← haccept]
  constructor
  · exact fun h => hverdict.symm.trans h.1
  · intro hacc
    refine ⟨hverdict.trans hacc, (hinst hacc d rfl).whole ?_⟩
    rw [hlen]
    unfold padding
    split <;> omega

/-! ## A file of an older version -/

/-- The world in which the boot behind a reset starts. -/
def World.reboot (w : World) : World := World.atBoot w.files w.flash w.sharedBuf w.faults

theorem Reliable.reboot (hw : Reliable w) : Reliable w.reboot := fun n o => hw n o

namespace Reference

/-- A signed image for the slot at `addr` with protected revision records. -/
def slotBody (version addr : UInt8) : Bytes :=
  leBytes 4 IMAGE_MAGIC.toNat ++ leBytes 4 0 ++ leBytes 2 32 ++
    leBytes 2 (encodeProt (some [revId, revName])).length ++ leBytes 4 8 ++ List.replicate 16 0 ++
    [0xA5, version, addr, 1] ++ leBytes 4 0x20

def slotBytes (version addr : UInt8) : Bytes :=
  imageBytes (slotBody version addr) (some [revId, revName])
    (signedTlvs (slotBody version addr ++ encodeProt (some [revId, revName]))) []

/-- A slot of 160 bytes with this image. -/
def slotContent (version addr : UInt8) : Bytes :=
  slotBytes version addr ++ blank (160 - (slotBytes version addr).length)

def slotRev : HwRev := { hwRevNum := 5, hwRevName := [0x41, 0x42] ++ List.replicate 14 0 }

/-- A boot with an image of version 5 in both slots and a file for slot 0. -/
def bootForSlot0 (d : FileData) : World :=
  World.atBoot (fun f => if f = .mcuboot0 then some (.file d) else none)
    (fun fa => slotContent 5 (if fa = .s1 then 0x20 else 0x10)) (blank 160) (fun _ _ => .none)

def newerFile : FileData := { bytes := slotBytes 6 0x10, size_le := by decide +kernel }

def olderFile : FileData := { bytes := slotBytes 4 0x10, size_le := by decide +kernel }

theorem invalidate_length (b : Bytes) : (invalidate b).length = b.length := by
  unfold invalidate
  split
  · rfl
  · exact overlay_length _ _ _

theorem invalidationLaws (n : Nat) : InvalidationLaws (platform n) where
  length := invalidate_length
  version := version_kept
  header := fun h => absurd h Bool.false_ne_true

end Reference

open Reference in
/-- A file of a newer version is installed by the next boot. -/
theorem newerFile_handed_over :
    let P := platform 160
    let w := bootForSlot0 newerFile
    let w₂ := (P.run (checkUpdatesOnFs P .slot0 slotRev) w).2.reboot
    InstallsHandedOver P slotRev newerFile w₂ := by
  intro P w w₂
  have hallow : VersionsAllow P .s0 newerFile (w.flash .s0) :=
    ⟨⟨5, (fwInfoOn P newerFile).get (by decide +kernel), by decide +kernel,
      (Option.some_get _).symm, by decide +kernel⟩, fun h => absurd h (by decide)⟩
  have hw : Reliable w := fun _ _ => rfl
  have hover : HandsOver P slotRev w := by decide +kernel
  have hbuf : b0Verdict P (overlay (P.run (checkUpdatesOnFs P .slot0 slotRev) w).2.sharedBuf 0
      newerFile.bytes) (P.faOff .s0) = true := by decide +kernel
  have hkept := (run_handover hw rfl hover).2.1
  have hw₁ : Reliable (P.run (checkUpdatesOnFs P .slot0 slotRev) w).2 := hw.run P _
  have hsame : P.running P.mcubootS0S1ImageVersion = P := rfl
  have key : ∀ w₁ : World, w₁ = (P.run (checkUpdatesOnFs P .slot0 slotRev) w).2 → Reliable w₁ →
      w₁.files .mcuboot0 = w.files .mcuboot0 →
      b0Verdict P (overlay w₁.sharedBuf 0 newerFile.bytes) (P.faOff .s0) = true →
      InstallsHandedOver P slotRev newerFile w₁.reboot := by
    intro w₁ heq hw₁ hkept hbuf
    refine (handover_installs_iff (P := P) (w := w) (invalidationLaws 160)
      P.mcubootS0S1ImageVersion hw rfl (by decide +kernel) rfl (hsame.symm ▸ hover) hw₁.reboot rfl
      hkept ?_ rfl).mpr ⟨hbuf, hallow⟩
    rw [hsame, ← heq]
    rfl
  exact key _ rfl hw₁ hkept hbuf

open Reference in
/-- A file of an older version is handed over as well: slot 0 is invalidated, and the
next boot rejects the file and removes it. -/
theorem olderFile_handed_over :
    let P := platform 160
    let w := bootForSlot0 olderFile
    let w₂ := (P.run (checkUpdatesOnFs P .slot0 slotRev) w).2.reboot
    let r := P.run (checkFileAndUpdate P .mcuboot0 .s0 slotRev true) w₂
    HandsOver P slotRev w ∧ P.bootable .s0 (w.flash .s0) = true ∧
      P.bootable .s0 (w₂.flash .s0) = false ∧ r.1 = false ∧
        (r.2.files .mcuboot0).isNone = true ∧ ¬ InstallsHandedOver P slotRev olderFile w₂ := by
  intro P w w₂ r
  have hrejected : (P.run (updateGates P .mcuboot0 .s0 slotRev true) w₂).1 = false := by
    decide +kernel
  refine ⟨by decide +kernel, by decide +kernel, by decide +kernel, by decide +kernel,
    by decide +kernel, fun h => ?_⟩
  exact absurd (hrejected.symm.trans h.1) Bool.false_ne_true

end RuuviMcuboot
