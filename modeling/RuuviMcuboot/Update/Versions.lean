/-
The firmware information versions of a partition over its whole history.

A partition is written only behind the comparison of its version with the one found
in the file, and what the search finds in the file is what it finds in the partition
as soon as it finds anything there: the blocks arrive in order, no record lies across
two of them, and erased bytes are no record.
-/
import Mathlib.Order.Nat
import RuuviMcuboot.Effect.Along
import RuuviMcuboot.Effect.Rising
import RuuviMcuboot.Update.Calls
import RuuviMcuboot.Update.Contract
import RuuviMcuboot.Update.PartCopy
import RuuviMcuboot.Update.Footprints
import RuuviMcuboot.Update.Validated

namespace RuuviMcuboot

open Binary Effect

variable {P : Platform} {f : UpdateFile} {dst : FaId} {d : FileData} {w : World}

/-! ## Firmware information in memory -/

/-- The record at an offset of a memory. -/
def fwInfoInMemory (P : Platform) (b : Bytes) (offset : Nat) : Option FwInfo :=
  if offset + P.fwInfoSize ≤ b.length then
    let info := P.fwInfoDecode (slice b offset P.fwInfoSize)
    if info.magic = P.fwInfoMagic then some info else none
  else none

/-- What the updater relies on in the SDK functions on firmware information. -/
structure FwInfoLaws (P : Platform) : Prop where
  /-- `fw_info_allowed_offsets` is ascending. -/
  ascending : P.fwInfoAllowedOffsets.Pairwise (· < ·)
  /-- A record lies within one block of the copy. -/
  inBlock : ∀ off ∈ P.fwInfoAllowedOffsets, off % tmpBufSize + P.fwInfoSize ≤ tmpBufSize
  /-- `fw_info_find` tries the allowed offsets in their order. -/
  find : ∀ b, P.fwInfoFind b = P.fwInfoAllowedOffsets.findSome? (fwInfoInMemory P b)
  /-- Erased memory holds no record. -/
  erased : (P.fwInfoDecode (blank P.fwInfoSize)).magic ≠ P.fwInfoMagic
  /-- `fw_info_invalidate` changes neither magic nor version. -/
  invalidate : ∀ b, (P.fwInfoFind (P.fwInfoInvalidate b)).map (·.version) =
    (P.fwInfoFind b).map (·.version)

/-- The version found in a partition. -/
def fwInfoVersion (P : Platform) (b : Bytes) : Option UInt32 := (P.fwInfoFind b).map (·.version)

/-! ## A part of a file -/

/-- A record that ends inside the file is copied as a whole or not at all. -/
theorem blockEnd_behind (laws : FwInfoLaws P) {m off : Nat} (hm : BlockEnd d m)
    (hoff : off ∈ P.fwInfoAllowedOffsets) (hend : off + P.fwInfoSize ≤ d.bytes.length)
    (hfit : ¬ off + P.fwInfoSize ≤ m) : m ≤ off := by
  have hblock := laws.inBlock off hoff
  rcases hm.2 with hmod | hall
  · unfold tmpBufSize at hblock hmod
    omega
  · omega

/-- Behind the part that is copied nothing is found. -/
theorem fwInfoInMemory_behind (laws : FwInfoLaws P) {size m off : Nat} (hm : m ≤ d.bytes.length)
    (hsize : m ≤ size) (hoff : m ≤ off) : fwInfoInMemory P (partCopy d size m) off = none := by
  unfold fwInfoInMemory
  rw [partCopy_length hm hsize]
  by_cases hend : off + P.fwInfoSize ≤ size
  · rw [if_pos hend, slice_partCopy_blank hm hoff hend]
    exact if_neg laws.erased
  · exact if_neg hend

theorem fwInfoInMemory_partCopy (laws : FwInfoLaws P) {size m off : Nat} (hm : BlockEnd d m)
    (hsize : d.bytes.length ≤ size) (hoff : off ∈ P.fwInfoAllowedOffsets)
    (hend : off + P.fwInfoSize ≤ d.bytes.length) :
    fwInfoInMemory P (partCopy d size m) off =
      if off + P.fwInfoSize ≤ m then fwInfoAt P d off else none := by
  have hmax := d.size_le
  by_cases hfit : off + P.fwInfoSize ≤ m
  · rw [if_pos hfit]
    unfold fwInfoInMemory fwInfoAt
    rw [partCopy_length hm.1 (Nat.le_trans hm.1 hsize), if_pos (by omega)]
    dsimp only
    rw [slice_partCopy hm.1 hfit, if_pos (show off ≤ lfsFileMax by omega),
      if_neg (not_not.mpr (slice_length_of_le (Nat.le_trans hfit hm.1)))]
  · rw [if_neg hfit]
    exact fwInfoInMemory_behind laws hm.1 (Nat.le_trans hm.1 hsize)
      (blockEnd_behind laws hm hoff hend hfit)

/-- A record that is found in a file ends inside it. -/
theorem fwInfoAt_end (laws : FwInfoLaws P) {off : Nat} {info : FwInfo}
    (h : fwInfoAt P d off = some info) : off + P.fwInfoSize ≤ d.bytes.length := by
  unfold fwInfoAt at h
  by_cases hoff : off ≤ lfsFileMax
  · rw [if_pos hoff] at h
    dsimp only at h
    by_cases hlen : (slice d.bytes off P.fwInfoSize).length ≠ P.fwInfoSize
    · rw [if_pos hlen] at h
      exact absurd h (by simp)
    · rw [if_neg hlen] at h
      rcases Nat.eq_zero_or_pos P.fwInfoSize with hzero | hpos
      · -- no bytes are no record
        have hmagic := laws.erased
        rw [hzero] at h hmagic
        rw [slice_zero_len, show ([] : Bytes) = blank 0 from rfl, if_neg hmagic] at h
        exact absurd h (by simp)
      · rw [slice_length] at hlen
        omega
  · rw [if_neg hoff] at h
    exact absurd h (by simp)

/-- In a part of the file the search finds what it finds in the file, or nothing. -/
theorem fwInfoFind_partCopy (laws : FwInfoLaws P) {size m : Nat} (hm : BlockEnd d m)
    (hsize : d.bytes.length ≤ size) {info : FwInfo} (hinfo : fwInfoOn P d = some info) :
    P.fwInfoFind (partCopy d size m) = none ∨ P.fwInfoFind (partCopy d size m) = some info := by
  obtain ⟨pre, off, post, hlist, hat, hpre⟩ := List.findSome?_eq_some_iff.mp hinfo
  have hend := fwInfoAt_end laws hat
  have hasc := laws.ascending
  have hmem : ∀ x ∈ pre ++ off :: post, x ∈ P.fwInfoAllowedOffsets := fun x hx => hlist ▸ hx
  rw [hlist] at hasc
  obtain ⟨-, hpost, hbefore⟩ := List.pairwise_append.mp hasc
  have hnone : pre.findSome? (fwInfoInMemory P (partCopy d size m)) = none := by
    refine List.findSome?_eq_none_iff.mpr (fun x hx => ?_)
    have hlt := hbefore x hx off List.mem_cons_self
    rw [fwInfoInMemory_partCopy laws hm hsize (hmem x (List.mem_append_left _ hx)) (by omega),
      hpre x hx, ite_self]
  rw [laws.find, hlist, List.findSome?_append, hnone, Option.none_or, List.findSome?_cons,
    fwInfoInMemory_partCopy laws hm hsize
      (hmem off (List.mem_append_right _ List.mem_cons_self)) hend]
  by_cases hfit : off + P.fwInfoSize ≤ m
  · rw [if_pos hfit, hat]
    exact Or.inr rfl
  · rw [if_neg hfit]
    left
    refine List.findSome?_eq_none_iff.mpr (fun x hx => ?_)
    have hlt := (List.pairwise_cons.mp hpost).1 x hx
    have hbehind := blockEnd_behind laws hm
      (hmem off (List.mem_append_right _ List.mem_cons_self)) hend hfit
    exact fwInfoInMemory_behind laws hm.1 (Nat.le_trans hm.1 hsize) (by omega)

/-! ## The search in the file -/

/-- A read or a seek goes through undisturbed. -/
def ReadServed (o : Op) (w : World) : Prop :=
  match o with
  | .fsRead _ _ | .fsSeek _ _ _ => w.faults w.clock o = .none
  | _ => True

/-- `hd` is open at a position of a file with the contents `d`. -/
def StandsAt (hd : Handle) (d : FileData) (w : World) (pos : Nat) : Prop :=
  ∃ g t, w.opened = (hd, { name := g, data := d, pos := pos }) :: t

theorem StandsAt.exec {hd : Handle} {pos : Nat} {o : Op} (ho : o.reads hd) (hserved : ReadServed o w)
    (hw : StandsAt hd d w pos) :
    (P.exec o w).1 = (fileOps d o pos).1 ∧ StandsAt hd d (P.exec o w).2 (fileOps d o pos).2 := by
  obtain ⟨g, t, ht⟩ := hw
  have hl : lookupFile hd w.tick.opened = some { name := g, data := d, pos := pos } := by
    show lookupFile hd w.opened = _
    rw [ht, lookupFile_cons_self]
  have hmove : ∀ pos', StandsAt hd d (w.tick.setOpened (moveFile hd pos' w.opened)) pos' :=
    fun pos' => ⟨g, t, by rw [World.setOpened_opened, ht, moveFile_cons_self]⟩
  cases o with
  | fsSeek h off whence =>
    obtain rfl : h = hd := ho
    have hflt : w.faults w.clock (.fsSeek h off whence) = .none := hserved
    simp only [Platform.exec, fileOps, hflt, Fault.rc?, hl, target_eq]
    cases seekTarget d off whence with
    | none => exact ⟨rfl, g, t, ht⟩
    | some pos' => exact ⟨rfl, hmove pos'⟩
  | fsTell h =>
    obtain rfl : h = hd := ho
    simp only [Platform.exec, fileOps, hl]
    exact ⟨trivial, g, t, ht⟩
  | fsRead h len =>
    obtain rfl : h = hd := ho
    have hflt : w.faults w.clock (.fsRead h len) = .none := hserved
    simp only [Platform.exec, fileOps, hflt, Fault.rc?, Fault.limit, World.readFile, hl]
    exact ⟨trivial, hmove _⟩
  | _ => exact ho.elim

/-- A served search finds the first record of the file. -/
theorem fwInfoFindInFile_served {info : FwInfo}
    (hserved : Along (S := Api) P.exec ReadServed (fwInfoFindInFile P f) w)
    (hr : (P.run (fwInfoFindInFile P f) w).1 = some info) :
    ∃ d, regular (w.files f) = some d ∧ fwInfoOn P d = some info := by
  unfold fwInfoFindInFile at hserved hr
  rcases run_openFile_cases P w f with hopen | ⟨d, hd, hopen⟩
  · rw [P.run_bind_of hopen] at hr
    exact absurd hr (by simp)
  · rw [P.run_bind_of hopen, P.run_bind] at hr
    obtain ⟨-, hserved⟩ := (along_bind_of hopen).mp hserved
    obtain ⟨hserved, -⟩ := (along_bind _ _ _).mp hserved
    obtain ⟨hres, -⟩ := (within_fwInfoSearch P P.fwInfoAllowedOffsets).run_congr_along
      (exec_answers P) (g := fileOps d) (R := StandsAt (freshHandle w.opened) d)
      (fun o v pos ho hs hv => hv.exec ho hs) hserved
      (show StandsAt (freshHandle w.opened) d _ 0 from ⟨f, w.opened, rfl⟩)
    rw [fileOps_fwInfoSearch] at hres
    refine ⟨d, hd, ?_⟩
    unfold fwInfoOn
    rw [← hres]
    exact hr

/-! ## The comparison of the versions -/

/-- The search for firmware information that follows the check of the file meets no
failing read. -/
def SearchServed (P : Platform) (c : UpdateCall) : Prop :=
  let a := P.run (getFlashAreaAddressAndSize c.dst) c.start
  ∀ area, a.1 = some area → Along (S := Api) P.exec ReadServed (fwInfoFindInFile P c.file)
    (P.run (checkFile P c.file area.1 area.2 c.flagValidateB0Signature) a.2).2

theorem flash_of_inspects {α : Type} {p : Fw α} (hp : Issues Op.inspects p) {w w' : World}
    (hr : Reaches (S := Api) P.exec p w w') : w'.flash = w.flash :=
  hp.reaches_eq (exec_answers P) (fun _ v ho => exec_flash_of_inspects P ho v) hr

theorem flash_of_mayRemove {α : Type} {p : Fw α} (hp : Issues (Op.mayRemove f) p) {w w' : World}
    (hr : Reaches (S := Api) P.exec p w w') : w'.flash = w.flash :=
  hp.reaches_eq (exec_answers P) (fun _ v ho => exec_flash_of_mayRemove P ho v) hr

/-- A file that passes the checks holds a version that is not below the one found in
the destination. -/
theorem updateGates_versions {c : UpdateCall} (hserved : SearchServed P c) {hwRev : HwRev}
    {w' : World} (hrun : P.run (updateGates P c.file c.dst hwRev c.flagValidateB0Signature) c.start =
      (true, w')) :
    ∃ d info, w'.files c.file = some (.file d) ∧ fwInfoOn P d = some info ∧
      ∃ v, fwInfoVersion P (c.start.flash c.dst) = some v ∧ v ≤ info.version := by
  have hfiles : w'.files = c.start.files := by
    have hkeep : KeepsAccepted c.start.files c.file
        (P.run (updateGates P c.file c.dst hwRev c.flagValidateB0Signature) c.start).1
        (P.run (updateGates P c.file c.dst hwRev c.flagValidateB0Signature) c.start).2 :=
      (updateGates_keeps P c.start.files hwRev c.flagValidateB0Signature c.start rfl).2
    rw [hrun] at hkeep
    exact (hkeep rfl).1
  unfold SearchServed at hserved
  unfold updateGates at hrun
  rcases harea : P.run (getFlashAreaAddressAndSize c.dst) c.start with ⟨area, w₁⟩
  have hlook₁ := reaches_run (h := P.exec) (getFlashAreaAddressAndSize c.dst) c.start
  rw [P.run_bind_of harea] at hrun
  rw [harea] at hserved
  rw [show (Effect.run P.exec (getFlashAreaAddressAndSize c.dst) c.start).2 = w₁ from
    congrArg Prod.snd harea] at hlook₁
  cases area with
  | none => exact absurd (congrArg Prod.fst hrun) Bool.false_ne_true
  | some area =>
    obtain ⟨a, n⟩ := area
    have hserved := hserved (a, n) rfl
    dsimp only at hrun hserved
    rcases hcheck : P.run (checkFile P c.file a n c.flagValidateB0Signature) w₁ with ⟨out, w₂⟩
    rw [P.run_bind_of hcheck] at hrun
    rw [hcheck] at hserved
    by_cases hok : out.ok = false
    · rw [if_pos hok] at hrun
      exact absurd (congrArg Prod.fst hrun) Bool.false_ne_true
    · rw [if_neg hok] at hrun
      have hfiles₂ : w₂.files = c.start.files := by
        have hfiles₁ := (within_getFlashArea c.dst).reaches_eq (exec_answers P)
          (fun _ v ho => exec_files_of_inspects P ho v) hlook₁
        have hkeep := (checkFile_keeps P c.start.files a n c.flagValidateB0Signature
          (f := c.file) w₁ hfiles₁).2
        rw [show Effect.run P.exec (checkFile P c.file a n c.flagValidateB0Signature) w₁ =
          (out, w₂) from hcheck] at hkeep
        exact (hkeep (by simpa using hok)).1
      rcases hfind : P.run (fwInfoFindInFile P c.file) w₂ with ⟨found, w₃⟩
      rw [P.run_bind_of hfind] at hrun
      cases found with
      | none => exact absurd (congrArg Prod.fst hrun) Bool.false_ne_true
      | some info =>
        obtain ⟨d, hd, hinfo⟩ := fwInfoFindInFile_served hserved (congrArg Prod.fst hfind)
        have hflash₃ : w₃.flash = c.start.flash := by
          have h₃ := flash_of_inspects (within_looks (within_fwInfoFindInFile P (f := c.file)))
            (reaches_run (h := P.exec) (fwInfoFindInFile P c.file) w₂)
          have h₂ := flash_of_mayRemove (within_checkFile P a n c.flagValidateB0Signature)
            (reaches_run (h := P.exec) (checkFile P c.file a n c.flagValidateB0Signature) w₁)
          rw [show (Effect.run P.exec (fwInfoFindInFile P c.file) w₂).2 = w₃ from
            congrArg Prod.snd hfind] at h₃
          rw [show (Effect.run P.exec (checkFile P c.file a n c.flagValidateB0Signature) w₁).2 = w₂
            from congrArg Prod.snd hcheck] at h₂
          rw [h₃, h₂, flash_of_inspects (within_getFlashArea c.dst) hlook₁]
        dsimp only at hrun
        rw [P.run_bind, show (P.run (flashMapped c.dst) w₃).1 = c.start.flash c.dst from
          congrFun hflash₃ c.dst] at hrun
        unfold fwInfoVersion
        refine ⟨d, info, ?_, hinfo, ?_⟩
        · rw [hfiles, ← hfiles₂]
          exact regular_some hd
        · cases hdst : P.fwInfoFind (c.start.flash c.dst) with
          | none =>
            rw [hdst] at hrun
            exact absurd (congrArg Prod.fst hrun) Bool.false_ne_true
          | some dstInfo =>
            rw [hdst] at hrun
            dsimp only at hrun
            refine ⟨dstInfo.version, rfl, ?_⟩
            by_cases hmis : hwRevMismatch hwRev out.hwRev = true
            · rw [if_pos hmis] at hrun
              exact absurd (congrArg Prod.fst hrun) Bool.false_ne_true
            · rw [if_neg hmis] at hrun
              by_cases hver : dstInfo.version > info.version
              · rw [if_pos hver] at hrun
                exact absurd (congrArg Prod.fst hrun) Bool.false_ne_true
              · exact UInt32.not_lt.mp hver

/-! ## The copy -/

/-- The version in a partition, as a number. -/
def versionIn (P : Platform) (fa : FaId) (flash : FaId → Bytes) : Option Nat :=
  (fwInfoVersion P (flash fa)).map UInt32.toNat

variable {fa : FaId}

theorem versionIn_congr {flash flash' : FaId → Bytes} (h : flash' fa = flash fa) :
    versionIn P fa flash' = versionIn P fa flash := by
  unfold versionIn
  rw [h]

variable {J : CopyJob}

/-- What is found in a part of the file is its version, or nothing. -/
theorem PartCopied.version (laws : FwInfoLaws P) {info : FwInfo}
    (hinfo : fwInfoOn P J.d = some info) (hsize : J.d.bytes.length ≤ J.size)
    (hw : PartCopied J w) :
    versionIn P J.dst w.flash = none ∨ versionIn P J.dst w.flash = some info.version.toNat := by
  obtain ⟨m, hm, hcontent⟩ := hw
  unfold versionIn fwInfoVersion
  rw [hcontent]
  rcases fwInfoFind_partCopy laws hm hsize hinfo with h | h
  · left
    rw [h]
    rfl
  · right
    rw [h]
    rfl

/-- The erase and the blocks behind it. -/
theorem rises_eraseAndCopy (laws : FwInfoLaws P) (hatomic : AllOrNothing J.faults)
    {info : FwInfo} (hinfo : fwInfoOn P J.d = some info) (hsize : J.d.bytes.length ≤ J.size)
    {area : FlashArea} (harea : area.faId = J.dst) (hopened : w.opened = (J.hd, J.file 0) :: J.t)
    (hlen : (w.flash J.dst).length = J.size) (hfaults : w.faults = J.faults)
    (hver : NotBelow (versionIn P J.dst w.flash) (some info.version.toNat)) :
    Rises (S := Api) P.exec (fun w => versionIn P J.dst w.flash)
      (flashAreaErase area.faId 0 J.size >>= fun rc =>
        if rc ≠ 0 then pure false
        else imgProcessBlocks area J.hd cbImgWrite J.d.bytes.length) w := by
  have hopened' : (P.exec (.flashAreaErase J.dst 0 J.size) w).2.opened = w.opened := by
    simp only [Platform.exec]
    (repeat' split) <;> rfl
  have hfaults' : (P.exec (.flashAreaErase J.dst 0 J.size) w).2.faults = J.faults :=
    (exec_faults P _ w).trans hfaults
  have hcase := exec_erase_atomic (P := P) (w := w) (hfaults.symm ▸ hatomic) J.dst 0 J.size
  have hrest : ∀ r : Int × World, r.2.opened = w.opened → r.2.faults = J.faults →
      (r.2.flash J.dst = w.flash J.dst ∧ r.1 ≠ 0 ∨
        r.2.flash J.dst = overlay (w.flash J.dst) 0 (blank J.size)) →
      let rest : Fw Bool := if r.1 ≠ 0 then pure false
        else imgProcessBlocks area J.hd cbImgWrite J.d.bytes.length
      (∀ w', Reaches (S := Api) P.exec rest r.2 w' →
          NotBelow (versionIn P J.dst w.flash) (versionIn P J.dst w'.flash)) ∧
        Rises (S := Api) P.exec (fun w => versionIn P J.dst w.flash) rest r.2 := by
    intro r ho hf hcase rest
    rcases hcase with ⟨hsame, hrc⟩ | hblank
    · -- nothing was erased, and the copy ends
      have hconst : ∀ w', Reaches (S := Api) P.exec rest r.2 w' → w' = r.2 := by
        intro w' hr
        rw [show rest = Prog.ret false from if_pos hrc] at hr
        exact (reaches_ret false r.2 w').mp hr
      refine ⟨fun w' hr => ?_, (orderly_of_const fun w' hr => ?_).rises⟩
      · rw [hconst w' hr, versionIn_congr hsame]
        exact notBelow_self _
      · rw [hconst w' hr]
    · -- the partition is erased, and from here on it holds blocks of the file
      have hstart : CopyState J 0 0 r.2 := by
        refine ⟨ho.trans hopened, ?_, hf⟩
        rw [hblank, overlay_all (by rw [blank_length, hlen])]
        rfl
      have hpart : ∀ w', Reaches (S := Api) P.exec rest r.2 w' → PartCopied J w' := by
        intro w' hr
        by_cases hrc : r.1 ≠ 0
        · rw [show rest = Prog.ret false from if_pos hrc] at hr
          rw [(reaches_ret false r.2 w').mp hr]
          exact hstart.partCopied ⟨Nat.zero_le _, Or.inl rfl⟩
        · rw [show rest = imgProcessBlocks area J.hd cbImgWrite J.d.bytes.length from
            if_neg hrc] at hr
          exact (triple_blocks hatomic hsize harea r.2 hstart).1 w' hr
      refine ⟨fun w' hr => ?_, rises_of_single (fun w' hr => (hpart w' hr).version laws hinfo hsize)⟩
      rcases (hpart w' hr).version laws hinfo hsize with hnone | hsome
      · rw [hnone]
        exact notBelow_none _
      · rw [hsome]
        exact hver
  rw [harea]
  obtain ⟨hnext, hrises⟩ := hrest _ hopened' hfaults' hcase
  exact rises_call hnext hrises

/-- A part that only looks. -/
theorem version_inspects {α : Type} {p : Fw α} (hp : Issues Op.inspects p) {w : World} :
    ∀ w', Reaches (S := Api) P.exec p w w' → versionIn P fa w'.flash = versionIn P fa w.flash :=
  fun _ hr => versionIn_congr (congrFun (flash_of_inspects hp hr) fa)

theorem version_mayRemove {α : Type} {p : Fw α} (hp : Issues (Op.mayRemove f) p) {w : World} :
    ∀ w', Reaches (S := Api) P.exec p w w' → versionIn P fa w'.flash = versionIn P fa w.flash :=
  fun _ hr => versionIn_congr (congrFun (flash_of_mayRemove hp hr) fa)

theorem orderly_ret {α : Type} (a : α) (w : World) :
    Effect.Orderly (S := Api) P.exec (fun w => versionIn P fa w.flash) (Prog.ret a : Fw α) w := by
  refine orderly_of_const (fun w' hr => ?_)
  rw [(reaches_ret a w w').mp hr]

theorem rises_ret {α : Type} (a : α) (w : World) :
    Rises (S := Api) P.exec (fun w => versionIn P fa w.flash) (Prog.ret a : Fw α) w :=
  (orderly_ret a w).rises

/-- The copy of a file whose version is not below the one in the partition. -/
theorem rises_copy (laws : FwInfoLaws P) (hatomic : AllOrNothing J.faults) {info : FwInfo}
    (hinfo : fwInfoOn P J.d = some info) {pos : Nat}
    (hopened : w.opened = (J.hd, J.file pos) :: J.t) (hlen : (w.flash J.dst).length = J.size)
    (hfaults : w.faults = J.faults)
    (hver : NotBelow (versionIn P J.dst w.flash) (some info.version.toNat)) :
    Rises (S := Api) P.exec (fun w => versionIn P J.dst w.flash)
      (mcubootImgOpCopy J.dst J.hd) w := by
  have hseek : ∀ off whence, Issues Op.inspects (fsSeek J.hd off whence) :=
    fun off whence => within_looks (within_reads (f := J.f) (within_fsSeek off whence))
  have htell : Issues Op.inspects (fsTell J.hd) :=
    within_looks (within_reads (f := J.f) within_fsTell)
  show Rises (S := Api) P.exec _ (imgProcess J.dst J.hd true cbImgWrite) w
  unfold imgProcess
  rcases hopen : P.run (flashAreaOpen J.dst) w with ⟨r, w₁⟩
  refine rises_const_bind_of (version_inspects (issues_perform (.flashAreaOpen J.dst) True.intro))
    hopen ?_
  rw [run_flashAreaOpen] at hopen
  simp only [Platform.exec] at hopen
  cases hrc : (w.faults w.clock (.flashAreaOpen J.dst)).rc? with
  | some rc =>
    rw [hrc] at hopen
    cases hopen
    exact rises_ret false _
  | none =>
    rw [hrc] at hopen
    cases hopen
    dsimp only
    have hend := run_fsSeek_file P (w := w.tick) (show w.tick.opened = _ from hopened)
      (CopyJob.target_end pos)
    cases htoEnd : (w.tick.faults w.tick.clock (.fsSeek J.hd 0 .fromEnd)).rc? with
    | some rc =>
      rw [htoEnd] at hend
      refine rises_const_bind_of (version_inspects (hseek _ _)) hend ?_
      rw [if_pos (rc?_ne_zero htoEnd)]
      exact rises_ret false _
    | none =>
      rw [htoEnd] at hend
      refine rises_const_bind_of (version_inspects (hseek _ _)) hend ?_
      rw [if_neg (by decide)]
      refine rises_const_bind_of (version_inspects htell) (run_fsTell_head P rfl) ?_
      generalize hw' : (w.tick.tick.setOpened
        ((J.hd, J.file J.d.bytes.length) :: J.t)).tick = w'
      have hopened' : w'.opened = (J.hd, J.file J.d.bytes.length) :: J.t := by rw [← hw']; rfl
      have hflash' : w'.flash = w.flash := by rw [← hw']; rfl
      have hfaults' : w'.faults = J.faults := by rw [← hw']; exact hfaults
      have hstart := run_fsSeek_file P hopened' (CopyJob.target_start J.d.bytes.length)
      refine rises_const_bind_of (version_inspects (hseek _ _)) hstart ?_
      cases htoStart : (w'.faults w'.clock (.fsSeek J.hd 0 .set)).rc? with
      | some rc =>
        dsimp only
        rw [if_pos (rc?_ne_zero htoStart)]
        exact rises_ret false _
      | none =>
        dsimp only
        rw [if_neg (by decide), CopyJob.file, toSizeT_length, World.tick_flash, hlen]
        by_cases hsize : J.d.bytes.length > J.size
        · rw [if_pos hsize]
          exact rises_ret false _
        · rw [if_neg hsize, if_pos rfl]
          have harea : FlashArea.faId { faId := J.dst, faOff := P.faOff J.dst, faSize := J.size } =
              J.dst := rfl
          refine rises_eraseAndCopy (w := w'.tick.setOpened ((J.hd, J.file 0) :: J.t)) laws hatomic
            hinfo (Nat.le_of_not_lt hsize) harea rfl ?_ hfaults' ?_
          · show (w'.flash J.dst).length = J.size
            rw [hflash']
            exact hlen
          · show NotBelow (versionIn P J.dst w'.flash) _
            rw [hflash']
            exact hver

/-- The copy with the calls around it. -/
theorem rises_copyUpdate (laws : FwInfoLaws P) (hatomic : AllOrNothing w.faults)
    (hd : w.files f = some (.file d)) {info : FwInfo} (hinfo : fwInfoOn P d = some info)
    (hver : NotBelow (versionIn P dst w.flash) (some info.version.toNat)) :
    Rises (S := Api) P.exec (fun w => versionIn P dst w.flash) (copyUpdate f dst) w := by
  have hunlink : ∀ (b : Bool) (v : World), Rises (S := Api) P.exec
      (fun w => versionIn P dst w.flash) (btldrFsUnlinkFile f >>= fun _ => pure b) v :=
    fun b v => (orderly_of_const (version_mayRemove (within_unlinkReturn b))).rises
  unfold copyUpdate
  rcases run_openFile_cases P w f with hopen | ⟨d', hd', hopen⟩
  · exact rises_const_bind_of (version_inspects (within_looks (within_openFile (f := f)))) hopen
      (hunlink false _)
  · obtain rfl : d = d' := by
      rw [hd] at hd'
      exact Option.some.inj hd'
    refine rises_const_bind_of (version_inspects (within_looks (within_openFile (f := f)))) hopen ?_
    refine rises_bind_const (rises_copy laws (J := copyJob f dst d w) hatomic hinfo rfl rfl rfl hver)
      (fun ok v w' hr => ?_)
    refine version_mayRemove (f := f) ?_ w' hr
    exact within_bind (within_inspects (within_looks (within_fsClose (f := f))))
      (fun _ => within_unlinkReturn true)

/-- A call of `check_file_and_update` lets no version fall and brings none back. -/
theorem orderly_checkFileAndUpdate (laws : FwInfoLaws P) {c : UpdateCall}
    (hatomic : AllOrNothing c.start.faults) (hserved : SearchServed P c) (hwRev : HwRev)
    (fa : FaId) :
    Effect.Orderly (S := Api) P.exec (fun w => versionIn P fa w.flash)
      (checkFileAndUpdate P c.file c.dst hwRev c.flagValidateB0Signature) c.start := by
  by_cases hfa : fa = c.dst
  · subst hfa
    have hgates : ∀ w', Reaches (S := Api) P.exec
        (updateGates P c.file c.dst hwRev c.flagValidateB0Signature) c.start w' →
        versionIn P c.dst w'.flash = versionIn P c.dst c.start.flash :=
      version_mayRemove (within_updateGates P hwRev c.flagValidateB0Signature)
    have hkeep := hgates _ (reaches_run _ _)
    rcases hrun : P.run (updateGates P c.file c.dst hwRev c.flagValidateB0Signature) c.start with
      ⟨ok, w'⟩
    rw [show (Effect.run P.exec (updateGates P c.file c.dst hwRev c.flagValidateB0Signature)
      c.start).2 = w' from congrArg Prod.snd hrun] at hkeep
    refine orderly_bind_of (orderly_of_const hgates) hrun ?_
    cases ok with
    | false => exact orderly_ret false w'
    | true =>
      obtain ⟨d, info, hd, hinfo, v, hv, hle⟩ := updateGates_versions hserved hrun
      have hstart : versionIn P c.dst w'.flash = some v.toNat := by
        rw [hkeep, versionIn, hv]
        rfl
      have hfaults : w'.faults = c.start.faults := by
        rw [show w' = _ from (congrArg Prod.snd hrun).symm]
        exact run_faults P _ _
      refine ⟨rises_copyUpdate laws (hfaults.symm ▸ hatomic) hd hinfo ?_, fun hnone => ?_⟩
      · rw [hstart]
        intro x y hx hy
        rw [← Option.some.inj hx, ← Option.some.inj hy]
        exact UInt32.le_iff_toNat_le.mp hle
      · exact absurd (hstart.symm.trans hnone) (by simp)
  · refine orderly_of_const (fun w' hr => versionIn_congr ?_)
    exact (within_checkFileAndUpdate P hwRev c.flagValidateB0Signature).reaches_eq (exec_answers P)
      (f := fun v : World => v.flash fa) (fun _ v ho => exec_flash_ne_of_mayInstall P hfa ho v) hr

/-! ## The laws on the reference platform -/

namespace Reference

theorem fwInfoInMemory_eq (n : Nat) (b : Bytes) (off : Nat) :
    fwInfoInMemory (platform n) b off =
      if hasInfo b off then some (decodeInfo (slice b off infoSize)) else none := by
  have hmagic : (decodeInfo (slice b off infoSize)).magic = slice b off 1 := by
    show ((b.drop off).take 4).take 1 = (b.drop off).take 1
    rw [List.take_take]
    rfl
  have hiff : hasInfo b off = true ↔ off + infoSize ≤ b.length ∧ slice b off 1 = infoMagic := by
    unfold hasInfo
    simp
  unfold fwInfoInMemory
  show (if off + infoSize ≤ b.length then
    if (decodeInfo (slice b off infoSize)).magic = infoMagic then _ else _ else _) = _
  rw [hmagic]
  by_cases hend : off + infoSize ≤ b.length
  · by_cases hm : slice b off 1 = infoMagic
    · rw [if_pos hend, if_pos hm, if_pos (hiff.mpr ⟨hend, hm⟩)]
      rfl
    · rw [if_pos hend, if_neg hm, if_neg (fun h => hm (hiff.mp h).2)]
  · rw [if_neg hend, if_neg (fun h => hend (hiff.mp h).1)]

/-- The validity byte is behind the bytes that mark a record and carry its version. -/
theorem hasInfo_invalidated {b : Bytes} {off o : Nat} (ho : off + infoSize ≤ b.length) (h : o ≤ off) :
    hasInfo (overlay b (off + 3) [0]) o = hasInfo b o := by
  have hend : off + 4 ≤ b.length := ho
  unfold hasInfo
  rw [overlay_length, slice_overlay_before (by omega) (by omega)]

theorem version_invalidated {b : Bytes} {off : Nat} (ho : off + infoSize ≤ b.length) :
    (decodeInfo (slice (overlay b (off + 3) [0]) off infoSize)).version =
      (decodeInfo (slice b off infoSize)).version := by
  have hend : off + 4 ≤ b.length := ho
  have hbyte : ∀ c : Bytes, (slice c off infoSize).getD 1 0 = (slice c off 2).getD 1 0 := by
    intro c
    simp [slice, infoSize, List.getD_eq_getElem?_getD]
  show UInt32.ofNat ((slice (overlay b (off + 3) [0]) off infoSize).getD 1 0).toNat =
    UInt32.ofNat ((slice b off infoSize).getD 1 0).toNat
  rw [hbyte, hbyte, slice_overlay_before (by omega) (by omega)]

theorem hasInfo_end {b : Bytes} {off : Nat} (h : hasInfo b off = true) :
    off + infoSize ≤ b.length := by
  unfold hasInfo at h
  exact of_decide_eq_true (Bool.and_eq_true_iff.mp h).1

theorem infoOffset_invalidated (b : Bytes) : infoOffset (invalidate b) = infoOffset b := by
  unfold invalidate
  by_cases h0 : hasInfo b 0 = true
  · have hoff : infoOffset b = some 0 := if_pos h0
    rw [hoff]
    have hkeep := hasInfo_invalidated (hasInfo_end h0) (Nat.le_refl 0)
    exact if_pos (hkeep.trans h0)
  · by_cases h32 : hasInfo b imageHeaderSize = true
    · have hoff : infoOffset b = some imageHeaderSize := (if_neg h0).trans (if_pos h32)
      rw [hoff]
      have hkeep : ∀ o ≤ imageHeaderSize, _ := fun o =>
        hasInfo_invalidated (b := b) (o := o) (hasInfo_end h32)
      refine (if_neg ?_).trans (if_pos ?_)
      · rw [hkeep 0 (Nat.zero_le _)]
        exact h0
      · rw [hkeep _ (Nat.le_refl _)]
        exact h32
    · have hoff : infoOffset b = none := (if_neg h0).trans (if_neg h32)
      rw [hoff]
      exact hoff

theorem infoOffset_end {b : Bytes} {off : Nat} (h : infoOffset b = some off) :
    off + infoSize ≤ b.length := by
  unfold infoOffset at h
  by_cases h0 : hasInfo b 0 = true
  · rw [if_pos h0] at h
    rw [← Option.some.inj h]
    exact hasInfo_end h0
  · rw [if_neg h0] at h
    by_cases h32 : hasInfo b imageHeaderSize = true
    · rw [if_pos h32] at h
      rw [← Option.some.inj h]
      exact hasInfo_end h32
    · rw [if_neg h32] at h
      exact absurd h (by simp)

theorem version_kept (b : Bytes) :
    (findInfo (invalidate b)).map (·.version) = (findInfo b).map (·.version) := by
  unfold findInfo
  rw [infoOffset_invalidated]
  cases hoff : infoOffset b with
  | none => rfl
  | some off =>
    have hinv : invalidate b = overlay b (off + 3) [0] := by
      unfold invalidate
      rw [hoff]
    rw [hinv]
    exact congrArg some (version_invalidated (infoOffset_end hoff))

theorem fwInfoLaws (n : Nat) : FwInfoLaws (platform n) where
  ascending := show [0, imageHeaderSize].Pairwise (· < ·) by decide
  inBlock := show ∀ off ∈ [0, imageHeaderSize], off % tmpBufSize + infoSize ≤ tmpBufSize by decide
  find := by
    intro b
    show findInfo b = [0, imageHeaderSize].findSome? _
    simp only [List.findSome?_cons, List.findSome?_nil, fwInfoInMemory_eq]
    unfold findInfo infoOffset
    by_cases h0 : hasInfo b 0 = true
    · rw [if_pos h0, if_pos h0]
      rfl
    · rw [if_neg h0, if_neg h0]
      by_cases h32 : hasInfo b imageHeaderSize = true
      · rw [if_pos h32, if_pos h32]
        rfl
      · rw [if_neg h32, if_neg h32]
        rfl
  erased := by
    show (decodeInfo (blank infoSize)).magic ≠ infoMagic
    decide
  invalidate := version_kept

end Reference
end RuuviMcuboot
