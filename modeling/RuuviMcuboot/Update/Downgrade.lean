/-
The image version gate.

Versions are ordered field by field.  The gate compares the file's version with
itself where the version of the destination should stand, so the only comparison
that counts is the one with the running image, and that one is made for the two
MCUboot slots only.
-/
import RuuviMcuboot.Update.Install

namespace RuuviMcuboot

open Binary Effect

variable (P : Platform) {w : World} {dst : FaId}

/-! ## The order of versions -/

/-- The fields that count, the most significant one first. -/
def versionKey (v : ImageVersion) : List Nat :=
  [v.ivMajor.toNat, v.ivMinor.toNat, v.ivRevision.toNat] ++
    if P.versionCmpUseBuildNumber then [v.ivBuildNum.toNat] else []

/-- The lexicographic order. -/
def Older (v₁ v₂ : ImageVersion) : Prop := versionKey P v₁ < versionKey P v₂

instance (v₁ v₂ : ImageVersion) : Decidable (Older P v₁ v₂) :=
  inferInstanceAs (Decidable (_ < _))

/-- One field of the comparison in front of the others. -/
theorem fieldCmp_neg_iff {greater less : Prop} [Decidable greater] [Decidable less] {x y : Nat}
    {rest : Int} {l₁ l₂ : List Nat} (hgreater : greater ↔ y < x) (hless : less ↔ x < y)
    (hrest : rest < 0 ↔ l₁ < l₂) :
    (if greater then (1 : Int) else if less then -1 else rest) < 0 ↔ x :: l₁ < y :: l₂ := by
  rw [List.cons_lt_cons_iff]
  by_cases hg : greater
  · rw [if_pos hg]
    have := hgreater.mp hg
    omega
  · rw [if_neg hg]
    have hng : ¬ y < x := fun h => hg (hgreater.mpr h)
    by_cases hl : less
    · rw [if_pos hl]
      have := hless.mp hl
      omega
    · rw [if_neg hl, hrest]
      have hnl : ¬ x < y := fun h => hl (hless.mpr h)
      have heq : x = y := by omega
      constructor
      · intro h
        exact Or.inr ⟨heq, h⟩
      · intro h
        rcases h with h | h
        · exact absurd h hnl
        · exact h.2

theorem bootVersionCmp_neg_iff (v₁ v₂ : ImageVersion) :
    bootVersionCmp P v₁ v₂ < 0 ↔ Older P v₁ v₂ := by
  unfold bootVersionCmp Older versionKey
  refine fieldCmp_neg_iff UInt8.lt_iff_toNat_lt UInt8.lt_iff_toNat_lt ?_
  refine fieldCmp_neg_iff UInt8.lt_iff_toNat_lt UInt8.lt_iff_toNat_lt ?_
  refine fieldCmp_neg_iff UInt16.lt_iff_toNat_lt UInt16.lt_iff_toNat_lt ?_
  by_cases hbuild : P.versionCmpUseBuildNumber = true
  · rw [if_pos hbuild, if_pos hbuild, if_pos hbuild]
    refine fieldCmp_neg_iff UInt32.lt_iff_toNat_lt UInt32.lt_iff_toNat_lt ?_
    exact ⟨fun h => absurd h (Int.lt_irrefl 0), fun h => absurd h (List.not_lt_nil _)⟩
  · rw [if_neg hbuild, if_neg hbuild, if_neg hbuild]
    exact ⟨fun h => absurd h (Int.lt_irrefl 0), fun h => absurd h (List.not_lt_nil _)⟩

theorem bootVersionCmp_self (v : ImageVersion) : bootVersionCmp P v v = 0 := by
  have h8 : ∀ x : UInt8, ¬ x < x := fun x => UInt8.lt_irrefl x
  have h16 : ∀ x : UInt16, ¬ x < x := fun x => UInt16.lt_irrefl x
  have h32 : ∀ x : UInt32, ¬ x < x := fun x => UInt32.lt_irrefl x
  simp only [bootVersionCmp, gt_iff_lt, h8, h16, h32, if_false, ite_self]

/-! ## The gate -/

/-- The destination is one of the slots of the running bootloader. -/
def IsMcubootSlot (dst : FaId) : Prop := dst = .s0 ∨ dst = .s1

instance (dst : FaId) : Decidable (IsMcubootSlot dst) := inferInstanceAs (Decidable (_ ∨ _))

/-- What the gate demands: only the running image counts, and only for the
MCUboot slots. -/
theorem downgradeAllowed_iff (hdr : ImageHeader) :
    downgradeAllowed P dst hdr = true ↔
      ¬ (IsMcubootSlot dst ∧ Older P hdr.ihVer P.mcubootS0S1ImageVersion) := by
  rw [← bootVersionCmp_neg_iff, downgradeAllowed, bootVersionCmp_self, decide_eq_true_iff]
  dsimp only
  by_cases hslot : IsMcubootSlot dst
  · rw [if_pos ⟨Int.le_refl 0, hslot⟩]
    by_cases hneg : bootVersionCmp P hdr.ihVer P.mcubootS0S1ImageVersion < 0
    · rw [if_pos hneg]
      exact ⟨fun h => absurd hneg h, fun h => absurd ⟨hslot, hneg⟩ h⟩
    · rw [if_neg hneg]
      exact ⟨fun _ h => hneg h.2, fun _ => Int.lt_irrefl 0⟩
  · rw [if_neg (fun h => hslot h.2)]
    exact ⟨fun _ h => hslot h.1, fun _ => Int.lt_irrefl 0⟩

/-- The specification of the gate: the destination's header loads, and the file's
version is not lower than the destination's nor, for a slot, than that of the
running bootloader. -/
def NoDowngrade (dst : FaId) (loaded : Option ImageHeader) (fileHdr : ImageHeader) : Prop :=
  ∃ dstHdr, loaded = some dstHdr ∧ ¬ Older P fileHdr.ihVer dstHdr.ihVer ∧
    (IsMcubootSlot dst → ¬ Older P fileHdr.ihVer P.mcubootS0S1ImageVersion)

/-- The file is not older than the image in the destination, or older than the
running bootloader as well and bound for one of its slots. -/
def ComparisonIdle (dst : FaId) (loaded : Option ImageHeader) (fileHdr : ImageHeader) : Prop :=
  ∀ dstHdr, loaded = some dstHdr → Older P fileHdr.ihVer dstHdr.ihVer →
    IsMcubootSlot dst ∧ Older P fileHdr.ihVer P.mcubootS0S1ImageVersion

theorem run_checkDowngrade (hdr : ImageHeader) :
    (P.run (checkDowngradePrevention P dst hdr) w).1 =
      ((P.run (loadImageHeader P dst) w).1.isSome && downgradeAllowed P dst hdr) := by
  show (P.run (loadImageHeader P dst >>= _) w).1 = _
  rw [P.run_bind]
  cases (P.run (loadImageHeader P dst) w).1 with
  | none => rfl
  | some dstHdr => rfl

theorem noDowngrade_iff (loaded : Option ImageHeader) (hdr : ImageHeader) :
    ((loaded.isSome && downgradeAllowed P dst hdr) = true ↔ NoDowngrade P dst loaded hdr) ↔
      ComparisonIdle P dst loaded hdr := by
  rw [Bool.and_eq_true, downgradeAllowed_iff]
  cases loaded with
  | none =>
    constructor
    · exact fun _ dstHdr h => absurd h (by simp)
    · exact fun _ => ⟨fun h => absurd h.1 (by simp), fun ⟨_, h, _⟩ => absurd h (by simp)⟩
  | some dstHdr =>
    constructor
    · intro hspec dstHdr' heq holder
      obtain rfl := Option.some.inj heq
      by_contra hno
      obtain ⟨_, heq', hnot, -⟩ := hspec.mp ⟨rfl, hno⟩
      obtain rfl := Option.some.inj heq'
      exact hnot holder
    · intro hidle
      constructor
      · intro h
        exact ⟨dstHdr, rfl, fun holder => h.2 (hidle dstHdr rfl holder),
          fun hslot holder => h.2 ⟨hslot, holder⟩⟩
      · rintro ⟨_, _, _, hslot⟩
        exact ⟨rfl, fun h => hslot h.1 h.2⟩

/-- An accepted installation passed the gate. -/
theorem gatesAccept_downgrade {f : UpdateFile} {entry : Option DirEntry} {buf content : Bytes}
    {hwRev : HwRev} {flag : Bool} (hprev : P.downgradePrevention = true)
    (h : gatesAccept P f entry buf dst content hwRev flag = true) :
    (partitionHeader P content).isSome = true ∧
      downgradeAllowed P dst (fileCheck P f entry (P.faOff dst) content.length).hdr = true := by
  unfold gatesAccept at h
  dsimp only at h
  rw [Bool.and_eq_true] at h
  cases hinfo : fileFwInfo P f entry with
  | none =>
    rw [hinfo] at h
    exact absurd h.2 Bool.false_ne_true
  | some info =>
    rw [hinfo] at h
    dsimp only at h
    rw [Bool.and_eq_true] at h
    have hdst := h.2.2
    unfold dstAccepts at hdst
    cases hfind : P.fwInfoFind content with
    | none =>
      rw [hfind] at hdst
      exact absurd hdst Bool.false_ne_true
    | some dstFwInfo =>
      rw [hfind, hprev] at hdst
      simpa using And.right (by simpa using hdst)

/-- The gate does what it is for exactly when the comparison with the destination
would not have mattered; and an installation puts an older image in the place of a
newer one exactly when it would have. -/
theorem downgradePrevention_iff (dst : FaId) (hdr : ImageHeader) (w : World) :
    let loaded := (P.run (loadImageHeader P dst) w).1
    (((P.run (checkDowngradePrevention P dst hdr) w).1 = true ↔ NoDowngrade P dst loaded hdr) ↔
        ComparisonIdle P dst loaded hdr) ∧
      ∀ f hwRev flag, P.downgradePrevention = true → Reliable w → w.opened = [] →
        (P.run (checkFileAndUpdate P f dst hwRev flag) w).1 = true →
        let fileHdr := (fileCheck P f (w.files f) (P.faOff dst) (w.flash dst).length).hdr
        ((∀ dstHdr, loaded = some dstHdr → ¬ Older P fileHdr.ihVer dstHdr.ihVer) ↔
          ComparisonIdle P dst loaded fileHdr) := by
  intro loaded
  constructor
  · rw [run_checkDowngrade]
    exact noDowngrade_iff P loaded hdr
  · intro f hwRev flag hprev hw ht hr fileHdr
    obtain ⟨w', hrun, -⟩ : ∃ w', P.run (checkFileAndUpdate P f dst hwRev flag) w = _ ∧ _ :=
      run_checkFileAndUpdate P hw ht hwRev flag
    rw [hrun] at hr
    obtain ⟨-, hallowed⟩ := gatesAccept_downgrade P hprev hr
    have hrunning := (downgradeAllowed_iff P fileHdr).mp hallowed
    constructor
    · intro hnew dstHdr hload holder
      exact absurd holder (hnew dstHdr hload)
    · intro hidle dstHdr hload holder
      exact hrunning (hidle dstHdr hload holder)

/-! ## An older image over a newer one -/

namespace Reference

/-- The platform built with the version gate. -/
def guardedPlatform : Platform := { platform 8 with downgradePrevention := true }

/-- A partition of 160 bytes that holds an image of version 2.0.0. -/
def newerImage : Bytes := overlay (imageBody 0 0x1000) 20 [2] ++ blank 120

/-- A boot with one update file, over the newer image. -/
def bootOverNewer (d : FileData) : World :=
  World.atBoot (fun _ => some (.file d)) (fun _ => newerImage) [] (fun _ _ => .none)

end Reference

/-- On an accepted file of version 0.0.0 over an image of version 2.0.0 both
sides of the equivalence can be read off. -/
theorem newerImage_replaced_iff :
    let P := Reference.guardedPlatform
    let w := Reference.bootOverNewer Reference.signedFile
    let loaded := (P.run (loadImageHeader P .mcubootPrimary) w).1
    let fileHdr := (fileCheck P .app (w.files .app) (P.faOff .mcubootPrimary)
      (w.flash .mcubootPrimary).length).hdr
    (∀ dstHdr, loaded = some dstHdr → ¬ Older P fileHdr.ihVer dstHdr.ihVer) ↔
      ComparisonIdle P .mcubootPrimary loaded fileHdr :=
  (downgradePrevention_iff Reference.guardedPlatform .mcubootPrimary ImageHeader.zero
    (Reference.bootOverNewer Reference.signedFile)).2 .app HwRev.zero false rfl (fun _ _ => rfl)
    rfl (by decide +kernel)

theorem newerImage_loaded :
    let P := Reference.guardedPlatform
    let w := Reference.bootOverNewer Reference.signedFile
    (P.run (loadImageHeader P .mcubootPrimary) w).1 =
        some (ImageHeader.decode Reference.newerImage) ∧
      Older P (fileHeader Reference.signedFile).ihVer
        (ImageHeader.decode Reference.newerImage).ihVer := by
  decide +kernel

/-- The gate lets the older image through, and it is installed. -/
theorem older_image_installed :
    let P := Reference.guardedPlatform
    let w := Reference.bootOverNewer Reference.signedFile
    let hdr := fileHeader Reference.signedFile
    let r := P.run (checkFileAndUpdate P .app .mcubootPrimary HwRev.zero false) w
    ((P.run (checkDowngradePrevention P .mcubootPrimary hdr) w).1 = true ∧
        ¬ NoDowngrade P .mcubootPrimary (P.run (loadImageHeader P .mcubootPrimary) w).1 hdr) ∧
      r.1 = true ∧ (r.2.flash .mcubootPrimary).take Reference.signedFile.bytes.length =
        Reference.signedFile.bytes := by
  refine ⟨⟨by decide +kernel, ?_⟩, by decide +kernel⟩
  rintro ⟨dstHdr, hload, hnot, -⟩
  obtain ⟨hloaded, holder⟩ := newerImage_loaded
  have hsame := Option.some.inj (hloaded.symm.trans hload)
  rw [← hsame] at hnot
  exact hnot holder

end RuuviMcuboot
