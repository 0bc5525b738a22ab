/-
The gate on the hardware revision.

Both searches for revision records are made by functions that drop their verdict
and hand on whatever record they filled in.  The running image without a name lets
every file pass, and a name is compared without a look at the verdict on the file.
-/
import Mathlib.Data.List.Nodup
import RuuviMcuboot.McubootHook
import RuuviMcuboot.Revision.Search
import RuuviMcuboot.Update.Calls
import RuuviMcuboot.Update.Footprints
import RuuviMcuboot.Update.Install
import RuuviMcuboot.Revision.Found

namespace RuuviMcuboot

open Binary Effect

variable {P : Platform} {f : UpdateFile} {dst : FaId} {w : World}

/-! ## The search in the file -/

/-- `validate_file` up to the search for the records: the header it leaves where it
returns before, or the open file. -/
def validateFileToSearch (f : UpdateFile) (dstFaAddr : UInt32) (dstFaSize : Nat) :
    Fw (ImageHeader ⊕ (Handle × ImageHeader)) := do
  if (← btldrFsIsFileExist f) = false then
    return .inl ImageHeader.zero
  else
    match ← openFileAndLoadImageHeader f with
    | none => return .inl ImageHeader.zero
    | some (hd, hdr, imgSize) =>
      if imgSize.toNat ≥ dstFaSize then
        fsClose hd
        return .inl ImageHeader.zero
      else
        let rc ← fsSeek hd ((hdr.ihHdrSize.toNat : Int) + 4) .set
        if rc ≠ 0 then
          fsClose hd
          return .inl hdr
        else
          match ← fsRead hd 4 with
          | .error _ =>
            fsClose hd
            return .inl hdr
          | .ok b =>
            if b.length ≠ 4 then
              fsClose hd
              return .inl hdr
            else if ¬ (le32 b 0 ≥ dstFaAddr ∧
                le32 b 0 < dstFaAddr + UInt32.ofNat dstFaSize) then
              fsClose hd
              return .inl hdr
            else
              return .inr (hd, hdr)

/-- `validate_file` from the search on. -/
def validateFileFromSearch (P : Platform) (dstFaSize : Nat) :
    ImageHeader ⊕ (Handle × ImageHeader) → Fw FileCheck
  | .inl hdr => return { FileCheck.failed with hdr := hdr }
  | .inr (hd, hdr) => do
    let (_, hwRev) ← fwImgHwRevFindInFile P hd HwRev.zero
    let out : FileCheck := { FileCheck.failed with hdr := hdr, hwRev := hwRev }
    let res ← fileImgValidate P hd hdr dstFaSize hookTmpBufSz none
    if res ≠ .success then
      fsClose hd
      return out
    else
      fsClose hd
      return { out with ok := true }

theorem validateFile_eq (dstFaAddr : UInt32) (dstFaSize : Nat) :
    validateFile P f dstFaAddr dstFaSize =
      validateFileToSearch f dstFaAddr dstFaSize >>= validateFileFromSearch P dstFaSize := by
  unfold validateFile validateFileToSearch
  rw [Prog.bind_assoc]
  refine congrArg _ (funext fun e => ?_)
  split
  · rfl
  · rw [Prog.bind_assoc]
    refine congrArg _ (funext fun r => ?_)
    match r with
    | none => rfl
    | some (hd, hdr, imgSize) =>
      dsimp only
      split
      · rfl
      · rw [Prog.bind_assoc]
        refine congrArg _ (funext fun rc => ?_)
        split
        · rfl
        · rw [Prog.bind_assoc]
          refine congrArg _ (funext fun b => ?_)
          match b with
          | .error _ => rfl
          | .ok b =>
            dsimp only
            split
            · rfl
            · split
              · rfl
              · rfl

/-- The result of the search in a run of `validate_file`, if it comes to one. -/
def validateFileSearch (P : Platform) (f : UpdateFile) (dstFaAddr : UInt32) (dstFaSize : Nat)
    (w : World) : Bool × HwRev :=
  let r := P.run (validateFileToSearch f dstFaAddr dstFaSize) w
  match r.1 with
  | .inl _ => (false, HwRev.zero)
  | .inr (hd, _) => (P.run (fwImgHwRevFindInFile P hd HwRev.zero) r.2).1

theorem validateFile_hwRev (dstFaAddr : UInt32) (dstFaSize : Nat) (w : World) :
    (P.run (validateFile P f dstFaAddr dstFaSize) w).1.hwRev =
      (validateFileSearch P f dstFaAddr dstFaSize w).2 := by
  unfold validateFileSearch
  rw [validateFile_eq, P.run_bind]
  obtain ⟨o, w'⟩ := P.run (validateFileToSearch f dstFaAddr dstFaSize) w
  cases o with
  | inl hdr => rfl
  | inr o =>
    dsimp only [validateFileFromSearch]
    rw [P.run_bind, P.run_bind]
    split <;> rfl

/-- The result of the search in a run of `check_file`. -/
def checkFileSearch (P : Platform) (f : UpdateFile) (dstFaAddr : UInt32) (dstFaSize : Nat)
    (flagValidateB0Signature : Bool) (w : World) : Bool × HwRev :=
  let w₁ := (P.run (btldrFsIsFileExist f) w).2
  let w₂ := if flagValidateB0Signature then
    (P.run (validateB0Signature P f dstFaAddr dstFaSize) w₁).2 else w₁
  validateFileSearch P f dstFaAddr dstFaSize w₂

theorem checkFile_hwRev (dstFaAddr : UInt32) (dstFaSize : Nat) (flagValidateB0Signature : Bool)
    (w : World) :
    let out := (P.run (checkFile P f dstFaAddr dstFaSize flagValidateB0Signature) w).1
    out.ok = true →
      out.hwRev = (checkFileSearch P f dstFaAddr dstFaSize flagValidateB0Signature w).2 := by
  have htrue : ¬ true = false := by decide
  unfold checkFile checkFileSearch
  rw [P.run_bind]
  cases (P.run (btldrFsIsFileExist f) w).1 with
  | false => exact fun hok => absurd hok Bool.false_ne_true
  | true =>
    generalize (P.run (btldrFsIsFileExist f) w).2 = w₁
    rw [if_neg htrue]
    cases flagValidateB0Signature with
    | true =>
      rw [if_pos rfl, P.run_bind]
      cases (P.run (validateB0Signature P f dstFaAddr dstFaSize) w₁).1 with
      | false => exact fun hok => absurd hok Bool.false_ne_true
      | true =>
        rw [if_neg htrue, P.run_bind]
        exact fun _ => validateFile_hwRev dstFaAddr dstFaSize _
    | false =>
      rw [if_neg Bool.false_ne_true, P.run_bind]
      cases hval : (P.run (validateFile P f dstFaAddr dstFaSize) w₁).1.ok with
      | false =>
        rw [if_pos rfl, P.run_bind]
        exact fun hok => absurd (hok.symm.trans hval) htrue
      | true => exact fun _ => validateFile_hwRev dstFaAddr dstFaSize w₁

/-- The result of the search in a call of `check_file_and_update`. -/
def updateSearch (P : Platform) (f : UpdateFile) (dst : FaId) (flagValidateB0Signature : Bool)
    (w : World) : Bool × HwRev :=
  let r := P.run (getFlashAreaAddressAndSize dst) w
  match r.1 with
  | none => (false, HwRev.zero)
  | some (dstFaAddr, dstFaSize) =>
    checkFileSearch P f dstFaAddr dstFaSize flagValidateB0Signature r.2

/-! ## The gate in the checks -/

/-- With a name in the running image the checks let a file pass that they let pass
without one, if the name found in the file is the same. -/
theorem updateGates_accept_iff (hwRev : HwRev) (flagValidateB0Signature : Bool) (w w' : World) :
    P.run (updateGates P f dst hwRev flagValidateB0Signature) w = (true, w') ↔
      P.run (updateGates P f dst HwRev.zero flagValidateB0Signature) w = (true, w') ∧
        hwRevMismatch hwRev (updateSearch P f dst flagValidateB0Signature w).2 = false := by
  have htrue : ¬ true = false := by decide
  have hreject : ∀ {p q : Fw Bool} {m : Bool} (v : World), (P.run p v).1 = false →
      (P.run q v).1 = false → (P.run p v = (true, w') ↔ P.run q v = (true, w') ∧ m = false) := by
    intro p q m v hp hq
    have hne : ∀ {x : Bool × World}, x.1 = false → x ≠ (true, w') := by
      rintro x hx rfl
      exact absurd hx htrue
    exact iff_of_false (hne hp) (fun h => hne hq h.1)
  unfold updateGates updateSearch
  rw [P.run_bind, P.run_bind]
  obtain ⟨area, w₁⟩ := P.run (getFlashAreaAddressAndSize dst) w
  cases area with
  | none => exact hreject _ rfl rfl
  | some a =>
    obtain ⟨dstFaAddr, dstFaSize⟩ := a
    have hrev := checkFile_hwRev (P := P) (f := f) dstFaAddr dstFaSize flagValidateB0Signature w₁
    dsimp only at hrev ⊢
    rw [P.run_bind, P.run_bind]
    generalize P.run (checkFile P f dstFaAddr dstFaSize flagValidateB0Signature) w₁ = r at hrev ⊢
    cases hok : r.1.ok with
    | false => exact hreject _ rfl rfl
    | true =>
      rw [if_neg htrue, if_neg htrue, ← hrev hok, P.run_bind, P.run_bind]
      cases (P.run (fwInfoFindInFile P f) r.2).1 with
      | none => exact hreject _ rfl rfl
      | some fileFwInfo =>
        dsimp only
        rw [P.run_bind, P.run_bind]
        cases P.fwInfoFind (P.run (flashMapped dst) (P.run (fwInfoFindInFile P f) r.2).2).1 with
        | none => exact hreject _ rfl rfl
        | some dstFwInfo =>
          have hzero : hwRevMismatch HwRev.zero r.1.hwRev = false := rfl
          cases hwRevMismatch hwRev r.1.hwRev with
          | true =>
            exact iff_of_false (fun h => absurd (congrArg Prod.fst h) Bool.false_ne_true)
              (fun h => absurd h.2 htrue)
          | false =>
            rw [hzero]
            exact (and_iff_left rfl).symm

/-! ## Copies -/

/-- Calls that erase or write the partition. -/
def Op.overwrites (fa : FaId) : Op → Prop
  | .flashAreaErase fa' _ _ | .flashAreaWrite fa' _ _ => fa' = fa
  | _ => False

instance (fa : FaId) : DecidablePred (Op.overwrites fa)
  | .flashAreaErase fa' _ _ | .flashAreaWrite fa' _ _ => inferInstanceAs (Decidable (fa' = fa))
  | .fsMount | .fsStatvfs | .fsUnmount | .fsStat _ | .fsOpen _ | .fsClose _ | .fsSeek _ _ _
  | .fsTell _ | .fsRead _ _ | .fsReadShared _ _ | .fsUnlink _ | .flashAreaOpen _
  | .flashAreaClose _ | .flashAreaRead _ _ _ | .flashAreaFlatten _ | .flashMapped _ | .sharedBuf
  | .fwInfoInvalidate _ | .sysReboot => inferInstanceAs (Decidable False)

/-- The run erases or writes the partition. -/
def Copies (P : Platform) (fa : FaId) {α : Type} (p : Fw α) (w : World) : Prop :=
  ∃ e ∈ trace (S := Api) P.exec p w, e.op.overwrites fa

variable {fa : FaId} {α β : Type}

instance (p : Fw α) : Decidable (Copies P fa p w) :=
  inferInstanceAs (Decidable (∃ e ∈ trace (S := Api) P.exec p w, e.op.overwrites fa))

theorem copies_bind (p : Fw α) (g : α → Fw β) (w : World) :
    Copies P fa (p >>= g) w ↔
      Copies P fa p w ∨ Copies P fa (g (P.run p w).1) (P.run p w).2 := by
  unfold Copies
  rw [trace_bind]
  simp only [List.mem_append, or_and_right, exists_or]

theorem not_copies_ret (a : α) (w : World) : ¬ Copies P fa (Prog.ret a : Fw α) w := by
  rintro ⟨e, he, -⟩
  exact absurd he List.not_mem_nil

theorem not_copies_of_within {A : Op → Prop} (hA : ∀ o, A o → ¬ o.overwrites fa) {p : Fw α}
    (hp : Issues A p) (w : World) : ¬ Copies P fa p w := by
  rintro ⟨e, he, ho⟩
  exact hA e.op (hp.trace (exec_answers P) w e he) ho

theorem Op.outsideCopy.not_overwrites {o : Op} (ho : o.outsideCopy) : ¬ o.overwrites fa := by
  cases o <;> first | exact fun h => h | exact ho.elim

theorem Op.mayRemove.not_overwrites {o : Op} (ho : o.mayRemove f) : ¬ o.overwrites fa :=
  ho.outsideCopy.not_overwrites

/-- A first part that writes no partition. -/
theorem copies_bind_of_within {A : Op → Prop} (hA : ∀ o, A o → ¬ o.overwrites fa) {p : Fw α}
    (hp : Issues A p) (g : α → Fw β) (w : World) :
    Copies P fa (p >>= g) w ↔ Copies P fa (g (P.run p w).1) (P.run p w).2 :=
  (copies_bind p g w).trans (or_iff_right (not_copies_of_within hA hp w))

theorem copies_checkFileAndUpdate (hwRev : HwRev) (flagValidateB0Signature : Bool) (w : World) :
    Copies P fa (checkFileAndUpdate P f dst hwRev flagValidateB0Signature) w ↔
      ∃ w', P.run (updateGates P f dst hwRev flagValidateB0Signature) w = (true, w') ∧
        Copies P fa (copyUpdate f dst) w' := by
  unfold checkFileAndUpdate
  rw [copies_bind_of_within (fun _ => Op.mayRemove.not_overwrites)
    (within_updateGates P hwRev flagValidateB0Signature)]
  obtain ⟨ok, w'⟩ := P.run (updateGates P f dst hwRev flagValidateB0Signature) w
  cases ok with
  | false =>
    refine iff_of_false (not_copies_ret _ _) ?_
    rintro ⟨_, h, -⟩
    exact absurd (congrArg Prod.fst h) Bool.false_ne_true
  | true =>
    constructor
    · exact fun h => ⟨w', rfl, h⟩
    · rintro ⟨v, hv, h⟩
      cases hv
      exact h

/-- The file is copied exactly if it would be copied under a running image without
a name and the gate lets it pass. -/
theorem copies_gated_iff (hwRev : HwRev) (flagValidateB0Signature : Bool) (w : World) :
    Copies P fa (checkFileAndUpdate P f dst hwRev flagValidateB0Signature) w ↔
      Copies P fa (checkFileAndUpdate P f dst HwRev.zero flagValidateB0Signature) w ∧
        hwRevMismatch hwRev (updateSearch P f dst flagValidateB0Signature w).2 = false := by
  rw [copies_checkFileAndUpdate, copies_checkFileAndUpdate]
  simp only [updateGates_accept_iff hwRev]
  constructor
  · rintro ⟨w', ⟨hrun, hname⟩, hcopy⟩
    exact ⟨⟨w', hrun, hcopy⟩, hname⟩
  · rintro ⟨⟨w', hrun, hcopy⟩, hname⟩
    exact ⟨w', ⟨hrun, hname⟩, hcopy⟩

/-- A copy goes to the partition it is made for. -/
theorem copies_dst {hwRev : HwRev} {flagValidateB0Signature : Bool}
    (h : Copies P fa (checkFileAndUpdate P f dst hwRev flagValidateB0Signature) w) : fa = dst := by
  by_contra hne
  refine not_copies_of_within (A := Op.mayInstall f dst) (fun o ho hover => ?_)
    (within_checkFileAndUpdate P hwRev flagValidateB0Signature) w h
  cases o with
  | flashAreaErase fa' off len | flashAreaWrite fa' off data =>
    obtain rfl : fa' = fa := hover
    exact hne (ho.resolve_right (fun h => Op.noConfusion h))
  | _ => exact hover

/-! ## The search in the running image -/

/-- The verdict says whether both records were found. -/
def VerdictTrue (res : Bool × HwRev) : Prop := res.1 = true ↔ res.2.Complete

theorem not_complete {r : HwRev} (hr : ¬ r.Complete) : VerdictTrue (false, r) :=
  iff_of_false Bool.false_ne_true hr

/-- The id is stored by a record of its type only. -/
theorem handleTlvId_keeps (tlv : ImageTlv) (dataOff : UInt32) (r : HwRev) :
    Ensures (S := Api) (fun res => res.1 = false ∨ tlv.itType ≠ P.ruuviHwRevIdTlv → res.2 = r)
      (fwImgHwRevHandleTlvIdInFlashArea P tlv fa dataOff r) := by
  refine ensures_ite (fun hid => ?_) (fun _ _ => rfl)
  refine ensures_ite (fun _ _ => rfl) (fun _ => ensures_ite (fun _ _ => rfl) (fun _ => ?_))
  refine ensures_skip _ (fun b => ?_)
  cases b with
  | error e => exact fun _ => rfl
  | ok b => exact fun h => absurd hid (h.resolve_left Bool.noConfusion)

theorem handleTlvName_refused (tlv : ImageTlv) (dataOff : UInt32) (r : HwRev) :
    Ensures (S := Api) (fun res => res.1 = false → tlv.itType = P.ruuviHwRevNameTlv ∧ res.2 = r)
      (fwImgHwRevHandleTlvNameInFlashArea P tlv fa dataOff r) := by
  refine ensures_ite (fun hname => ?_) (fun _ => Bool.noConfusion)
  refine ensures_ite (fun _ _ => ⟨hname, rfl⟩) (fun _ => ensures_ite (fun _ _ => ⟨hname, rfl⟩)
    (fun _ => ?_))
  refine ensures_skip _ (fun b => ?_)
  cases b with
  | error e => exact fun _ => ⟨hname, rfl⟩
  | ok b => exact Bool.noConfusion

/-- A record that is refused leaves the result open. -/
theorem handleTlv_refused (hne : RevTypesDiffer P) (tlv : ImageTlv) (dataOff : UInt32) {r : HwRev}
    (hr : ¬ r.Complete) :
    Ensures (S := Api) (fun res => res.1 = false → ¬ res.2.Complete)
      (fwImgHwRevHandleTlvHwRevInFlashArea P tlv fa dataOff r) := by
  refine ensures_bind (handleTlvId_keeps tlv dataOff r) (fun res hres => ?_)
  obtain ⟨ok, r'⟩ := res
  refine ensures_ite (fun hok => ?_) (fun _ => ?_)
  · intro _
    rw [show r' = r from hres (Or.inl hok)]
    exact hr
  · refine ensures_mono (fun res' hres' hrefused => ?_) (handleTlvName_refused tlv dataOff r')
    obtain ⟨hname, hsame⟩ := hres' hrefused
    have hid : tlv.itType ≠ P.ruuviHwRevIdTlv := fun h => hne (h.symm.trans hname)
    rw [hsame, show r' = r from hres (Or.inr hid)]
    exact hr

/-- The verdict of the search says whether both records were found, whatever the
flash answers. -/
theorem findInFlashArea_verdict (hne : RevTypesDiffer P) :
    Ensures (S := Api) VerdictTrue (fwImgHwRevFindInFlashArea P fa HwRev.zero) := by
  have hzero : ¬ HwRev.zero.clear.Complete := by decide
  refine ensures_skip _ (fun a => ?_)
  cases a with
  | error e => exact not_complete hzero
  | ok area =>
    refine ensures_bind (M := VerdictTrue) ?_ (fun res hres => ensures_skip _ (fun _ => hres))
    refine ensures_skip _ (fun b => ?_)
    cases b with
    | error e => exact not_complete hzero
    | ok b =>
      dsimp only
      cases P.bootImageLoadHeader area.faSize b with
      | none => exact not_complete hzero
      | some hdr =>
        refine ensures_skip _ (fun bounds => ?_)
        cases bounds with
        | none => exact not_complete hzero
        | some bounds =>
          refine ensures_loop (J := fun s => ¬ s.hwRev.Complete) (fun s hs => ?_)
            (not_complete hzero) _ _ hzero
          refine ensures_ite (fun _ => ensures_skip _ (fun b => ?_)) (fun _ => not_complete hs)
          cases b with
          | error e => exact not_complete hs
          | ok b =>
            refine ensures_bind (handleTlv_refused hne _ s.dataOff hs) (fun res hres => ?_)
            refine ensures_ite (fun hok => not_complete (hres hok)) (fun _ => ?_)
            exact ensures_ite (fun h => iff_of_true rfl h) (fun h => h)

/-! ## The calls of a boot -/

namespace UpdateCall

variable (P)

/-- The result of the search in the file. -/
def search (c : UpdateCall) : Bool × HwRev :=
  updateSearch P c.file c.dst c.flagValidateB0Signature c.start

/-- The call copies its file, under this revision of the running image. -/
def CopiesWith (c : UpdateCall) (hwRev : HwRev) (fa : FaId) : Prop :=
  Copies P fa (checkFileAndUpdate P c.file c.dst hwRev c.flagValidateB0Signature) c.start

end UpdateCall

theorem not_copies_inspects {p : Fw α} (hp : Issues Op.inspects p) (w : World) :
    ¬ Copies P fa p w :=
  not_copies_of_within (fun _ ho => ho.mayRemove.not_overwrites (f := .app)) hp w

theorem copies_loaderAndApp (hwRev : HwRev) (found : Bool) (w : World) :
    Copies P fa (checkLoaderAndApp P hwRev found) w ↔
      ∃ c ∈ loaderAndAppCalls P hwRev w, c.CopiesWith P hwRev fa := by
  unfold checkLoaderAndApp loaderAndAppCalls
  rw [copies_bind, copies_bind]
  simp only [List.mem_cons, List.not_mem_nil, or_false, exists_eq_or_imp, exists_eq_left]
  refine or_congr_right ?_
  exact or_iff_left (not_copies_ret _ _)

theorem not_copies_handOver (slot : SlotId) (w : World) : ¬ Copies P fa (handOver P slot) w :=
  not_copies_of_within (fun _ ho => ho.outsideCopy.not_overwrites) (within_handOver P slot) w

theorem copies_checkUpdates (slot : SlotId) (hwRev : HwRev) (w : World) :
    Copies P fa (checkUpdatesOnFs P slot hwRev) w ↔
      ∃ c ∈ updateCalls P slot hwRev w, c.CopiesWith P hwRev fa := by
  have hcheck := within_handoverCheck P slot hwRev
  rw [checkUpdatesOnFs_eq]
  unfold updateCalls
  simp only [List.mem_cons, exists_eq_or_imp]
  rw [copies_bind, copies_bind_of_within (fun _ => Op.mayRemove.not_overwrites) hcheck]
  refine or_congr Iff.rfl ?_
  show Copies P fa (if (P.run (handoverCheck P slot hwRev)
    ((otherSlotCall slot w).finish P hwRev)).1 = true then _ else _) _ ↔ _
  by_cases hr : (P.run (handoverCheck P slot hwRev) ((otherSlotCall slot w).finish P hwRev)).1 = true
  · rw [if_pos hr, if_pos hr]
    exact iff_of_false (not_copies_handOver slot _) (fun ⟨c, hc, _⟩ => absurd hc List.not_mem_nil)
  · rw [if_neg hr, if_neg hr]
    exact copies_loaderAndApp hwRev _ _

/-! ## The boot -/

theorem within_findInFlashArea (fa : FaId) (r : HwRev) :
    Issues Op.inspects (fwImgHwRevFindInFlashArea P fa r) := by
  have hread : ∀ (fa : FaId) (off len : Nat), Issues Op.inspects (flashAreaRead fa off len) :=
    fun fa off len => issues_perform (.flashAreaRead fa off len) True.intro
  have hid : ∀ (tlv : ImageTlv) (fa : FaId) (off : UInt32) (r : HwRev),
      Issues Op.inspects (fwImgHwRevHandleTlvIdInFlashArea P tlv fa off r) := by
    intro tlv fa off r
    refine within_ite (within_ite (within_ret _) (within_ite (within_ret _) ?_)) (within_ret _)
    refine within_bind (hread _ _ _) (fun b => ?_)
    cases b with
    | error e => exact within_ret _
    | ok b => exact within_ret _
  have hname : ∀ (tlv : ImageTlv) (fa : FaId) (off : UInt32) (r : HwRev),
      Issues Op.inspects (fwImgHwRevHandleTlvNameInFlashArea P tlv fa off r) := by
    intro tlv fa off r
    refine within_ite (within_ite (within_ret _) (within_ite (within_ret _) ?_)) (within_ret _)
    refine within_bind (hread _ _ _) (fun b => ?_)
    cases b with
    | error e => exact within_ret _
    | ok b => exact within_ret _
  refine within_bind (issues_perform (.flashAreaOpen fa) True.intro) (fun a => ?_)
  cases a with
  | error e => exact within_ret _
  | ok area =>
    refine within_bind ?_ (fun res =>
      within_bind (issues_perform (.flashAreaClose area.faId) True.intro) (fun _ => within_ret _))
    refine within_bind (hread _ _ _) (fun b => ?_)
    cases b with
    | error e => exact within_ret _
    | ok b =>
      dsimp only
      cases P.bootImageLoadHeader area.faSize b with
      | none => exact within_ret _
      | some hdr =>
        refine within_bind (within_bind (hread _ _ _) (fun b => ?_)) (fun bounds => ?_)
        · cases b with
          | error e => exact within_ret _
          | ok b => exact within_ite (within_ret _) (within_ret _)
        · cases bounds with
          | none => exact within_ret _
          | some bounds =>
            refine within_loop (fun s => within_ite ?_ (within_ret _)) _ _ _
            refine within_bind (hread _ _ _) (fun b => ?_)
            cases b with
            | error e => exact within_ret _
            | ok b =>
              refine within_bind (within_bind (hid _ _ _ _)
                (fun res => within_ite (within_ret _) (hname _ _ _ _))) (fun res => ?_)
              exact within_ite (within_ret _) (within_ite (within_ret _) (within_ret _))

theorem within_printImageInfo (fa : FaId) : Issues Op.inspects (printImageInfo P fa) := by
  refine within_bind (within_getFlashArea fa) (fun a => ?_)
  cases a with
  | none => exact within_ret _
  | some a =>
    refine within_bind (issues_perform (.flashMapped fa) True.intro) (fun content => ?_)
    cases P.fwInfoFind content with
    | none => exact within_ret _
    | some info =>
      refine within_bind (within_loadImageHeader P fa) (fun hdr => ?_)
      cases hdr with
      | none => exact within_ret _
      | some hdr => exact within_bind (within_findInFlashArea fa _) (fun _ => within_ret _)

theorem within_printSlots (slot : SlotId) :
    Issues Op.inspects (onStartupPrintSlotsInfoAndGetHwRev P slot) :=
  within_bind (within_printImageInfo .s0) (fun _ => within_bind (within_printImageInfo .s1)
    (fun _ => within_bind (within_printImageInfo .mcubootPrimary) (fun _ =>
      within_bind (within_printImageInfo .mcubootSecondary) (fun _ => within_ret _))))

theorem printImageInfo_verdict (hne : RevTypesDiffer P) (fa : FaId) :
    Ensures (S := Api) (fun found => ∀ res, found = some res → VerdictTrue res)
      (printImageInfo P fa) := by
  have hnone : ∀ res, (none : Option (Bool × HwRev)) = some res → VerdictTrue res :=
    fun _ h => nomatch h
  refine ensures_skip _ (fun a => ?_)
  cases a with
  | none => exact hnone
  | some a =>
    refine ensures_skip _ (fun content => ?_)
    cases P.fwInfoFind content with
    | none => exact hnone
    | some info =>
      refine ensures_skip _ (fun hdr => ?_)
      cases hdr with
      | none => exact hnone
      | some hdr =>
        refine ensures_bind (findInFlashArea_verdict hne) (fun res hres res' h => ?_)
        rw [← Option.some.inj h]
        exact hres

/-- The search in the running image, as the start-up makes it. -/
def runningSearch (P : Platform) (slot : SlotId) (w : World) : Option (Bool × HwRev) :=
  (P.run (onStartupPrintSlotsInfoAndGetHwRev P slot) w).1

theorem runningSearch_verdict (hne : RevTypesDiffer P) {slot : SlotId} {res : Bool × HwRev}
    (h : runningSearch P slot w = some res) : VerdictTrue res := by
  have hspec : Ensures (S := Api) (fun found => ∀ res, found = some res → VerdictTrue res)
      (onStartupPrintSlotsInfoAndGetHwRev P slot) := by
    refine ensures_bind (printImageInfo_verdict hne .s0) (fun s0 h0 => ?_)
    refine ensures_bind (printImageInfo_verdict hne .s1) (fun s1 h1 => ?_)
    refine ensures_skip _ (fun _ => ensures_skip _ (fun _ => ?_))
    cases slot with
    | slot0 => exact h0
    | slot1 => exact h1
  exact hspec.run w res h

/-- The calls of `check_file_and_update` of a boot that comes to the updater. -/
def bootCalls (P : Platform) (slot : SlotId) (w : World) : List UpdateCall :=
  let r := P.run (onStartupPrintSlotsInfoAndGetHwRev P slot) w
  let hwRev := (r.1.map Prod.snd).getD HwRev.zero
  let m := P.run btldrFsMount (P.run (loadImageHeader P slot.activeFaId) r.2).2
  if m.1 = true then updateCalls P slot hwRev m.2 else []

theorem copies_fwUpdate (slot : SlotId) (hwRev : HwRev) (w : World) :
    let m := P.run btldrFsMount w
    Copies P fa (mcubootFwUpdate P slot hwRev) w ↔
      ∃ c ∈ (if m.1 = true then updateCalls P slot hwRev m.2 else []),
        c.CopiesWith P hwRev fa := by
  intro m
  rw [mcubootFwUpdate_eq,
    copies_bind_of_within (fun _ ho => ho.outsideCopy.not_overwrites) within_mount]
  show Copies P fa (if m.1 = true then _ else _) m.2 ↔ _
  by_cases hm : m.1 = true
  · rw [if_pos hm, if_pos hm, copies_bind, copies_checkUpdates]
    exact or_iff_left (not_copies_inspects (within_bootEnd _) _)
  · rw [if_neg hm, if_neg hm]
    exact iff_of_false (not_copies_ret _ _) (fun ⟨c, hc, _⟩ => absurd hc List.not_mem_nil)

/-- A boot that comes to the updater copies what its calls copy. -/
theorem copies_onStartup (fa : FaId) {build : Build} {slot : SlotId} {o : Outcome}
    (h : (P.run (onStartup P build slot) w).1 = .updated o) :
    let hwRev := ((runningSearch P slot w).map Prod.snd).getD HwRev.zero
    hwRev.hwRevNum = build.cfgHwRev ∧
      (Copies P fa (onStartup P build slot) w ↔
        ∃ c ∈ bootCalls P slot w, c.CopiesWith P hwRev fa) := by
  intro hwRev
  have hlook : ∀ {α β : Type} {p : Fw α} (g : α → Fw β) (v : World), Issues Op.inspects p →
      (Copies P fa (p >>= g) v ↔ Copies P fa (g (P.run p v).1) (P.run p v).2) :=
    fun g v hp => copies_bind_of_within (fun _ ho => ho.mayRemove.not_overwrites (f := .app)) hp g v
  unfold bootCalls
  unfold onStartup at h ⊢
  rw [P.run_bind] at h
  rw [hlook _ _ (within_printSlots slot)]
  dsimp only at h ⊢
  change (P.run (if hwRev.hwRevNum ≠ build.cfgHwRev then _ else _) _).1 = _ at h
  change _ ∧ (Copies P fa (if hwRev.hwRevNum ≠ build.cfgHwRev then _ else _) _ ↔ _)
  by_cases hnum : hwRev.hwRevNum ≠ build.cfgHwRev
  · rw [if_pos hnum] at h
    exact absurd h (by simp)
  · rw [if_neg hnum, P.run_bind] at h
    rw [if_neg hnum, hlook _ _ (within_loadImageHeader P _)]
    refine ⟨not_not.mp hnum, ?_⟩
    generalize P.run (loadImageHeader P slot.activeFaId)
      (P.run (onStartupPrintSlotsInfoAndGetHwRev P slot) w).2 = l at h ⊢
    obtain ⟨hdr, w₁⟩ := l
    cases hdr with
    | none => exact absurd h (by simp)
    | some hdr =>
      dsimp only at h ⊢
      by_cases hver : hdr.ihVer ≠ P.mcubootS0S1ImageVersion
      · rw [if_pos hver] at h
        exact absurd h (by simp)
      · rw [if_neg hver] at h ⊢
        by_cases htweak : P.mcubootS0S1ImageVersion.format ≠ build.mcubootVersionTweakString
        · rw [if_pos htweak] at h
          exact absurd h (by simp)
        · rw [if_neg htweak, copies_bind]
          exact (or_iff_left (not_copies_ret _ _)).trans (copies_fwUpdate slot hwRev w₁)

/-- Each call of a boot is for a partition of its own. -/
theorem bootCalls_unique {slot : SlotId} {c c' : UpdateCall} (hc : c ∈ bootCalls P slot w)
    (hc' : c' ∈ bootCalls P slot w) (hdst : c'.dst = c.dst) : c' = c := by
  have hnodup : ((bootCalls P slot w).map UpdateCall.dst).Nodup := by
    unfold bootCalls updateCalls loaderAndAppCalls otherSlotCall loaderCall appCall
    dsimp only
    split
    · split <;> cases slot <;> simp [SlotId.otherFaId]
    · exact List.nodup_nil
  exact List.inj_on_of_nodup_map hnodup hc' hc hdst

/-! ## The gate -/

/-- A copy is made only behind two searches that have found everything, and for
equal names. -/
def HwRevGate (P : Platform) (build : Build) (slot : SlotId) (w : World) : Prop :=
  ∀ fa, Copies P fa (onStartup P build slot) w →
    ∃ running, runningSearch P slot w = some (true, running) ∧
      ∃ c ∈ bootCalls P slot w, c.dst = fa ∧ (c.search P).1 = true ∧
        cString running.hwRevName = cString (c.search P).2.hwRevName

/-- Where some file passes all other checks, the search in the running image has
found everything, and so has the one in the file if the names are equal. -/
def SearchesDecide (P : Platform) (slot : SlotId) (w : World) : Prop :=
  ∀ c ∈ bootCalls P slot w, c.CopiesWith P HwRev.zero c.dst →
    ∃ running, runningSearch P slot w = some (true, running) ∧
      (cString running.hwRevName = cString (c.search P).2.hwRevName → (c.search P).1 = true)

theorem hwRevMismatch_named {r r' : HwRev} (hr : r.nameEmpty = false) :
    hwRevMismatch r r' = false ↔ cString r.hwRevName = cString r'.hwRevName := by
  unfold hwRevMismatch
  rw [hr]
  simp

theorem hwRevMismatch_nameless {r : HwRev} (hr : r.nameEmpty = true) (r' : HwRev) :
    hwRevMismatch r r' = false := by
  unfold hwRevMismatch
  rw [hr]
  rfl

namespace Reference

/-- An image of revision 5 with protected records. -/
def recordedBody (l : List Tlv) : Bytes :=
  leBytes 4 IMAGE_MAGIC.toNat ++ leBytes 4 0 ++ leBytes 2 32 ++
    leBytes 2 (encodeProt (some l)).length ++ leBytes 4 8 ++ List.replicate 16 0 ++
    [0xA5, 1, 0, 1] ++ leBytes 4 0x1000

def recordedImage (l : List Tlv) : Bytes :=
  imageBytes (recordedBody l) (some l) (signedTlvs (recordedBody l ++ encodeProt (some l))) []

def recordedFile : FileData where
  bytes := recordedImage [revId, revName]
  size_le := by decide +kernel

/-- A boot of the given image from slot 0, with this file for the application. -/
def bootRunning (running : Bytes) (d : FileData) : World :=
  World.atBoot (fun f => if f = .app then some (.file d) else none)
    (fun fa => if fa = .s0 then running else oldFirmware) [] (fun _ _ => .none)

def buildRev5 : Build := { cfgHwRev := 5, mcubootVersionTweakString := "0.0.0+0" }

end Reference

end RuuviMcuboot
