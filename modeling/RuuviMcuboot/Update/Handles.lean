/-
Open files.

The updater closes its files by hand on every early return.  The protocol below
has room for one open file and lets nothing be removed, unmounted or rebooted
while there is one.
-/
import RuuviMcuboot.Update.Footprints
import RuuviMcuboot.Effect.Protocol

namespace RuuviMcuboot

open Binary Effect

/-- The state is the file that is open, if one is. -/
def handleRule : Protocol Api (Option Handle)
  | .fsOpen _, .ok hd, q => if q = none then some (some hd) else none
  | .fsClose hd, _, q => if q = some hd then some none else none
  | .fsSeek hd _ _, _, q | .fsTell hd, _, q | .fsRead hd _, _, q | .fsReadShared hd _, _, q =>
    if q = some hd then some q else none
  | .fsUnlink _, _, q | .fsUnmount, _, q | .sysReboot, _, q => if q = none then some q else none
  | _, _, q => some q

/-- `p` keeps to the rule from the state `q`. -/
abbrev Handles {α : Type} (p : Fw α) (q : Option Handle) (post : α → Option Handle → Prop) : Prop :=
  Obeys (S := Api) Op.Answered handleRule p q post

/-- `p` uses the file that is open and leaves it open. -/
abbrev HandlesOpen {α : Type} (hd : Handle) (p : Fw α) : Prop :=
  Handles p (some hd) (fun _ q => q = some hd)

/-- `p` starts with no file open and leaves none open. -/
abbrev HandlesAll {α : Type} (p : Fw α) : Prop := Handles p none (fun _ q => q = none)

/-! ## Programs that keep to the rule -/

variable (P : Platform) {hd : Handle} {f : UpdateFile} {dst : FaId} {α : Type}

theorem handles_reads {p : Fw α} (hp : Issues (Op.reads hd) p) : HandlesOpen hd p := by
  refine hp.obeys (fun o ho r => ?_)
  cases o with
  | fsSeek _ _ _ | fsTell _ | fsRead _ _ =>
    obtain rfl := ho
    exact if_pos rfl
  | _ => exact ho.elim

theorem handles_copies {p : Fw α} (hp : Issues (Op.copies hd dst) p) : HandlesOpen hd p := by
  refine hp.obeys (fun o ho r => ?_)
  cases o with
  | fsSeek _ _ _ | fsTell _ | fsRead _ _ =>
    obtain rfl := ho
    exact if_pos rfl
  | flashAreaErase _ _ _ | flashAreaWrite _ _ _ | flashAreaOpen _ | flashAreaClose _ => rfl
  | _ => exact ho.elim

/-- Calls that have nothing to do with open files. -/
def Op.offFiles : Op → Prop
  | .fsMount | .fsStatvfs | .fsStat _ | .flashAreaOpen _ | .flashAreaClose _
  | .flashAreaErase _ _ _ | .flashAreaWrite _ _ _ | .flashAreaRead _ _ _ | .flashAreaFlatten _
  | .flashMapped _ | .sharedBuf | .fwInfoInvalidate _ => True
  | _ => False

theorem handles_offFiles {p : Fw α} {q : Option Handle} (hp : Issues Op.offFiles p) :
    Handles p q (fun _ q' => q' = q) := by
  refine hp.obeys (fun o ho r => ?_)
  cases o <;> first | rfl | exact ho.elim

/-- Closing the open file ends the session. -/
theorem handles_fsClose : Handles (fsClose hd) (some hd) (fun _ q => q = none) :=
  obeys_perform (fun _ _ => ⟨none, if_pos rfl, rfl⟩)

theorem handles_closeReturn (a : α) :
    Handles (fsClose hd >>= fun _ => pure a) (some hd) (fun _ q => q = none) :=
  obeys_bind handles_fsClose (fun _ _ hq => obeys_ret hq)

theorem handles_unlinkFile : HandlesAll (btldrFsUnlinkFile f) :=
  obeys_bind_keep (obeys_perform (fun _ _ => ⟨none, rfl, rfl⟩)) (fun _ => obeys_ret rfl)

theorem handles_unlinkReturn (a : α) : HandlesAll (btldrFsUnlinkFile f >>= fun _ => pure a) :=
  obeys_bind_keep handles_unlinkFile (fun _ => obeys_ret rfl)

theorem handles_isFileExist : HandlesAll (btldrFsIsFileExist f) := by
  refine handles_offFiles (within_bind (issues_perform (.fsStat f) True.intro) (fun r => ?_))
  cases r with
  | error e => exact within_ret _
  | ok t => exact within_ret _

/-- What is returned is what is open. -/
theorem handles_openFile : Handles (btldrFsOpenFile f) none (fun r q => q = r) := by
  intro r _
  cases r with
  | error e => exact ⟨none, rfl, rfl⟩
  | ok hd => exact ⟨some hd, rfl, rfl⟩

theorem handles_openHeader :
    Handles (openFileAndLoadImageHeader f) none (fun r q => q = r.map Prod.fst) := by
  refine obeys_bind handles_openFile (fun r q hq => ?_)
  cases r with
  | none =>
    subst hq
    exact obeys_ret rfl
  | some hd =>
    subst hq
    refine obeys_bind_keep (handles_reads within_loadHeaderFromFile) (fun r => ?_)
    cases r with
    | none => exact obeys_bind handles_fsClose (fun _ _ hq => obeys_ret hq)
    | some h => exact obeys_ret rfl

theorem handles_b0Signature (dstFaAddr : UInt32) (dstFaSize : Nat) :
    HandlesAll (validateB0Signature P f dstFaAddr dstFaSize) := by
  refine obeys_ite (obeys_ret rfl) (obeys_bind handles_openFile (fun r q hq => ?_))
  cases r with
  | none =>
    subst hq
    exact obeys_ret rfl
  | some hd =>
    subst hq
    refine obeys_bind_keep (handles_reads within_getFileSize)
      (fun size => obeys_ite (handles_closeReturn _) ?_)
    refine obeys_bind_keep (obeys_perform (fun _ _ => ⟨some hd, if_pos rfl, rfl⟩)) (fun r => ?_)
    cases r with
    | error e => exact handles_closeReturn _
    | ok n =>
      refine obeys_ite (handles_closeReturn _)
        (obeys_bind_keep (obeys_perform (fun _ _ => ⟨some hd, rfl, rfl⟩)) (fun buf => ?_))
      cases P.fwInfoFind buf with
      | none => exact handles_closeReturn _
      | some info =>
        exact obeys_ite (handles_closeReturn _)
          (obeys_ite (handles_closeReturn _) (handles_closeReturn _))

theorem handles_validateFile (dstFaAddr : UInt32) (dstFaSize : Nat) :
    HandlesAll (validateFile P f dstFaAddr dstFaSize) := by
  refine obeys_bind_keep handles_isFileExist (fun e => obeys_ite (obeys_ret rfl) ?_)
  refine obeys_bind handles_openHeader (fun r q hq => ?_)
  cases r with
  | none =>
    subst hq
    exact obeys_ret rfl
  | some h =>
    subst hq
    obtain ⟨hd, hdr, imgSize⟩ := h
    refine obeys_ite (handles_closeReturn _) ?_
    refine obeys_bind_keep (handles_reads (within_fsSeek _ _))
      (fun rc => obeys_ite (handles_closeReturn _) ?_)
    refine obeys_bind_keep (handles_reads (within_fsRead _)) (fun b => ?_)
    cases b with
    | error e => exact handles_closeReturn _
    | ok b =>
      refine obeys_ite (handles_closeReturn _) (obeys_ite (handles_closeReturn _) ?_)
      refine obeys_bind_keep (handles_reads (within_hwRevFind P _)) (fun r => ?_)
      exact obeys_bind_keep (handles_reads (within_imgValidate P _ _ _ _))
        (fun res => obeys_ite (handles_closeReturn _) (handles_closeReturn _))

theorem handles_fwInfoFindInFile : HandlesAll (fwInfoFindInFile P f) := by
  refine obeys_bind handles_openFile (fun r q hq => ?_)
  cases r with
  | none =>
    subst hq
    exact obeys_ret rfl
  | some hd =>
    subst hq
    exact obeys_bind_keep (handles_reads (within_fwInfoSearch P _))
      (fun _ => handles_closeReturn _)

theorem handles_checkFile (dstFaAddr : UInt32) (dstFaSize : Nat) (flagValidateB0Signature : Bool) :
    HandlesAll (checkFile P f dstFaAddr dstFaSize flagValidateB0Signature) := by
  have hvalidate := handles_validateFile P (f := f) dstFaAddr dstFaSize
  refine obeys_bind_keep handles_isFileExist
    (fun e => obeys_ite (obeys_ret rfl) (obeys_ite ?_ ?_))
  · refine obeys_bind_keep (handles_b0Signature P _ _)
      (fun ok => obeys_ite (handles_unlinkReturn _) ?_)
    exact obeys_bind_keep hvalidate (fun _ => obeys_ret rfl)
  · exact obeys_bind_keep hvalidate
      (fun _ => obeys_ite (handles_unlinkReturn _) (obeys_ret rfl))

theorem handles_getFlashArea (fa : FaId) : HandlesAll (getFlashAreaAddressAndSize fa) := by
  refine handles_offFiles (within_bind (issues_perform (.flashAreaOpen fa) True.intro) (fun r => ?_))
  cases r with
  | error e => exact within_ret _
  | ok p =>
    exact within_bind (issues_perform (.flashAreaClose p.faId) True.intro) (fun _ => within_ret _)

theorem handles_downgradePrevention (hdr : ImageHeader) :
    HandlesAll (checkDowngradePrevention P dst hdr) := by
  refine handles_offFiles (within_bind ?_ (fun r => ?_))
  · refine within_bind (issues_perform (.flashAreaOpen dst) True.intro) (fun r => ?_)
    cases r with
    | error e => exact within_ret _
    | ok p =>
      refine within_bind (issues_perform (.flashAreaRead p.faId 0 imageHeaderSize) True.intro)
        (fun b => ?_)
      have hclose := issues_perform (A := Op.offFiles) (.flashAreaClose p.faId) True.intro
      cases b with
      | error e => exact within_bind hclose (fun _ => within_ret _)
      | ok b => exact within_bind hclose (fun _ => within_ret _)
  · cases r with
    | none => exact within_ret _
    | some h => exact within_ret _

theorem handles_flashMapped (fa : FaId) : HandlesAll (flashMapped fa) :=
  handles_offFiles (issues_perform (.flashMapped fa) True.intro)

theorem handles_updateGates (hwRev : HwRev) (flagValidateB0Signature : Bool) :
    HandlesAll (updateGates P f dst hwRev flagValidateB0Signature) := by
  refine obeys_bind_keep (handles_getFlashArea dst) (fun r => ?_)
  cases r with
  | none => exact obeys_ret rfl
  | some a =>
    obtain ⟨dstFaAddr, dstFaSize⟩ := a
    refine obeys_bind_keep (handles_checkFile P _ _ _) (fun out => obeys_ite (obeys_ret rfl) ?_)
    refine obeys_bind_keep (handles_fwInfoFindInFile P) (fun r => ?_)
    cases r with
    | none => exact handles_unlinkReturn _
    | some fileFwInfo =>
      refine obeys_bind_keep (handles_flashMapped dst) (fun content => ?_)
      cases P.fwInfoFind content with
      | none => exact handles_unlinkReturn _
      | some dstFwInfo =>
        refine obeys_ite (handles_unlinkReturn _) (obeys_ite (handles_unlinkReturn _)
          (obeys_ite ?_ (obeys_ret rfl)))
        exact obeys_bind_keep (handles_downgradePrevention P _)
          (fun ok => obeys_ite (handles_unlinkReturn _) (obeys_ret rfl))

theorem handles_copyUpdate : HandlesAll (copyUpdate f dst) := by
  refine obeys_bind handles_openFile (fun r q hq => ?_)
  cases r with
  | none =>
    subst hq
    exact handles_unlinkReturn _
  | some hd =>
    subst hq
    refine obeys_bind_keep (handles_copies within_copy) (fun ok => ?_)
    refine obeys_bind handles_fsClose (fun _ q hq => ?_)
    subst hq
    exact handles_unlinkReturn _

theorem handles_checkFileAndUpdate (hwRev : HwRev) (flagValidateB0Signature : Bool) :
    HandlesAll (checkFileAndUpdate P f dst hwRev flagValidateB0Signature) :=
  obeys_bind_keep (handles_updateGates P _ _)
    (fun _ => obeys_ite (obeys_ret rfl) handles_copyUpdate)

theorem handles_checkUpdateForMcuboot (hwRev : HwRev) :
    HandlesAll (checkUpdateForMcuboot P f dst hwRev) := by
  refine obeys_bind_keep handles_isFileExist (fun e => obeys_ite (obeys_ret rfl) ?_)
  refine obeys_bind_keep (handles_getFlashArea dst) (fun r => ?_)
  cases r with
  | none => exact obeys_ret rfl
  | some a =>
    obtain ⟨dstFaAddr, dstFaSize⟩ := a
    refine obeys_bind_keep (handles_b0Signature P _ _)
      (fun ok => obeys_ite (handles_unlinkReturn _) ?_)
    refine obeys_bind_keep (handles_validateFile P _ _) (fun out => ?_)
    refine obeys_bind_keep (handles_fwInfoFindInFile P) (fun r => ?_)
    cases r with
    | none => exact handles_unlinkReturn _
    | some info => exact obeys_ite (handles_unlinkReturn _) (obeys_ret rfl)

theorem handles_imgInvalidate (fa : FaId) : HandlesAll (imgInvalidate P fa) := by
  refine handles_offFiles (within_bind (issues_perform (.flashAreaOpen fa) True.intro) (fun r => ?_))
  cases r with
  | error e => exact within_ret _
  | ok p =>
    have hclose := issues_perform (A := Op.offFiles) (.flashAreaClose p.faId) True.intro
    refine within_bind (issues_perform (.flashMapped p.faId) True.intro) (fun content => ?_)
    cases P.fwInfoFind content with
    | none => exact within_bind hclose (fun _ => within_ret _)
    | some info =>
      exact within_bind (issues_perform (.fwInfoInvalidate p.faId) True.intro)
        (fun _ => within_bind hclose (fun _ => within_ret _))

theorem handles_checkLoaderAndApp (hwRev : HwRev) (flagUpdatesFound : Bool) :
    HandlesAll (checkLoaderAndApp P hwRev flagUpdatesFound) :=
  obeys_bind_keep (handles_checkFileAndUpdate P _ _)
    (fun _ => obeys_bind_keep (handles_checkFileAndUpdate P _ _) (fun _ => obeys_ret rfl))

theorem handles_checkUpdatesOnFs (slot : SlotId) (hwRev : HwRev) :
    HandlesAll (checkUpdatesOnFs P slot hwRev) := by
  cases slot with
  | slot0 =>
    refine obeys_bind_keep (handles_checkFileAndUpdate P _ _) (fun found => ?_)
    refine obeys_bind_keep (handles_checkUpdateForMcuboot P _) (fun other => obeys_ite ?_ ?_)
    · exact obeys_bind_keep (handles_imgInvalidate P _) (fun _ => obeys_ret rfl)
    · exact handles_checkLoaderAndApp P _ _
  | slot1 =>
    refine obeys_bind_keep (handles_checkFileAndUpdate P _ _) (fun found => ?_)
    exact obeys_bind_keep (handles_checkUpdateForMcuboot P _)
      (fun other => obeys_ite (obeys_ret rfl) (handles_checkLoaderAndApp P _ _))

theorem handles_mount : HandlesAll btldrFsMount := by
  refine handles_offFiles (within_bind (issues_perform .fsMount True.intro)
    (fun rc => within_ite (within_bind ?_ (fun _ => within_ret _))
      (within_bind (issues_perform .fsStatvfs True.intro) (fun _ => within_ret _))))
  refine within_bind (issues_perform (.flashAreaOpen .littlefsStorage1) True.intro) (fun r => ?_)
  cases r with
  | error e => exact within_ret _
  | ok pfa =>
    refine within_bind (issues_perform (.flashAreaFlatten pfa.faId) True.intro) (fun rc => ?_)
    exact within_bind (issues_perform (.flashAreaClose pfa.faId) True.intro) (fun _ => within_ret _)

/-- From the mount to the unmount or the reboot, whatever fails on the way. -/
theorem handles_mcubootFwUpdate (slot : SlotId) (hwRev : HwRev) :
    HandlesAll (mcubootFwUpdate P slot hwRev) := by
  have hlast : ∀ o : Outcome, ∀ c : Api.Op, (∀ r, handleRule c r none = some none) →
      HandlesAll (Prog.perform (S := Api) c >>= fun _ => pure o) := fun o c hc =>
    obeys_bind_keep (obeys_perform (fun r _ => ⟨none, hc r, rfl⟩)) (fun _ => obeys_ret rfl)
  refine obeys_bind_keep handles_mount (fun mounted => obeys_ite ?_ (obeys_ret rfl))
  refine obeys_bind_keep (handles_checkUpdatesOnFs P _ _) (fun found => obeys_ite ?_ ?_)
  · exact hlast .rebooted .sysReboot (fun _ => rfl)
  · exact obeys_bind_keep (obeys_bind_keep (obeys_perform (fun _ _ => ⟨none, rfl, rfl⟩))
      (fun _ => obeys_ret rfl)) (fun _ => obeys_ret rfl)

/-! ## What the calls of a run say -/

/-- The files open behind a call. -/
def openBehind : Event Api → List Handle → List Handle
  | ⟨.fsOpen _, .ok hd⟩, opened => hd :: opened
  | ⟨.fsClose hd, _⟩, opened => opened.erase hd
  | _, opened => opened

/-- The files that `t` opens and does not close. -/
def openFiles (t : List (Event Api)) : List Handle := t.foldl (fun opened e => openBehind e opened) []

/-- A discipline on the calls of a run.  Files are opened one at a time, what is
closed was open, and nothing is open at the end: every file that is opened is
closed, and no file twice. -/
structure HandleDiscipline (t : List (Event Api)) : Prop where
  oneOpen : ∀ s, s <+: t → (openFiles s).length ≤ 1
  closesOpen : ∀ s hd r t', t = s ++ ⟨.fsClose hd, r⟩ :: t' → openFiles s = [hd]
  allClosed : openFiles t = []
  unlinksClosed : ∀ s f r t', t = s ++ ⟨.fsUnlink f, r⟩ :: t' → openFiles s = []
  unmountsClosed : ∀ s r t', t = s ++ ⟨.fsUnmount, r⟩ :: t' → openFiles s = []
  rebootsClosed : ∀ s r t', t = s ++ ⟨.sysReboot, r⟩ :: t' → openFiles s = []

/-- The rule follows the open file, whatever was open before the run. -/
theorem handleRule_open {o : Op} {r : Op.Res o} {q q' : Option Handle}
    (hq : handleRule o r q = some q') (before : List Handle) :
    openBehind ⟨o, r⟩ (q.toList ++ before) = q'.toList ++ before := by
  cases o with
  | fsOpen f =>
    cases r with
    | error e =>
      obtain rfl := Option.some.inj hq
      rfl
    | ok hd =>
      obtain ⟨rfl, h⟩ := Option.ite_none_right_eq_some.mp hq
      obtain rfl := Option.some.inj h
      rfl
  | fsClose hd =>
    obtain ⟨rfl, h⟩ := Option.ite_none_right_eq_some.mp hq
    obtain rfl := Option.some.inj h
    exact List.erase_cons_head hd before
  | fsSeek _ _ _ | fsTell _ | fsRead _ _ | fsReadShared _ _ | fsUnlink _ | fsUnmount
  | sysReboot =>
    obtain ⟨-, h⟩ := Option.ite_none_right_eq_some.mp hq
    obtain rfl := Option.some.inj h
    rfl
  | _ =>
    obtain rfl := Option.some.inj hq
    rfl

theorem open_of_after {t : List (Event Api)} {q q' : Option Handle}
    (ht : handleRule.after t q = some q') (before : List Handle) :
    t.foldl (fun opened e => openBehind e opened) (q.toList ++ before) = q'.toList ++ before := by
  induction t generalizing q with
  | nil =>
    obtain rfl := Option.some.inj ht
    rfl
  | cons e t ih =>
    obtain ⟨m, he, ht⟩ := Protocol.after_cons ht
    rw [List.foldl_cons, handleRule_open he]
    exact ih ht

theorem openFiles_of_after {t : List (Event Api)} {q : Option Handle}
    (ht : handleRule.after t none = some q) : openFiles t = q.toList :=
  (open_of_after ht []).trans (List.append_nil q.toList)

theorem toList_length_le (q : Option Handle) : q.toList.length ≤ 1 := by
  cases q with
  | none => exact Nat.zero_le 1
  | some hd => exact Nat.le_refl 1

/-- An accepted trace is a disciplined one. -/
theorem handleDiscipline_of_after {t : List (Event Api)}
    (ht : handleRule.after t none = some none) : HandleDiscipline t := by
  have hat : ∀ s (e : Event Api) t', t = s ++ e :: t' →
      ∃ m m', openFiles s = m.toList ∧ handleRule e.op e.res m = some m' := by
    intro s e t' hs
    rw [hs] at ht
    obtain ⟨m, m', hm, he, -⟩ := Protocol.after_split ht
    exact ⟨m, m', openFiles_of_after hm, he⟩
  have hclosed : ∀ s (o : Op) (r : Op.Res o) t', t = s ++ ⟨o, r⟩ :: t' →
      (∀ m m', handleRule o r m = some m' → m = none) → openFiles s = [] := by
    intro s o r t' hs ho
    obtain ⟨m, m', hm, he⟩ := hat s ⟨o, r⟩ t' hs
    obtain rfl := ho m m' he
    exact hm
  refine ⟨?_, ?_, openFiles_of_after ht, ?_, ?_, ?_⟩
  · rintro s ⟨t', rfl⟩
    rw [Protocol.after_append] at ht
    obtain ⟨m, hm, -⟩ := Option.bind_eq_some_iff.mp ht
    rw [openFiles_of_after hm]
    exact toList_length_le m
  · intro s hd r t' hs
    obtain ⟨m, m', hm, he⟩ := hat s _ t' hs
    obtain ⟨rfl, -⟩ := Option.ite_none_right_eq_some.mp he
    exact hm
  · intro s f r t' hs
    exact hclosed s (.fsUnlink f) r t' hs (fun m m' h => (Option.ite_none_right_eq_some.mp h).1)
  · intro s r t' hs
    exact hclosed s .fsUnmount r t' hs (fun m m' h => (Option.ite_none_right_eq_some.mp h).1)
  · intro s r t' hs
    exact hclosed s .sysReboot r t' hs (fun m m' h => (Option.ite_none_right_eq_some.mp h).1)

/-! ## The files the file system has open -/

theorem map_dropFile (hd : Handle) (t : List (Handle × OpenFile)) :
    (dropFile hd t).map Prod.fst = (t.map Prod.fst).erase hd := by
  induction t with
  | nil => rfl
  | cons e t ih =>
    obtain ⟨k, f⟩ := e
    by_cases hk : k = hd
    · simp [dropFile, hk]
    · simp [dropFile, hk, ih]

theorem map_moveFile (hd : Handle) (pos : Nat) (t : List (Handle × OpenFile)) :
    (moveFile hd pos t).map Prod.fst = t.map Prod.fst := by
  induction t with
  | nil => rfl
  | cons e t ih =>
    obtain ⟨k, f⟩ := e
    by_cases hk : k = hd
    · simp [moveFile, hk]
    · simp [moveFile, hk, ih]

/-- The open files of the platform, by handle. -/
def World.handles (w : World) : List Handle := w.opened.map Prod.fst

theorem readFile_handles (w : World) (hd : Handle) (len : Nat) :
    (w.readFile hd len).2.handles = w.handles := by
  unfold World.readFile
  split
  · rfl
  · exact map_moveFile _ _ _

theorem exec_handles (o : Op) (w : World) :
    (P.exec o w).2.handles = openBehind ⟨o, (P.exec o w).1⟩ w.handles := by
  cases o with
  | fsClose hd => exact map_dropFile hd w.opened
  | fsSeek hd off whence =>
    simp only [Platform.exec]
    (repeat' split) <;> first | rfl | exact map_moveFile _ _ _
  | fsRead hd len | fsReadShared hd len =>
    simp only [Platform.exec]
    (repeat' split) <;> first | rfl | exact readFile_handles _ _ _
  | _ =>
    simp only [Platform.exec]
    (repeat' split) <;> rfl

/-- Every file that the updater opens is closed exactly once, at most one is open at
any time, and none while a file is removed, the file system unmounted or the device
rebooted. -/
theorem mcubootFwUpdate_handleDiscipline (slot : SlotId) (hwRev : HwRev) (w : World) :
    HandleDiscipline (trace (S := Api) P.exec (mcubootFwUpdate P slot hwRev) w) ∧
      (∀ w', Reaches (S := Api) P.exec (mcubootFwUpdate P slot hwRev) w w' →
        w'.opened.length ≤ w.opened.length + 1) ∧
      (P.run (mcubootFwUpdate P slot hwRev) w).2.handles = w.handles := by
  obtain ⟨q, hafter, rfl⟩ := (handles_mcubootFwUpdate P slot hwRev).trace (exec_answers P) w
  refine ⟨handleDiscipline_of_after hafter, fun w' hr => ?_, ?_⟩
  · obtain ⟨s, ⟨t, hs⟩, hopen⟩ := reaches_trace (exec_handles P) hr
    rw [← hs, Protocol.after_append] at hafter
    obtain ⟨m, hm, -⟩ := Option.bind_eq_some_iff.mp hafter
    have hlen := congrArg List.length (hopen.trans (open_of_after hm w.handles))
    have hone := toList_length_le m
    simp only [World.handles, List.length_map, List.length_append] at hlen
    omega
  · exact (foldl_trace (exec_handles P) _ w).trans (open_of_after hafter w.handles)

end RuuviMcuboot
