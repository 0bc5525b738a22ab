/-
What the checks of a file find, as functions of the file.

`validate_file` and `fw_info_find_in_file` open the file, read it and close it
again.  In a world where nothing fails they find what they would find in a world
that holds nothing but the file, and leave the world as it was.
-/
import RuuviMcuboot.Platform.Calls
import RuuviMcuboot.Update.Footprints

namespace RuuviMcuboot

open Binary Effect

variable (P : Platform) {w : World} {f : UpdateFile} {hd : Handle} {t : List (Handle × OpenFile)}

/-! ## Open files are closed again -/

/-- `hd` is the file that was opened last, on top of the table `t`. -/
def HeadIs (hd : Handle) (t : List (Handle × OpenFile)) (w : World) : Prop :=
  ∃ o, w.opened = (hd, o) :: t

/-- From a table with `hd` on top of `t`, the program ends with the table `t`. -/
def Closes (hd : Handle) (t : List (Handle × OpenFile)) {α : Type} (p : Fw α) : Prop :=
  Triple (S := Api) P.exec (HeadIs hd t) p (fun _ w => w.opened = t) (fun _ => True)

theorem HeadIs.move {o : OpenFile} (ht : w.opened = (hd, o) :: t) (pos : Nat) :
    HeadIs hd t (w.tick.setOpened (moveFile hd pos w.opened)) :=
  ⟨{ o with pos := pos }, by rw [World.setOpened_opened, ht, moveFile_cons_self]⟩

/-- Reading a file moves in it. -/
theorem HeadIs.exec {o : Op} (ho : o.reads hd) (hw : HeadIs hd t w) :
    HeadIs hd t (P.exec o w).2 := by
  obtain ⟨file, ht⟩ := hw
  cases o with
  | fsSeek h off whence =>
    obtain rfl : h = hd := ho
    simp only [Platform.exec]
    repeat' split
    all_goals first | exact ⟨file, ht⟩ | exact HeadIs.move ht _
  | fsTell h =>
    simp only [Platform.exec]
    split <;> exact ⟨file, ht⟩
  | fsRead h len =>
    obtain rfl : h = hd := ho
    simp only [Platform.exec, World.readFile]
    repeat' split
    all_goals first | exact ⟨file, ht⟩ | exact HeadIs.move ht _
  | _ => exact ho.elim

theorem closes_reads_bind {α β : Type} {p : Fw α} {g : α → Fw β} (hp : Issues (Op.reads hd) p)
    (hg : ∀ a, Closes P hd t (g a)) : Closes P hd t (p >>= g) := by
  refine triple_bind ((triple_of_within (exec_answers P) ?_ hp).weaken (fun _ hw => hw)
    (fun _ _ hw => hw) (fun _ _ => True.intro)) hg
  exact fun o w ho hw => hw.exec P ho

theorem closes_return {α : Type} (a : α) : Closes P hd t (fsClose hd >>= fun _ => pure a) := by
  refine triple_bind (M := fun _ w => w.opened = t) ?_
    (fun _ => triple_ret (fun w hw => hw) (fun _ _ => True.intro))
  refine triple_perform (fun w hw => ?_) (fun _ _ => True.intro) (fun _ _ => True.intro)
  obtain ⟨o, ht⟩ := hw
  show dropFile hd w.opened = t
  rw [ht, dropFile_cons_self]

/-- The table of open files is the same before and after. -/
def Balanced {α : Type} (p : Fw α) : Prop :=
  ∀ t, Triple (S := Api) P.exec (fun w => w.opened = t) p (fun _ w => w.opened = t) (fun _ => True)

theorem balanced_ret {α : Type} (a : α) : Balanced P (Prog.ret a : Fw α) :=
  fun _ => triple_ret (fun _ hw => hw) (fun _ _ => True.intro)

/-- The table after an attempt to open a file. -/
def AfterOpen (t : List (Handle × OpenFile)) : Option Handle → World → Prop
  | none, w => w.opened = t
  | some hd, w => HeadIs hd t w

theorem openFile_afterOpen (w : World) :
    AfterOpen w.opened (P.run (btldrFsOpenFile f) w).1 (P.run (btldrFsOpenFile f) w).2 := by
  rcases run_openFile_cases P w f with hrun | ⟨d, -, hrun⟩
  · rw [hrun]
    rfl
  · rw [hrun]
    exact ⟨_, rfl⟩

/-- Open a file and go on with it. -/
theorem balanced_openFile_bind {α : Type} {g : Option Handle → Fw α}
    (hnone : Balanced P (g none)) (hsome : ∀ hd t, Closes P hd t (g (some hd))) :
    Balanced P (btldrFsOpenFile f >>= g) := by
  intro t
  refine triple_bind (M := AfterOpen t) ?_ (fun r => ?_)
  · rintro w rfl
    exact ⟨fun _ _ => True.intro, openFile_afterOpen P w⟩
  · cases r with
    | none => exact hnone t
    | some hd => exact hsome hd t

theorem balanced_bind {α β : Type} {p : Fw α} {g : α → Fw β} (hp : Balanced P p)
    (hg : ∀ a, Balanced P (g a)) : Balanced P (p >>= g) :=
  fun t => triple_bind (hp t) (fun a => hg a t)

theorem balanced_ite {α : Type} {c : Prop} [Decidable c] {p q : Fw α} (hp : Balanced P p)
    (hq : Balanced P q) : Balanced P (if c then p else q) :=
  fun t => triple_ite (fun _ => hp t) (fun _ => hq t)

theorem closes_ite {α : Type} {c : Prop} [Decidable c] {p q : Fw α} (hp : Closes P hd t p)
    (hq : Closes P hd t q) : Closes P hd t (if c then p else q) :=
  triple_ite (fun _ => hp) (fun _ => hq)

theorem balanced_isFileExist : Balanced P (btldrFsIsFileExist f) := by
  intro t
  refine triple_bind (M := fun _ w => w.opened = t) ?_ (fun r => ?_)
  · refine triple_perform (fun w hw => ?_) (fun _ _ => True.intro) (fun _ _ => True.intro)
    simp only [Platform.exec]
    repeat' split
    all_goals exact hw
  · cases r with
    | error e => exact triple_ret (fun _ hw => hw) (fun _ _ => True.intro)
    | ok b => exact triple_ret (fun _ hw => hw) (fun _ _ => True.intro)

theorem openHeader_afterOpen :
    Triple (S := Api) P.exec (fun w => w.opened = t) (openFileAndLoadImageHeader f)
      (fun r => AfterOpen t (r.map Prod.fst)) (fun _ => True) := by
  refine triple_bind (M := AfterOpen t) ?_ (fun r => ?_)
  · rintro w rfl
    exact ⟨fun _ _ => True.intro, openFile_afterOpen P w⟩
  · cases r with
    | none => exact triple_ret (fun _ hw => hw) (fun _ _ => True.intro)
    | some hd =>
      refine triple_bind (M := fun _ => HeadIs hd t) ?_ (fun r => ?_)
      · exact (triple_of_within (exec_answers P) (fun o w ho hw => hw.exec P ho)
          within_loadHeaderFromFile).weaken (fun _ hw => hw) (fun _ _ hw => hw)
            (fun _ _ => True.intro)
      · cases r with
        | none => exact closes_return P _
        | some h => exact triple_ret (fun _ hw => hw) (fun _ _ => True.intro)

/-- Every way out of `validate_file` closes the file. -/
theorem balanced_validateFile (dstFaAddr : UInt32) (dstFaSize : Nat) :
    Balanced P (validateFile P f dstFaAddr dstFaSize) := by
  refine balanced_bind P (balanced_isFileExist P) (fun e => balanced_ite P (balanced_ret P _) ?_)
  intro t
  refine triple_bind (openHeader_afterOpen P) (fun r => ?_)
  cases r with
  | none => exact triple_ret (fun _ hw => hw) (fun _ _ => True.intro)
  | some h =>
    obtain ⟨hd, hdr, imgSize⟩ := h
    refine closes_ite P (closes_return P _) ?_
    refine closes_reads_bind P (within_fsSeek _ _) (fun rc => closes_ite P (closes_return P _) ?_)
    refine closes_reads_bind P (within_fsRead _) (fun b => ?_)
    cases b with
    | error e => exact closes_return P _
    | ok b =>
      refine closes_ite P (closes_return P _) (closes_ite P (closes_return P _) ?_)
      refine closes_reads_bind P (within_hwRevFind P _) (fun r => ?_)
      exact closes_reads_bind P (within_imgValidate P _ _ _ _)
        (fun res => closes_ite P (closes_return P _) (closes_return P _))

theorem balanced_fwInfoFindInFile : Balanced P (fwInfoFindInFile P f) :=
  balanced_openFile_bind P (balanced_ret P _)
    (fun _ _ => closes_reads_bind P (within_fwInfoSearch P _) (fun _ => closes_return P _))

/-! ## A world with one file -/

/-- A world in which nothing fails, with one entry of the file system. -/
def alone (entry : Option DirEntry) : World :=
  World.atBoot (fun _ => entry) (fun _ => []) [] (fun _ _ => .none)

theorem alone_reliable (entry : Option DirEntry) : Reliable (alone entry) := fun _ _ => rfl

/-- `validate_file` on an entry. -/
def fileCheck (f : UpdateFile) (entry : Option DirEntry) (dstFaAddr : UInt32) (dstFaSize : Nat) :
    FileCheck :=
  (P.run (validateFile P f dstFaAddr dstFaSize) (alone entry)).1

/-- `fw_info_find_in_file` on an entry. -/
def fileFwInfo (f : UpdateFile) (entry : Option DirEntry) : Option FwInfo :=
  (P.run (fwInfoFindInFile P f) (alone entry)).1

/-- Two worlds that a look at `f` does not tell apart. -/
structure LooksAlike (f : UpdateFile) (w v : World) : Prop where
  left : Reliable w
  right : Reliable v
  files : w.files f = v.files f
  opened : w.opened = v.opened

theorem LooksAlike.exec {v : World} {o : Op} (ho : o.looksAt f) (hwv : LooksAlike f w v) :
    (P.exec o w).1 = (P.exec o v).1 ∧ LooksAlike f (P.exec o w).2 (P.exec o v).2 := by
  have hfiles : (P.exec o w).2.files f = (P.exec o v).2.files f := by
    rw [exec_files_of_inspects P ho.inspects, exec_files_of_inspects P ho.inspects, hwv.files]
  suffices hsame : (P.exec o w).1 = (P.exec o v).1 ∧
      (P.exec o w).2.opened = (P.exec o v).2.opened from
    ⟨hsame.1, hwv.left.exec P o, hwv.right.exec P o, hfiles, hsame.2⟩
  have hf := hwv.files
  have ht := hwv.opened
  cases o with
  | fsStat g | fsOpen g =>
    obtain rfl : g = f := ho
    simp only [Platform.exec, hwv.left.rc?, hwv.right.rc?, World.tick_files, World.tick_opened,
      hf, ht]
    split <;> first | exact ⟨rfl, ht⟩ | exact ⟨rfl, rfl⟩
  | fsClose hd | fsSeek hd off whence | fsTell hd | fsRead hd len =>
    simp only [Platform.exec, hwv.left.rc?, hwv.right.rc?, hwv.left.limit, hwv.right.limit,
      World.readFile, World.tick_opened, ht]
    repeat' split
    all_goals first | exact ⟨rfl, ht⟩ | simp [ht]
  | _ => exact ho.elim

theorem exec_sharedBuf_of_looksAt {o : Op} (ho : o.looksAt f) (w : World) :
    (P.exec o w).2.sharedBuf = w.sharedBuf := by
  cases o <;> first
    | exact ho.elim
    | (simp only [Platform.exec, World.readFile]; (repeat' split) <;> rfl)

/-- A balanced look at `f` leaves the world as it was. -/
theorem run_looks {α : Type} {p : Fw α} (hp : Issues (Op.looksAt f) p) (hbal : Balanced P p)
    (w : World) : ∃ n, (P.run p w).2 = w.after n w.sharedBuf w.files := by
  have hfiles : (P.run p w).2.files = w.files :=
    (within_looks hp).run_eq (exec_answers P) (fun _ w ho => exec_files_of_inspects P ho w) w
  have hflash : (P.run p w).2.flash = w.flash :=
    (within_looks hp).run_eq (exec_answers P) (fun _ w ho => exec_flash_of_inspects P ho w) w
  have hbuf : (P.run p w).2.sharedBuf = w.sharedBuf :=
    hp.run_eq (exec_answers P) (fun _ w ho => exec_sharedBuf_of_looksAt P ho w) w
  have hfaults : (P.run p w).2.faults = w.faults :=
    hp.run_eq (exec_answers P) (fun o w _ => exec_faults P o w) w
  have hopened : (P.run p w).2.opened = w.opened := (hbal _ w rfl).2
  refine ⟨(P.run p w).2.clock, ?_⟩
  unfold World.after
  rw [← hfiles, ← hflash, ← hbuf, ← hfaults, ← hopened]

theorem run_looks_alone {α : Type} {p : Fw α} (hp : Issues (Op.looksAt f) p) (hw : Reliable w)
    (ht : w.opened = []) : (P.run p w).1 = (P.run p (alone (w.files f))).1 :=
  (hp.run_congr (exec_answers P) (fun _ _ _ ho hwv => LooksAlike.exec P ho hwv)
    (LooksAlike.mk hw (alone_reliable _) rfl ht)).1

theorem run_validateFile_after (hw : Reliable w) (ht : w.opened = []) (n : Nat) (buf : Bytes)
    (dstFaAddr : UInt32) (dstFaSize : Nat) :
    ∃ m, P.run (validateFile P f dstFaAddr dstFaSize) (w.after n buf w.files) =
      (fileCheck P f (w.files f) dstFaAddr dstFaSize, w.after m buf w.files) := by
  have hlooks := within_validateFile P (f := f) dstFaAddr dstFaSize
  obtain ⟨m, hworld⟩ := run_looks P hlooks (balanced_validateFile P _ _) (w.after n buf w.files)
  exact ⟨m, Prod.ext (run_looks_alone P hlooks (hw.after n buf w.files) ht) hworld⟩

theorem run_fwInfoFindInFile_after (hw : Reliable w) (ht : w.opened = []) (n : Nat) (buf : Bytes) :
    ∃ m, P.run (fwInfoFindInFile P f) (w.after n buf w.files) =
      (fileFwInfo P f (w.files f), w.after m buf w.files) := by
  have hlooks := within_fwInfoFindInFile P (f := f)
  obtain ⟨m, hworld⟩ := run_looks P hlooks (balanced_fwInfoFindInFile P) (w.after n buf w.files)
  exact ⟨m, Prod.ext (run_looks_alone P hlooks (hw.after n buf w.files) ht) hworld⟩

end RuuviMcuboot
