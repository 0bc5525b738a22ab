/-
The installation of a file.

In a world where nothing fails the file is always gone afterwards, whether it was
installed or rejected.  In a world where reads and writes may fail, the outcome
is right as long as the copy goes through: its result is not looked at.
-/
import RuuviMcuboot.Update.Copy
import RuuviMcuboot.Update.Gates
import RuuviMcuboot.Update.Validated

namespace RuuviMcuboot

open Binary Effect

variable (P : Platform) {w : World} {f : UpdateFile} {dst : FaId}

/-! ## Nothing fails -/

theorem regular_some {entry : Option DirEntry} {d : FileData} (h : regular entry = some d) :
    entry = some (.file d) := by
  cases entry with
  | none => exact absurd h (by simp [regular])
  | some e =>
    cases e with
    | file d' => rw [Option.some.inj h]
    | dir => exact absurd h (by simp [regular])

/-- What is accepted is a regular file. -/
theorem gatesAccept_regular {entry : Option DirEntry} {buf content : Bytes} {hwRev : HwRev}
    {flag : Bool} (h : gatesAccept P f entry buf dst content hwRev flag = true) :
    ∃ d, regular entry = some d := by
  rw [← Option.isSome_iff_exists]
  unfold gatesAccept fileAccepted at h
  simp only [Bool.and_eq_true] at h
  exact h.1.1

/-- The copy that `copy_update` makes once the file is open. -/
def copyJob (f : UpdateFile) (dst : FaId) (d : FileData) (w : World) : CopyJob where
  f := f
  hd := freshHandle w.opened
  t := w.opened
  d := d
  dst := dst
  size := (w.flash dst).length
  faults := w.faults

/-- The world in which the copy starts. -/
def copyWorld (J : CopyJob) (w : World) : World :=
  w.tick.setOpened ((J.hd, J.file 0) :: J.t)

theorem run_copyUpdate {d : FileData} (hd : w.files f = some (.file d))
    (hopen : (w.faults w.clock (.fsOpen f)).rc? = none) :
    P.run (copyUpdate f dst) w =
      P.run (btldrFsCloseFile (copyJob f dst d w).hd >>= fun _ =>
        btldrFsUnlinkFile f >>= fun _ => pure true)
        (P.run (mcubootImgOpCopy dst (copyJob f dst d w).hd) (copyWorld (copyJob f dst d w) w)).2 := by
  have hrun : P.run (btldrFsOpenFile f) w =
      (some (copyJob f dst d w).hd, copyWorld (copyJob f dst d w) w) := by
    show P.run (fsOpen f >>= _) w = _
    rw [P.run_bind, run_fsOpen]
    simp only [Platform.exec, hopen, World.tick_files, hd]
    rfl
  unfold copyUpdate
  rw [P.run_bind_of hrun]
  dsimp only
  rw [P.run_bind]

theorem run_copyJob (f : UpdateFile) (dst : FaId) (d : FileData) (w : World) :
    let J := copyJob f dst d w
    let r := P.run (mcubootImgOpCopy dst J.hd) (copyWorld J w)
    (r.1 = true ↔ J.Fits ∧ J.Undisturbed (w.clock + 1)) ∧ (r.1 = true → r.2.flash dst = J.result) :=
  run_copy P (J := copyJob f dst d w) (w := copyWorld (copyJob f dst d w) w) rfl rfl rfl

theorem HeadIs.exec_copies {hd : Handle} {t : List (Handle × OpenFile)} {o : Op}
    (ho : o.copies hd dst) (hw : HeadIs hd t w) : HeadIs hd t (P.exec o w).2 := by
  cases o with
  | fsSeek h off whence => exact hw.exec P (o := .fsSeek h off whence) ho
  | fsTell h => exact hw.exec P (o := .fsTell h) ho
  | fsRead h len => exact hw.exec P (o := .fsRead h len) ho
  | flashAreaOpen fa | flashAreaErase fa off len | flashAreaWrite fa off data =>
    simp only [Platform.exec]
    repeat' split
    all_goals exact hw
  | flashAreaClose fa => exact hw
  | _ => exact ho.elim

/-- The copy leaves its file on top of the table. -/
theorem copy_headIs {hd : Handle} {t : List (Handle × OpenFile)} (hw : HeadIs hd t w) :
    HeadIs hd t (P.run (mcubootImgOpCopy dst hd) w).2 :=
  within_copy.run_inv (exec_answers P) (fun _ _ ho h => h.exec_copies P ho) hw

theorem copy_files {hd : Handle} :
    (P.run (mcubootImgOpCopy dst hd) w).2.files = w.files :=
  within_copy.run_eq (exec_answers P)
    (fun _ w ho => exec_files_of_mayWrite P (Op.copies.mayWrite ho) w) w

theorem copy_flash_ne {hd : Handle} {fa : FaId} (hfa : fa ≠ dst) :
    (P.run (mcubootImgOpCopy dst hd) w).2.flash fa = w.flash fa :=
  within_copy.run_eq (exec_answers P) (f := fun w => w.flash fa)
    (fun _ w ho => exec_flash_ne_of_mayWrite P hfa (Op.copies.mayWrite ho) w) w

/-- The partition after an accepted installation in which nothing fails. -/
structure Installed (d : FileData) (dst : FaId) (w w' : World) : Prop where
  whole : d.bytes.length + padding d.bytes.length ≤ (w.flash dst).length →
    w'.flash dst = d.bytes ++ blank ((w.flash dst).length - d.bytes.length)
  tooLong : (w.flash dst).length < d.bytes.length → w'.flash dst = w.flash dst

theorem run_copyUpdate_reliable (hw : Reliable w) (ht : w.opened = []) {d : FileData}
    (hd : w.files f = some (.file d)) :
    ∃ w', P.run (copyUpdate f dst) w = (true, w') ∧ w'.opened = [] ∧
      w'.files = Function.update w.files f none ∧ Installed d dst w w' := by
  have hcopy : P.run (copyUpdate f dst) w = _ := run_copyUpdate P hd (hw.rc? _ _)
  obtain ⟨hiff, hdone⟩ := run_copyJob P f dst d w
  have hlong : (w.flash dst).length < d.bytes.length →
      (P.run (mcubootImgOpCopy dst (copyJob f dst d w).hd)
        (copyWorld (copyJob f dst d w) w)).2.flash = w.flash :=
    run_copy_too_long P (J := copyJob f dst d w) (w := copyWorld (copyJob f dst d w) w)
      (hw.tick.setOpened _) rfl
  obtain ⟨o, hhead⟩ : HeadIs (copyJob f dst d w).hd w.opened
      (P.run (mcubootImgOpCopy dst (copyJob f dst d w).hd) (copyWorld (copyJob f dst d w) w)).2 :=
    copy_headIs P ⟨_, rfl⟩
  have hfiles : (P.run (mcubootImgOpCopy dst (copyJob f dst d w).hd)
      (copyWorld (copyJob f dst d w) w)).2.files = w.files := copy_files P
  have hrel : Reliable (P.run (mcubootImgOpCopy dst (copyJob f dst d w).hd)
    (copyWorld (copyJob f dst d w) w)).2 := Reliable.run P (hw.tick.setOpened _) _
  have hun : (copyJob f dst d w).Undisturbed (w.clock + 1) :=
    ⟨hw.rc? _ _, hw.rc? _ _, hw.rc? _ _, hw.rc? _ _,
      fun _ _ => ⟨hw.rc? _ _, hw.limit _ _ _, hw.rc? _ _⟩⟩
  generalize P.run (mcubootImgOpCopy dst (copyJob f dst d w).hd)
    (copyWorld (copyJob f dst d w) w) = r at *
  rw [hcopy]
  have hclose : P.run (btldrFsCloseFile (copyJob f dst d w).hd) r.2 =
      ((), r.2.tick.setOpened w.opened) := run_fsClose_head P hhead
  rw [P.run_bind_of hclose, run_unlink_return P ((hrel.tick.setOpened w.opened).rc? _ _)]
  refine ⟨_, rfl, ht, ?_, ?_, ?_⟩
  · show Function.update r.2.files f none = _
    rw [hfiles]
  · intro hfits
    exact hdone (hiff.mpr ⟨hfits, hun⟩)
  · intro hlt
    exact congrFun (hlong hlt) dst

theorem run_checkFileAndUpdate (hw : Reliable w) (ht : w.opened = []) (hwRev : HwRev)
    (flagValidateB0Signature : Bool) :
    let accepted := gatesAccept P f (w.files f) w.sharedBuf dst (w.flash dst) hwRev
      flagValidateB0Signature
    ∃ w', P.run (checkFileAndUpdate P f dst hwRev flagValidateB0Signature) w = (accepted, w') ∧
      w'.opened = [] ∧ w'.files = discard f w.files ∧
      (accepted = false → w'.flash = w.flash) ∧
      (accepted = true → ∀ d, regular (w.files f) = some d → Installed d dst w w') := by
  intro accepted
  obtain ⟨n, buf, hgates⟩ : ∃ n buf, P.run (updateGates P f dst hwRev flagValidateB0Signature) w =
      (accepted, w.after n buf (settled accepted f w.files)) :=
    run_updateGates P hw ht hwRev flagValidateB0Signature
  unfold checkFileAndUpdate
  rw [P.run_bind_of hgates]
  show ∃ w', P.run (if accepted = false then _ else _) _ = _ ∧ _
  cases hacc : accepted with
  | false =>
    rw [if_pos rfl]
    exact ⟨w.after n buf (settled false f w.files), rfl, ht, rfl, fun _ => rfl,
      fun h => absurd h (by decide)⟩
  | true =>
    obtain ⟨d, hd⟩ := gatesAccept_regular P hacc
    have hfiles : (w.after n buf (settled true f w.files)).files f = some (.file d) :=
      regular_some hd
    rw [if_neg (by decide)]
    obtain ⟨w', hrun, hopened, hgone, hinst⟩ :=
      run_copyUpdate_reliable P (d := d) (hw.after n buf (settled true f w.files)) ht hfiles
    refine ⟨w', hrun, hopened, ?_, fun h => absurd h (by decide), fun _ d' hd' => ?_⟩
    · rw [hgone, discard_regular hd]
      rfl
    · obtain rfl : d = d' := Option.some.inj (hd.symm.trans hd')
      exact ⟨hinst.whole, hinst.tooLong⟩

/-! ## What is written -/

theorem getElem?_append_blank {b : Bytes} {size i : Nat} (hsize : b.length ≤ size) (hi : i < size) :
    (b ++ blank (size - b.length))[i]? = some (b.getD i 0xFF) := by
  rw [List.getD_eq_getElem?_getD]
  by_cases hin : i < b.length
  · rw [List.getElem?_append_left hin, List.getElem?_eq_getElem hin]
    rfl
  · rw [List.getElem?_append_right (Nat.le_of_not_lt hin), blank, List.getElem?_replicate,
      if_pos (by omega), List.getElem?_eq_none (Nat.le_of_not_lt hin)]
    rfl

/-- Whatever the end of the image's TLV area, the partition is erased from there
on exactly when the file holds nothing but erased bytes from there on. -/
theorem erased_from_iff {d : FileData} {size : Nat} (hsize : d.bytes.length ≤ size) (off : Nat) :
    (∀ i, off ≤ i → i < size →
        (d.bytes ++ blank (size - d.bytes.length))[i]? = some 0xFF) ↔
      ∀ i, off ≤ i → i < d.bytes.length → d.bytes[i]? = some 0xFF := by
  constructor
  · intro hall i hoff hi
    rw [← List.getElem?_append_left hi]
    exact hall i hoff (Nat.lt_of_lt_of_le hi hsize)
  · intro hall i hoff hi
    by_cases hin : i < d.bytes.length
    · rw [List.getElem?_append_left hin]
      exact hall i hoff hin
    · rw [List.getElem?_append_right (Nat.le_of_not_lt hin), blank, List.getElem?_replicate,
        if_pos (by omega)]

/-- What the checks in front of an installation without the B0 check say about the
file. -/
theorem gatesAccept_validated {d : FileData} {buf content : Bytes} {hwRev : HwRev}
    (h : gatesAccept P f (some (.file d)) buf dst content hwRev false = true) :
    (validateOn P d (P.faOff dst) content.length).ok = true := by
  unfold gatesAccept fileAccepted at h
  simp only [Bool.and_eq_true] at h
  have hok := h.1.2
  rw [if_neg (by decide), fileCheck_file] at hok
  exact hok

namespace Reference

/-- The signed image with three bytes behind its TLV area. -/
def trailingFile : FileData where
  bytes := signedFile.bytes ++ [1, 2, 3]
  size_le := by decide +kernel

/-- A partition of 160 bytes with an older firmware. -/
def oldFirmware : Bytes := [0xA5, 0, 0, 1] ++ blank 156

/-- A boot in which nothing fails, with one update file. -/
def bootWith (d : FileData) : World :=
  World.atBoot (fun _ => some (.file d)) (fun _ => oldFirmware) [] (fun _ _ => .none)

end Reference

end RuuviMcuboot
