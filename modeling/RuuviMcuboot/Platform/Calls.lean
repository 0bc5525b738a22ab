/-
Calls in a world where nothing fails.

Each lemma evaluates one call, or a short function of the file layer, to its
answer and the world after it.  A file under work stands at the head of the table
of open files, since functions open and close their files in a nested way.
-/
import RuuviMcuboot.Platform.Reading
import RuuviMcuboot.BtldrFs
import RuuviMcuboot.FaUtils

namespace RuuviMcuboot

open Binary Effect

variable (P : Platform) {w : World} {f : UpdateFile} {hd : Handle}
  {t : List (Handle × OpenFile)} {fa : FaId}

theorem Reliable.tick (hw : Reliable w) : Reliable w.tick := fun n o => hw n o

theorem Reliable.setOpened (hw : Reliable w) (t : List (Handle × OpenFile)) :
    Reliable (w.setOpened t) := fun n o => hw n o

theorem Reliable.setShared (hw : Reliable w) (b : Bytes) : Reliable (w.setShared b) :=
  fun n o => hw n o

theorem Reliable.setFlash (hw : Reliable w) (fa : FaId) (b : Bytes) : Reliable (w.setFlash fa b) :=
  fun n o => hw n o

theorem Reliable.setFiles (hw : Reliable w) (g : UpdateFile → Option DirEntry) :
    Reliable (w.setFiles g) := fun n o => hw n o

theorem Reliable.after (hw : Reliable w) (n : Nat) (buf : Bytes)
    (g : UpdateFile → Option DirEntry) : Reliable (w.after n buf g) := fun n o => hw n o

theorem Reliable.rc (hw : Reliable w) (n : Nat) (o : Op) : (w.faults n o).rc = 0 := by
  rw [hw n o]
  rfl

/-! ## Files -/

/-- The contents of a regular file. -/
def regular : Option DirEntry → Option FileData
  | some (.file d) => some d
  | _ => none

theorem run_isFileExist (hw : Reliable w) :
    P.run (btldrFsIsFileExist f) w = ((regular (w.files f)).isSome, w.tick) := by
  show P.run (fsStat f >>= _) w = _
  rw [P.run_bind, run_fsStat]
  simp only [Platform.exec, hw.rc?, World.tick_files]
  cases w.files f with
  | none => rfl
  | some e =>
    cases e with
    | file d => rfl
    | dir => rfl

/-- Opening fails and leaves the world as it was, or puts the file on top of the
table of open files. -/
theorem run_openFile_cases (w : World) (f : UpdateFile) :
    P.run (btldrFsOpenFile f) w = (none, w.tick) ∨
      ∃ d, regular (w.files f) = some d ∧ P.run (btldrFsOpenFile f) w =
        (some (freshHandle w.opened), w.tick.setOpened
          ((freshHandle w.opened, { name := f, data := d, pos := 0 }) :: w.opened)) := by
  show P.run (fsOpen f >>= _) w = _ ∨ ∃ d, _ ∧ P.run (fsOpen f >>= _) w = _
  rw [P.run_bind, run_fsOpen]
  simp only [Platform.exec, World.tick_files]
  cases (w.faults w.clock (.fsOpen f)).rc? with
  | some rc => exact Or.inl rfl
  | none =>
    cases w.files f with
    | none => exact Or.inl rfl
    | some e =>
      cases e with
      | file d => exact Or.inr ⟨d, rfl, rfl⟩
      | dir => exact Or.inl rfl

theorem run_openFile_some (hw : Reliable w) {d : FileData} (hf : regular (w.files f) = some d) :
    P.run (btldrFsOpenFile f) w =
      (some (freshHandle w.opened),
        w.tick.setOpened ((freshHandle w.opened, { name := f, data := d, pos := 0 }) :: w.opened)) := by
  have hfile : w.files f = some (.file d) := by
    cases he : w.files f with
    | none => rw [he] at hf; exact absurd hf (by simp [regular])
    | some e =>
      cases e with
      | file d' => rw [he] at hf; rw [Option.some.inj hf]
      | dir => rw [he] at hf; exact absurd hf (by simp [regular])
  show P.run (fsOpen f >>= _) w = _
  rw [P.run_bind, run_fsOpen]
  simp only [Platform.exec, hw.rc?, World.tick_files, hfile]
  rfl

theorem run_openFile_none (hw : Reliable w) (hf : regular (w.files f) = none) :
    P.run (btldrFsOpenFile f) w = (none, w.tick) := by
  show P.run (fsOpen f >>= _) w = _
  rw [P.run_bind, run_fsOpen]
  simp only [Platform.exec, hw.rc?, World.tick_files]
  cases he : w.files f with
  | none => rfl
  | some e =>
    cases e with
    | file d => rw [he] at hf; exact absurd hf (by simp [regular])
    | dir => rfl

theorem run_unlinkFile (hflt : (w.faults w.clock (.fsUnlink f)).rc? = none) :
    ∃ ok, P.run (btldrFsUnlinkFile f) w =
      (ok, w.after (w.clock + 1) w.sharedBuf (Function.update w.files f none)) := by
  show ∃ ok, P.run (fsUnlink f >>= _) w = _
  rw [P.run_bind, run_fsUnlink]
  simp only [Platform.exec, hflt, World.tick_files]
  cases he : w.files f with
  | none =>
    have hsame : Function.update w.files f none = w.files := by
      rw [← he, Function.update_eq_self]
    rw [hsame]
    exact ⟨false, rfl⟩
  | some e => exact ⟨true, rfl⟩

/-- Remove the file and return. -/
theorem run_unlink_return (hflt : (w.faults w.clock (.fsUnlink f)).rc? = none) {α : Type} (a : α) :
    P.run (btldrFsUnlinkFile f >>= fun _ => pure a) w =
      (a, w.after (w.clock + 1) w.sharedBuf (Function.update w.files f none)) := by
  obtain ⟨ok, hrun⟩ := run_unlinkFile P (f := f) hflt
  rw [P.run_bind_of hrun, P.run_pure]

/-! ## Partitions -/

theorem run_getFlashArea (hw : Reliable w) :
    P.run (getFlashAreaAddressAndSize fa) w =
      (some (P.faOff fa, (w.flash fa).length), w.tick.tick) := by
  show P.run (flashAreaOpen fa >>= _) w = _
  rw [P.run_bind, run_flashAreaOpen]
  simp only [Platform.exec, hw.rc?]
  rfl

/-- The header at the start of a partition, as `load_image_header` finds it. -/
def partitionHeader (content : Bytes) : Option ImageHeader :=
  if imageHeaderSize ≤ content.length then
    P.bootImageLoadHeader content.length (slice content 0 imageHeaderSize)
  else none

theorem run_loadImageHeader (hw : Reliable w) :
    P.run (loadImageHeader P fa) w = (partitionHeader P (w.flash fa), w.tick.tick.tick) := by
  show P.run (flashAreaOpen fa >>= _) w = _
  rw [P.run_bind, run_flashAreaOpen]
  simp only [Platform.exec, hw.rc?]
  rw [P.run_bind, run_flashAreaRead]
  simp only [Platform.exec, hw.tick.rc?, World.tick_flash, Nat.zero_add, partitionHeader]
  by_cases hlen : imageHeaderSize ≤ (w.flash fa).length
  · rw [if_pos hlen, if_pos hlen]
    rfl
  · rw [if_neg hlen, if_neg hlen]
    rfl

/-! ## The file at the head of the table -/

theorem run_fsClose_head {o : OpenFile} (ht : w.opened = (hd, o) :: t) :
    P.run (fsClose hd) w = ((), w.tick.setOpened t) := by
  rw [run_fsClose]
  simp only [Platform.exec]
  show ((), w.tick.setOpened (dropFile hd w.opened)) = _
  rw [ht, dropFile_cons_self]

/-- Close and return. -/
theorem run_close_return {o : OpenFile} (ht : w.opened = (hd, o) :: t) {α : Type} (a : α) :
    P.run (fsClose hd >>= fun _ => pure a) w = (a, w.tick.setOpened t) := by
  rw [P.run_bind_of (run_fsClose_head P ht), P.run_pure]

theorem run_fsTell_head {o : OpenFile} (ht : w.opened = (hd, o) :: t) :
    P.run (fsTell hd) w = ((o.pos : Int), w.tick) := by
  have hl : lookupFile hd w.tick.opened = some o := by
    show lookupFile hd w.opened = _
    rw [ht, lookupFile_cons_self]
  rw [run_fsTell]
  simp only [Platform.exec, hl]

theorem run_fsSeek_head (hw : Reliable w) {o : OpenFile} (ht : w.opened = (hd, o) :: t)
    {off : Int} {whence : Whence} {pos : Nat} (hpos : o.target off whence = some pos) :
    P.run (fsSeek hd off whence) w =
      (0, w.tick.setOpened ((hd, { o with pos := pos }) :: t)) := by
  have hl : lookupFile hd w.tick.opened = some o := by
    show lookupFile hd w.opened = _
    rw [ht, lookupFile_cons_self]
  rw [run_fsSeek]
  simp only [Platform.exec, hw.rc?, hl, hpos]
  show (0, w.tick.setOpened (moveFile hd pos w.opened)) = _
  rw [ht, moveFile_cons_self]

theorem run_fsRead_head (hw : Reliable w) {o : OpenFile} (ht : w.opened = (hd, o) :: t)
    (len : Nat) :
    P.run (fsRead hd len) w =
      (.ok (slice o.data.bytes o.pos len), w.tick.setOpened
        ((hd, { o with pos := o.pos + (slice o.data.bytes o.pos len).length }) :: t)) := by
  have hl : lookupFile hd w.tick.opened = some o := by
    show lookupFile hd w.opened = _
    rw [ht, lookupFile_cons_self]
  rw [run_fsRead]
  simp only [Platform.exec, hw.rc?, hw.limit, World.readFile, hl]
  show (_, w.tick.setOpened (moveFile hd _ w.opened)) = _
  rw [ht, moveFile_cons_self]

/-- The whole file is read over the start of the shared buffer. -/
theorem run_fsReadShared_head (hw : Reliable w) {o : OpenFile} (ht : w.opened = (hd, o) :: t)
    (hpos : o.pos = 0) :
    P.run (fsReadShared hd o.data.bytes.length) w =
      (.ok o.data.bytes.length,
        (w.tick.setOpened ((hd, { o with pos := o.data.bytes.length }) :: t)).setShared
          (overlay w.sharedBuf 0 o.data.bytes)) := by
  have hl : lookupFile hd w.tick.opened = some o := by
    show lookupFile hd w.opened = _
    rw [ht, lookupFile_cons_self]
  have hall : slice o.data.bytes 0 o.data.bytes.length = o.data.bytes := by
    rw [slice_zero_off, List.take_length]
  rw [run_fsReadShared]
  simp only [Platform.exec, hw.rc?, hw.limit, World.readFile, hl, hpos, hall, Nat.zero_add]
  show (_, (w.tick.setOpened (moveFile hd _ w.opened)).setShared _) = _
  rw [ht, moveFile_cons_self]
  rfl

theorem toSizeT_length (d : FileData) : toSizeT (d.bytes.length : Int) = d.bytes.length := by
  have h := fileData_length_lt d
  unfold toSizeT
  omega

/-- The size is found without moving in the file. -/
theorem run_getFileSize_head (hw : Reliable w) {o : OpenFile} (ht : w.opened = (hd, o) :: t)
    (hpos : o.pos ≤ lfsFileMax) :
    P.run (btldrFsGetFileSize hd) w =
      ((o.data.bytes.length : Int), w.tick.tick.tick.tick) := by
  have hmax := o.data.size_le
  have hend : o.target 0 .fromEnd = some o.data.bytes.length := by
    simp only [OpenFile.target]
    rw [if_pos (by omega)]
    simp
  have hback : ({ o with pos := o.data.bytes.length } : OpenFile).target (o.pos : Int) .set =
      some o.pos := by
    simp only [OpenFile.target]
    rw [if_pos (by omega)]
    simp
  unfold btldrFsGetFileSize
  rw [P.run_bind_of (run_fsTell_head P ht),
    P.run_bind_of (run_fsSeek_head P hw.tick (show w.tick.opened = _ from ht) hend)]
  rw [if_neg (show ¬ (0 : Int) ≠ 0 by decide), P.run_bind_of (run_fsTell_head P rfl),
    P.run_bind_of (run_fsSeek_head P ((hw.tick.tick.setOpened _).tick) rfl hback), P.run_pure]
  show (_, w.tick.tick.tick.tick.setOpened ((hd, o) :: t)) = _
  rw [← ht]
  rfl

end RuuviMcuboot
