/-
The check of a file as the first-stage bootloader would make it.

The file is read over the start of a buffer that is never cleared, and the whole
buffer is checked.  `b0Accepts` is the outcome as a function of the file and of
what the buffer held before.
-/
import RuuviMcuboot.FwUpdate
import RuuviMcuboot.Platform.Calls
import RuuviMcuboot.Platform.Reference

namespace RuuviMcuboot

open Binary Effect

variable (P : Platform) {w : World} {f : UpdateFile}

/-- The file that is read: one that opens and fits the buffer, for a partition of
the size of the buffer. -/
def b0Loads (file : Option FileData) (dstFaSize : Nat) : Option FileData :=
  if dstFaSize ≠ P.sharedImgBufSize then none
  else file.filter fun d => d.bytes.length ≤ P.sharedImgBufSize

/-- The check of the buffer. -/
def b0Verdict (buf : Bytes) (dstFaAddr : UInt32) : Bool :=
  match P.fwInfoFind buf with
  | none => false
  | some info =>
    if (info.address - dstFaAddr).toNat ≥ P.sharedImgBufSize then false
    else P.blValidateFirmware info.address buf (info.address - dstFaAddr).toNat

def b0Accepts (file : Option FileData) (old : Bytes) (dstFaAddr : UInt32) (dstFaSize : Nat) :
    Bool :=
  match b0Loads P file dstFaSize with
  | none => false
  | some d => b0Verdict P (overlay old 0 d.bytes) dstFaAddr

/-- The buffer afterwards. -/
def b0Buffer (file : Option FileData) (old : Bytes) (dstFaSize : Nat) : Bytes :=
  match b0Loads P file dstFaSize with
  | none => old
  | some d => overlay old 0 d.bytes

/-- The check of the buffer behind the read, and the close on each way out. -/
theorem run_b0Check {hd : Handle} {o : OpenFile} {t : List (Handle × OpenFile)}
    (ht : w.opened = (hd, o) :: t) (dstFaAddr : UInt32) :
    P.run (do
      let buf ← sharedBuf
      match P.fwInfoFind buf with
      | none =>
        fsClose hd
        return false
      | some info =>
        let addrOffset := info.address - dstFaAddr
        if addrOffset.toNat ≥ P.sharedImgBufSize then
          fsClose hd
          return false
        else if P.blValidateFirmware info.address buf addrOffset.toNat = false then
          fsClose hd
          return false
        else
          fsClose hd
          return true) w =
      (b0Verdict P w.sharedBuf dstFaAddr, w.tick.tick.setOpened t) := by
  have hbuf : P.run sharedBuf w = (w.sharedBuf, w.tick) := rfl
  have hclose : ∀ b : Bool, P.run (fsClose hd >>= fun _ => pure b) w.tick =
      (b, w.tick.tick.setOpened t) := fun b =>
    run_close_return P (show w.tick.opened = _ from ht) b
  rw [P.run_bind_of hbuf, b0Verdict]
  cases P.fwInfoFind w.sharedBuf with
  | none => exact hclose false
  | some info =>
    dsimp only
    by_cases hfar : (info.address - dstFaAddr).toNat ≥ P.sharedImgBufSize
    · rw [if_pos hfar, if_pos hfar]
      exact hclose false
    · rw [if_neg hfar, if_neg hfar]
      cases P.blValidateFirmware info.address w.sharedBuf (info.address - dstFaAddr).toNat with
      | false => exact hclose false
      | true => exact hclose true

theorem run_validateB0Signature (hw : Reliable w) (dstFaAddr : UInt32) (dstFaSize : Nat) :
    ∃ n, P.run (validateB0Signature P f dstFaAddr dstFaSize) w =
      (b0Accepts P (regular (w.files f)) w.sharedBuf dstFaAddr dstFaSize,
        w.after n (b0Buffer P (regular (w.files f)) w.sharedBuf dstFaSize) w.files) := by
  unfold validateB0Signature b0Accepts b0Buffer b0Loads
  by_cases hsize : dstFaSize ≠ P.sharedImgBufSize
  · rw [if_pos hsize, if_pos hsize]
    exact ⟨w.clock, rfl⟩
  · rw [if_neg hsize, if_neg hsize]
    cases hfile : regular (w.files f) with
    | none =>
      rw [P.run_bind_of (run_openFile_none P hw hfile)]
      exact ⟨_, rfl⟩
    | some d =>
      have hw₁ := hw.tick.setOpened
        ((freshHandle w.opened, { name := f, data := d, pos := 0 }) :: w.opened)
      rw [P.run_bind_of (run_openFile_some P hw hfile),
        P.run_bind_of (run_getFileSize_head P hw₁ rfl (Nat.zero_le _)), toSizeT_length,
        Option.filter_some]
      by_cases hfit : d.bytes.length > P.sharedImgBufSize
      · rw [if_pos hfit, if_neg (by simpa using hfit), P.run_bind_of (run_fsClose_head P rfl)]
        exact ⟨_, rfl⟩
      · rw [if_neg hfit, if_pos (by simpa using hfit)]
        rw [P.run_bind_of (run_fsReadShared_head P hw₁.tick.tick.tick.tick rfl rfl)]
        dsimp only
        rw [if_neg (not_not.mpr rfl)]
        refine ⟨w.clock + 8, Eq.trans (run_b0Check P (t := w.opened)
          (o := { name := f, data := d, pos := d.bytes.length }) ?_ dstFaAddr) ?_⟩
        · rfl
        · dsimp only [World.tick, World.setOpened, World.setShared, World.after]

/-! ## What the buffer held before -/

/-- The platform with other functions of the first-stage bootloader. -/
def Platform.withB0 (find : Bytes → Option FwInfo) (check : UInt32 → Bytes → Nat → Bool) :
    Platform :=
  { P with fwInfoFind := find, blValidateFirmware := check }

/-- A file that is read fills the buffer, or is shorter than the buffer. -/
theorem b0Loads_some {file : Option FileData} {dstFaSize : Nat} {d : FileData}
    (h : b0Loads P file dstFaSize = some d) :
    file = some d ∧ dstFaSize = P.sharedImgBufSize ∧ d.bytes.length ≤ P.sharedImgBufSize := by
  unfold b0Loads at h
  by_cases hsize : dstFaSize ≠ P.sharedImgBufSize
  · rw [if_pos hsize] at h
    exact absurd h (by simp)
  · rw [if_neg hsize, Option.filter_eq_some_iff] at h
    exact ⟨h.1, not_not.mp hsize, by simpa using h.2⟩

theorem b0Loads_of_le {d : FileData} (hfit : d.bytes.length ≤ P.sharedImgBufSize) :
    b0Loads P (some d) P.sharedImgBufSize = some d := by
  unfold b0Loads
  rw [if_neg (not_not.mpr rfl), Option.filter_some, if_pos (by simpa using hfit)]

/-- The first-stage functions that look at the last byte of the buffer only. -/
theorem b0Accepts_lastByte {d : FileData} (hshort : d.bytes.length < P.sharedImgBufSize)
    (dstFaAddr : UInt32) (x : UInt8) :
    let find : Bytes → Option FwInfo := fun b =>
      if b.getLast? = some 0xFF then
        some { magic := [], version := 0, address := dstFaAddr, valid := true }
      else none
    b0Accepts (P.withB0 find (fun _ _ _ => true)) (some d)
      (List.replicate P.sharedImgBufSize x) dstFaAddr P.sharedImgBufSize = decide (x = 0xFF) := by
  intro find
  have hload : b0Loads (P.withB0 find (fun _ _ _ => true)) (some d) P.sharedImgBufSize = some d :=
    b0Loads_of_le (P.withB0 find _) (Nat.le_of_lt hshort)
  have hbuf : overlay (List.replicate P.sharedImgBufSize x) 0 d.bytes =
      d.bytes ++ List.replicate (P.sharedImgBufSize - d.bytes.length) x := by
    rw [overlay_start (by rw [List.length_replicate]; omega), List.drop_replicate]
  have hlast : (d.bytes ++ List.replicate (P.sharedImgBufSize - d.bytes.length) x).getLast? =
      some x := by
    rw [List.getLast?_append_of_ne_nil _ (by simp; omega), List.getLast?_replicate,
      if_neg (by omega)]
  have hpos : ¬ (dstFaAddr - dstFaAddr).toNat ≥ P.sharedImgBufSize := by
    rw [UInt32.sub_self]
    show ¬ 0 ≥ P.sharedImgBufSize
    omega
  simp only [b0Accepts, hload, b0Verdict, hbuf]
  by_cases hx : x = 0xFF
  · have hfind : (P.withB0 find (fun _ _ _ => true)).fwInfoFind
        (d.bytes ++ List.replicate (P.sharedImgBufSize - d.bytes.length) x) =
        some { magic := [], version := 0, address := dstFaAddr, valid := true } := by
      show find _ = _
      simp only [find]
      rw [hlast, hx, if_pos rfl]
    have hnear : ¬ (dstFaAddr - dstFaAddr).toNat ≥
        (P.withB0 find (fun _ _ _ => true)).sharedImgBufSize := hpos
    rw [hfind]
    dsimp only
    rw [if_neg hnear]
    exact (decide_eq_true hx).symm
  · have hfind : (P.withB0 find (fun _ _ _ => true)).fwInfoFind
        (d.bytes ++ List.replicate (P.sharedImgBufSize - d.bytes.length) x) = none := by
      show find _ = _
      simp only [find, hlast, Option.some.injEq, hx, if_false]
    rw [hfind]
    exact (decide_eq_false hx).symm

/-- The verdict on a file is the same whatever the buffer held, for all functions
of the first-stage bootloader, exactly when no byte of what it held is left: the
partition has another size, or the file is not there or not shorter than the
buffer. -/
theorem b0_history_independent_iff (f : UpdateFile) (entry : Option DirEntry)
    (dstFaAddr : UInt32) (dstFaSize : Nat) :
    (∀ find check w b₁ b₂, Reliable w → w.files f = entry →
        b₁.length = P.sharedImgBufSize → b₂.length = P.sharedImgBufSize →
        ((P.withB0 find check).run
            (validateB0Signature (P.withB0 find check) f dstFaAddr dstFaSize)
            (w.setShared b₁)).1 =
          ((P.withB0 find check).run
            (validateB0Signature (P.withB0 find check) f dstFaAddr dstFaSize)
            (w.setShared b₂)).1) ↔
      (dstFaSize ≠ P.sharedImgBufSize ∨
        ∀ d, regular entry = some d → P.sharedImgBufSize ≤ d.bytes.length) := by
  have hrun : ∀ {find check w b}, Reliable w → w.files f = entry →
      ((P.withB0 find check).run
          (validateB0Signature (P.withB0 find check) f dstFaAddr dstFaSize) (w.setShared b)).1 =
        b0Accepts (P.withB0 find check) (regular entry) b dstFaAddr dstFaSize := by
    intro find check w b hw hf
    obtain ⟨n, hval⟩ :=
      run_validateB0Signature (P.withB0 find check) (f := f) (hw.setShared b) dstFaAddr dstFaSize
    rw [hval, ← hf]
    rfl
  constructor
  · intro hall
    by_contra hcond
    rw [not_or, not_not] at hcond
    obtain ⟨rfl, hfile⟩ := hcond
    simp only [Classical.not_forall, Nat.not_le] at hfile
    obtain ⟨d, hd, hshort⟩ := hfile
    -- a check of the last byte tells the two histories apart
    let w : World := World.atBoot (fun _ => entry) (fun _ => []) [] (fun _ _ => .none)
    have hw : Reliable w := fun _ _ => rfl
    have heq := hall
      (fun b => if b.getLast? = some 0xFF then
        some { magic := [], version := 0, address := dstFaAddr, valid := true } else none)
      (fun _ _ _ => true) w (List.replicate P.sharedImgBufSize 0xFF)
      (List.replicate P.sharedImgBufSize 0) hw rfl List.length_replicate List.length_replicate
    rw [hrun hw rfl, hrun hw rfl, hd, b0Accepts_lastByte P hshort dstFaAddr 0xFF,
      b0Accepts_lastByte P hshort dstFaAddr 0] at heq
    exact absurd heq (by decide)
  · intro hcond find check w b₁ b₂ hw hf h₁ h₂
    rw [hrun hw hf, hrun hw hf, b0Accepts, b0Accepts]
    cases hload : b0Loads (P.withB0 find check) (regular entry) dstFaSize with
    | none => rfl
    | some d =>
      obtain ⟨hd, hsize, hfit⟩ := b0Loads_some (P.withB0 find check) hload
      have hfull : d.bytes.length = P.sharedImgBufSize := by
        rcases hcond with hne | hlong
        · exact absurd hsize hne
        · exact Nat.le_antisymm hfit (hlong d hd)
      dsimp only
      rw [overlay_all (hfull.trans h₁.symm), overlay_all (hfull.trans h₂.symm)]

namespace Reference

/-- An image for the first-stage check that fills a buffer of eight bytes. -/
def b0Image (version addr : UInt8) : Bytes := [0xA5, version, addr, 1, 8, 0x5A, 0x5A, 0x5A]

/-- The same image cut off behind its length byte. -/
def truncatedFile : FileData :=
  { bytes := (b0Image 1 0x10).take 5, size_le := by decide }

end Reference

/-- A truncated file is accepted over what an image left in the buffer, and
rejected over an erased buffer. -/
theorem truncated_file_verdicts_differ :
    let boot := fun buf => World.atBoot (fun _ => some (.file Reference.truncatedFile))
      (fun _ => []) buf (fun _ _ => .none)
    let verdict := fun buf => ((Reference.platform 8).run
      (validateB0Signature (Reference.platform 8) .mcuboot0 0x10 8) (boot buf)).1
    verdict (Reference.b0Image 7 0x10) = true ∧ verdict (blank 8) = false := by
  decide +kernel

end RuuviMcuboot
