/-
When the image hash is computed.

The digest is that of the seed and the hashed prefix, whatever the size of the
buffer and wherever the file stood.  It is returned exactly when the file holds
the prefix and every seek and read on the way is served.
-/
import RuuviMcuboot.Effect.Along
import RuuviMcuboot.Validate.Authenticity

namespace RuuviMcuboot

open Binary Effect

variable (P : Platform) {hd : Handle} {w : World} {f : OpenFile}

/-- The environment lets the call through: it does not fail it, and it does not
cut a read short. -/
def Op.Served : Op → World → Prop
  | .fsRead hd len, w =>
    (w.faults w.clock (.fsRead hd len)).rc? = none ∧
      (w.faults w.clock (.fsRead hd len)).limit len = len
  | .fsReadShared hd len, w =>
    (w.faults w.clock (.fsReadShared hd len)).rc? = none ∧
      (w.faults w.clock (.fsReadShared hd len)).limit len = len
  | o, w => (w.faults w.clock o).rc? = none

/-! ## One block -/

theorem run_fsRead_ok_iff (hf : lookupFile hd w.opened = some f) {len : Nat} (hlen : 0 < len) :
    (∃ b, (P.run (fsRead hd len) w).1 = .ok b ∧ b.length = len) ↔
      f.pos + len ≤ f.data.bytes.length ∧ Op.Served (.fsRead hd len) w := by
  have hf' : lookupFile hd w.tick.opened = some f := hf
  rw [run_fsRead]
  simp only [Platform.exec, Op.Served]
  cases hrc : (w.faults w.clock (.fsRead hd len)).rc? with
  | some rc =>
    constructor
    · rintro ⟨b, hb, -⟩
      exact absurd hb (by simp)
    · rintro ⟨-, hb, -⟩
      exact absurd hb (by simp)
  | none =>
    have hlim : (w.faults w.clock (.fsRead hd len)).limit len ≤ len := by
      cases w.faults w.clock (.fsRead hd len) with
      | short n => exact Nat.min_le_right _ _
      | none | fail rc junk => exact Nat.le_refl _
    simp only [World.readFile, hf']
    constructor
    · rintro ⟨b, hb, hblen⟩
      obtain rfl := Except.ok.inj hb
      rw [slice_length] at hblen
      exact ⟨by omega, trivial, by omega⟩
    · rintro ⟨hfit, -, hfull⟩
      exact ⟨_, rfl, by rw [slice_length]; omega⟩

/-- A non-empty block is loaded exactly when the file holds it and both calls are
served. -/
theorem loadImageData_ok_iff (hf : lookupFile hd w.opened = some f) {start : UInt32} {size : Nat}
    (hstart : start.toNat ≤ lfsFileMax) (hsize : 0 < size) :
    (∃ b, (P.run (loadImageData hd start size) w).1 = .ok b) ↔
      start.toNat + size ≤ f.data.bytes.length ∧
        Along (S := Api) P.exec Op.Served (loadImageData hd start size) w := by
  unfold loadImageData
  have hoff : toOffT start = (start.toNat : Int) := toOffT_of_le hstart
  rcases run_fsSeek_set P hf (toOffT start) with ⟨-, hseek⟩ | ⟨hflt, rc, hseek⟩ | ⟨hbad, -⟩
  · have hserved : Along (S := Api) P.exec Op.Served (fsSeek hd (toOffT start) .set) w := by
      refine (along_perform _ _).mpr ?_
      show (w.faults w.clock (.fsSeek hd (toOffT start) .set)).rc? = none
      cases hrc : (w.faults w.clock (.fsSeek hd (toOffT start) .set)).rc? with
      | none => rfl
      | some rc =>
        rw [run_fsSeek] at hseek
        simp only [Platform.exec, hrc] at hseek
        have hclock := congrArg Prod.fst hseek
        cases hflt : w.faults w.clock (.fsSeek hd (toOffT start) .set) with
        | none | short n =>
          rw [hflt] at hrc
          exact absurd hrc (by simp [Fault.rc?])
        | fail rc' junk =>
          rw [hflt] at hrc
          obtain rfl := Option.some.inj hrc
          exact absurd hclock (by simp)
    have hf₁ := lookupFile_moveFile start.toNat hf
    have hread := run_fsRead_ok_iff P (w := w.tick.setOpened (moveFile hd start.toNat w.opened))
      hf₁ hsize
    rw [hoff, Int.toNat_natCast] at hseek
    rw [hoff] at hserved ⊢
    rw [P.run_bind_of hseek, along_bind_of hseek, if_neg (Int.lt_irrefl 0), P.run_bind,
      along_bind, and_iff_right hserved]
    cases hr : (P.run (fsRead hd size)
      (w.tick.setOpened (moveFile hd start.toNat w.opened))).1 with
    | error rc =>
      rw [hr] at hread
      constructor
      · rintro ⟨b, hb⟩
        exact absurd hb (by simp)
      · rintro ⟨hfit, hcall, -⟩
        obtain ⟨b, hb, -⟩ := hread.mpr ⟨hfit, (along_perform _ _).mp hcall⟩
        exact absurd hb (by simp)
    | ok b =>
      rw [hr] at hread
      dsimp only
      constructor
      · rintro ⟨b', hb'⟩
        by_cases hlen : b.length ≠ size
        · rw [if_pos hlen] at hb'
          exact absurd hb' (by simp)
        · obtain ⟨hfit, hcall⟩ := hread.mp ⟨b, rfl, not_not.mp hlen⟩
          rw [if_neg hlen]
          exact ⟨hfit, (along_perform _ _).mpr hcall, True.intro⟩
      · rintro ⟨hfit, hcall, -⟩
        obtain ⟨b', hb', hlen⟩ := hread.mpr ⟨hfit, (along_perform _ _).mp hcall⟩
        obtain rfl := Except.ok.inj hb'
        rw [if_neg (not_not.mpr hlen)]
        exact ⟨b, rfl⟩
  · rw [P.run_bind_of hseek, along_bind_of hseek, if_pos (Int.negSucc_lt_zero rc)]
    constructor
    · rintro ⟨b, hb⟩
      exact absurd hb (by simp)
    · rintro ⟨-, hcall, -⟩
      have hrc : (w.faults w.clock (.fsSeek hd (toOffT start) .set)).rc? = none :=
        (along_perform _ _).mp hcall
      rw [hrc] at hflt
      exact absurd hflt (by simp)
  · rw [hoff] at hbad
    exact absurd ⟨Int.natCast_nonneg _, Int.ofNat_le.mpr hstart⟩ hbad

/-! ## The loop -/

/-- The file stays open on its contents while a block is loaded. -/
theorem loadImageData_open (hf : lookupFile hd w.opened = some f) (start : UInt32) (size : Nat) :
    ∃ f', lookupFile hd (P.run (loadImageData hd start size) w).2.opened = some f' ∧
      f'.data = f.data := by
  have hw : Reading False hd f.data w := ⟨fun h => h.elim, f, hf, rfl⟩
  exact (loadImageData_returns P start size w hw).1.isOpen

/-- One block of the loop. -/
theorem hashLoop_succ {size tmpBufSz off : UInt32} (hlt : off < size) (fuel : Nat)
    (ctx : P.sha.Ctx) :
    Prog.loop (fileImgHashBody P hd size tmpBufSz) (.error (-1)) (fuel + 1) (off, ctx) =
      loadImageData hd off (if size - off > tmpBufSz then tmpBufSz else size - off).toNat >>= fun r =>
        match r with
        | .error rc => Prog.ret (.error rc)
        | .ok b => Prog.loop (fileImgHashBody P hd size tmpBufSz) (.error (-1)) fuel
            (off + (if size - off > tmpBufSz then tmpBufSz else size - off),
              P.sha.update ctx b) := by
  simp only [Prog.loop, fileImgHashBody, if_pos hlt]
  rw [Prog.bind_assoc]
  refine congrArg (loadImageData hd off _ >>= ·) (funext fun r => ?_)
  cases r with
  | error rc => rfl
  | ok b => rfl

/-- From an offset inside the file the loop ends with a digest exactly when the
file holds the rest and every call is served. -/
theorem hashLoop_ok_iff {size tmpBufSz : UInt32} (htmp : 0 < tmpBufSz)
    (hmax : size.toNat ≤ lfsFileMax) (fuel : Nat) {off : UInt32} (ctx : P.sha.Ctx)
    (hf : lookupFile hd w.opened = some f) (hoff : off ≤ size)
    (hin : off.toNat ≤ f.data.bytes.length) (hfuel : size.toNat - off.toNat < fuel) :
    (∃ h, (P.run (Prog.loop (fileImgHashBody P hd size tmpBufSz) (.error (-1)) fuel
        (off, ctx)) w).1 = .ok h) ↔
      size.toNat ≤ f.data.bytes.length ∧
        Along (S := Api) P.exec Op.Served (Prog.loop (fileImgHashBody P hd size tmpBufSz)
          (.error (-1)) fuel (off, ctx)) w := by
  induction fuel generalizing off ctx w f with
  | zero => exact absurd hfuel (Nat.not_lt_zero _)
  | succ fuel ih =>
    by_cases hlt : off < size
    · obtain ⟨hle, hadd, hpos⟩ := blkSz_spec tmpBufSz hlt
      have hlt' : off.toNat < size.toNat := hlt
      rw [hashLoop_succ P hlt]
      generalize (if size - off > tmpBufSz then tmpBufSz else size - off) = blkSz at *
      have hblk : 0 < blkSz.toNat := hpos htmp
      have hload := loadImageData_ok_iff P hf (show off.toNat ≤ lfsFileMax by omega) hblk
      obtain ⟨f', hf', hdata⟩ := loadImageData_open P hf off blkSz.toNat
      rw [P.run_bind, along_bind]
      cases hr : (P.run (loadImageData hd off blkSz.toNat) w).1 with
      | error rc =>
        rw [hr] at hload
        constructor
        · rintro ⟨h, hh⟩
          exact absurd hh (by simp)
        · rintro ⟨hsize, hcalls, -⟩
          obtain ⟨b, hb⟩ := hload.mpr ⟨by omega, hcalls⟩
          exact absurd hb (by simp)
      | ok b =>
        rw [hr] at hload
        obtain ⟨hfit, hcalls⟩ := hload.mp ⟨b, rfl⟩
        have hoff' : off + blkSz ≤ size := by
          rw [UInt32.le_iff_toNat_le, hadd]
          omega
        have hnext := ih (P.sha.update ctx b) hf' hoff' (by rw [hdata, hadd]; omega)
          (by rw [hadd]; omega)
        rw [hdata] at hnext
        rw [and_iff_right hcalls]
        exact hnext
    · have heq : off.toNat = size.toNat := Nat.le_antisymm hoff (Nat.le_of_not_lt hlt)
      simp only [Prog.loop, fileImgHashBody, if_neg hlt]
      exact ⟨fun _ => ⟨by omega, True.intro⟩, fun _ => ⟨_, rfl⟩⟩

/-- The image hash is returned exactly when the file holds the hashed prefix and
no call fails or is cut short, and it is the digest of the seed and that prefix:
neither the size of the buffer nor the position of the file matters. -/
theorem fileImgHash_digest (hf : lookupFile hd w.opened = some f) (hdr : ImageHeader)
    (hsize : hdr.ihHdrSize.toNat + hdr.ihImgSize.toNat + hdr.ihProtectTlvSize.toNat < 2147483648)
    (seed : Option Bytes) {tmpBufSz : UInt32} (htmp : 0 < tmpBufSz) :
    let size := hdr.ihHdrSize.toNat + hdr.ihImgSize.toNat + hdr.ihProtectTlvSize.toNat
    let r := P.run (fileImgHash P hd hdr tmpBufSz seed) w
    ((∃ h, r.1 = .ok h) ↔ size ≤ f.data.bytes.length ∧
        Along (S := Api) P.exec Op.Served (fileImgHash P hd hdr tmpBufSz seed) w) ∧
      ∀ h, r.1 = .ok h → h = P.sha.digest (seed.getD [] ++ f.data.bytes.take size) := by
  intro size r
  have hhashed : (hashedSize hdr).toNat = size := hashedSize_toNat (by omega)
  have hmax : (hashedSize hdr).toNat ≤ lfsFileMax := by
    rw [hhashed]
    unfold lfsFileMax
    omega
  constructor
  · rw [← hhashed]
    exact hashLoop_ok_iff P htmp hmax _ _ hf UInt32.zero_le (Nat.zero_le _) (by
      rw [UInt32.toNat_zero]
      omega)
  · intro h hh
    have hw : Reading False hd f.data w := ⟨fun h => h.elim, f, hf, rfl⟩
    rcases (fileImgHash_returns P hdr tmpBufSz seed w hw).2 with hval | ⟨-, rc, hval⟩
    · have hok := (hashOn_ok P (hval.symm.trans hh)).2
      rw [hok, imageDigest, hhashed]
    · exact absurd (hval.symm.trans hh) (by simp)

/-- The hash of the reference image with a buffer of 7 bytes, the file standing at
its start. -/
theorem signedFile_digest :
    let r := (Reference.platform 8).run
      (fileImgHash (Reference.platform 8) 0 Reference.imageHeader 7 none)
      (openWorld Reference.signedFile)
    ((∃ h, r.1 = .ok h) ↔ 40 ≤ Reference.signedFile.bytes.length ∧
        Along (S := Api) (Reference.platform 8).exec Op.Served
          (fileImgHash (Reference.platform 8) 0 Reference.imageHeader 7 none)
          (openWorld Reference.signedFile)) ∧
      ∀ h, r.1 = .ok h → h = (Reference.platform 8).sha.digest
        ([] ++ Reference.signedFile.bytes.take 40) :=
  fileImgHash_digest (Reference.platform 8)
    (show lookupFile 0 (openWorld Reference.signedFile).opened =
      some { name := .app, data := Reference.signedFile, pos := 0 } from rfl)
    Reference.imageHeader (by decide) none (show (0 : UInt32) < 7 by decide)

end RuuviMcuboot
