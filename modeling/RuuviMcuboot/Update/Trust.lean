/-
What has to vouch for a change of a partition.

An unreliable environment can make the checks of a file reject it, but never accept it:
every answer that a failing call gives ends in a rejection or in what the contents of the
file say.  So, over any failures and any power cuts, the partitions of the loader and of
the application change only for a file that carries its own digest and a signature over
it under a known key.
-/
import RuuviMcuboot.Update.Frames

namespace RuuviMcuboot

open Binary Effect

variable {P : Platform} {w w' : World} {f : UpdateFile} {hd : Handle} {d : FileData}

/-! ## Reading under failures -/

/-- Whatever fails, a call on an open file leaves it open on its contents. -/
theorem exec_reading {o : Op} (ho : o.reads hd) (hw : Reading False hd d w) :
    Reading False hd d (P.exec o w).2 := by
  cases o with
  | fsSeek h off whence =>
    have hh : h = hd := ho
    subst hh
    simp only [Platform.exec]
    (repeat' split) <;> first | exact hw.tick | exact hw.move _
  | fsTell h =>
    simp only [Platform.exec]
    split <;> exact hw.tick
  | fsRead h len =>
    have hh : h = hd := ho
    subst hh
    simp only [Platform.exec, World.readFile]
    (repeat' split) <;> first | exact hw.tick | exact hw.move _
  | _ => exact ho.elim

theorem reading_run {α : Type} {p : Fw α} (hp : Issues (Op.reads hd) p)
    (hw : Reading False hd d w) : Reading False hd d (P.run p w).2 :=
  hp.run_inv (exec_answers P) (fun _ _ ho hv => exec_reading ho hv) hw

/-- The size of an open file is found, or is zero. -/
theorem run_getFileSize_cases {o : OpenFile} (hopen : lookupFile hd w.opened = some o) :
    (P.run (btldrFsGetFileSize hd) w).1 = 0 ∨
      (P.run (btldrFsGetFileSize hd) w).1 = (o.data.bytes.length : Int) := by
  have htell : P.run (fsTell hd) w = ((o.pos : Int), w.tick) := by
    have hlook : lookupFile hd w.tick.opened = some o := hopen
    rw [run_fsTell]
    simp only [Platform.exec, hlook]
  have htarget : o.target 0 .fromEnd = some o.data.bytes.length := by
    have := o.data.size_le
    simp only [OpenFile.target]
    rw [if_pos (by omega), Int.add_zero, Int.toNat_natCast]
  have hlook : lookupFile hd w.tick.tick.opened = some o := hopen
  rw [btldrFsGetFileSize, P.run_bind_of htell]
  cases hflt : (w.tick.faults w.tick.clock (.fsSeek hd 0 .fromEnd)).rc? with
  | some rc =>
    left
    have hseek : P.run (fsSeek hd 0 .fromEnd) w.tick = (rc, w.tick.tick) := by
      rw [run_fsSeek]
      simp only [Platform.exec, hflt]
    rw [P.run_bind_of hseek, if_pos (rc?_ne_zero hflt)]
    rfl
  | none =>
    right
    have hseek : P.run (fsSeek hd 0 .fromEnd) w.tick =
        (0, w.tick.tick.setOpened (moveFile hd o.data.bytes.length w.opened)) := by
      rw [run_fsSeek]
      simp only [Platform.exec, hflt, hlook, htarget]
      rfl
    have hmoved := lookupFile_moveFile o.data.bytes.length hopen
    have htell₂ : ∀ v : World, v.opened = moveFile hd o.data.bytes.length w.opened →
        P.run (fsTell hd) v = ((o.data.bytes.length : Int), v.tick) := by
      intro v hv
      have hlook : lookupFile hd v.tick.opened = some { o with pos := o.data.bytes.length } := by
        show lookupFile hd v.opened = _
        rw [hv]
        exact hmoved
      rw [run_fsTell]
      simp only [Platform.exec, hlook]
    rw [P.run_bind_of hseek, if_neg (not_not.mpr rfl), P.run_bind_of (htell₂ _ rfl)]
    rw [P.run_bind]
    rfl

/-- A read that is not cut short yields the bytes at the position, and leaves the file open. -/
theorem run_fsRead_full {o : OpenFile} (hopen : lookupFile hd w.opened = some o) {len : Nat}
    {b : Bytes} (hread : (P.run (fsRead hd len) w).1 = .ok b) (hlen : b.length = len) :
    b = slice o.data.bytes o.pos len := by
  rcases run_fsRead_cases P hopen len with ⟨-, rc, hrun⟩ | ⟨n, hn, -, hrun⟩
  · rw [hrun] at hread
    exact nomatch hread
  · rw [hrun] at hread
    have hb : b = slice o.data.bytes o.pos n := (Except.ok.inj hread).symm
    rw [hb, slice_length] at hlen
    have hn' : n = len := by omega
    rw [← hn']
    exact hb

/-- `hd` is open at `pos` of a file with the contents `d`. -/
def OpenTo (hd : Handle) (d : FileData) (pos : Nat) (w : World) : Prop :=
  ∃ o, lookupFile hd w.opened = some o ∧ o.data = d ∧ o.pos = pos

theorem OpenTo.reading {pos : Nat} (hw : OpenTo hd d pos w) : Reading False hd d w := by
  rcases hw with ⟨o, hopen, hdata, -⟩
  exact ⟨False.elim, o, hopen, hdata⟩

theorem triple_read (pos len : Nat) :
    Triple (S := Api) P.exec (OpenTo hd d pos) (fsRead hd len)
      (fun r w => Reading False hd d w ∧
        ∀ b, r = .ok b → b.length = len → b = slice d.bytes pos len) (fun _ => True) := by
  intro w hw
  refine ⟨fun _ _ => True.intro, exec_reading rfl hw.reading, ?_⟩
  rcases hw with ⟨o, hopen, hdata, hpos⟩
  intro b hb hlen
  have hread := run_fsRead_full (P := P) hopen hb hlen
  rw [hdata, hpos] at hread
  exact hread

theorem triple_seek (off : Nat) :
    Triple (S := Api) P.exec (Reading False hd d) (fsSeek hd (off : Int) .set)
      (fun rc w => Reading False hd d w ∧ (rc = 0 → OpenTo hd d off w)) (fun _ => True) := by
  intro w hw
  refine ⟨fun _ _ => True.intro, exec_reading rfl hw, ?_⟩
  rcases hw.isOpen with ⟨o, hopen, hdata⟩
  intro hrc
  rcases run_fsSeek_set P hopen off with ⟨-, hseek⟩ | ⟨-, rc, hseek⟩ | ⟨-, hseek⟩
  · have hworld : (run P.exec (fsSeek hd (off : Int) .set) w).2 = _ := congrArg Prod.snd hseek
    rw [hworld, Int.toNat_natCast]
    exact ⟨_, lookupFile_moveFile off hopen, hdata, rfl⟩
  · exact absurd (hrc.symm.trans (congrArg Prod.fst hseek)) (Int.negSucc_ne_zero rc).symm
  · exact nomatch hrc.symm.trans (congrArg Prod.fst hseek)

/-! ## The checks of a file -/

/-- What a result promises by itself. -/
theorem triple_promise {α : Type} {p : Fw α} (I : World → Prop) {Q : α → World → Prop}
    (hp : Ensures (fun a => ∀ w, Q a w) p) : Triple (S := Api) P.exec I p Q (fun _ => True) :=
  fun w _ => ⟨fun _ _ => True.intro, hp.run w _⟩

/-- A fact about some file is a fact about a file that is given. -/
theorem triple_file {α : Type} {p : Fw α} {e : Option FileData} {A : FileData → World → Prop}
    {Q : α → World → Prop} {C : World → Prop}
    (h : ∀ d, e = some d → Triple (S := Api) P.exec (A d) p Q C) :
    Triple (S := Api) P.exec (fun w => ∃ d, e = some d ∧ A d w) p Q C := by
  intro w hw
  rcases hw with ⟨d, hd, hA⟩
  exact h d hd w hA

/-- A result that is not there promises nothing. -/
theorem triple_none {β : Type} (I : World → Prop) {Q : β → World → Prop} :
    Triple (S := Api) P.exec I (Prog.ret (none : Option β)) (fun r w => ∀ b, r = some b → Q b w)
      (fun _ => True) :=
  triple_promise I (fun _ _ hb => nomatch hb)

/-- A header that was loaded, whatever failed, is the one that the contents give. -/
theorem loadHeader_sound :
    Triple (S := Api) P.exec (OpenTo hd d 0) (loadImageHeaderFromFile hd)
      (fun r w => ∀ b, r = some b → Reading False hd d w ∧ loadedHeader d = some b)
      (fun _ => True) := by
  rw [loadImageHeaderFromFile]
  apply triple_bind (triple_read 0 imageHeaderSize)
  intro r
  cases r with
  | error e => exact triple_none _
  | ok b =>
    apply triple_assume
    intro hb
    apply triple_ite
    · exact fun _ => triple_none _
    intro hlen
    have hslice := hb b rfl (not_not.mp hlen)
    have hhdr : ImageHeader.decode b = fileHeader d := congrArg ImageHeader.decode hslice
    rw [hslice] at hlen
    rw [hhdr, loadedHeader, if_neg hlen]
    apply triple_ite
    · exact fun _ => triple_none _
    intro hmagic
    rw [if_neg hmagic]
    apply triple_ite
    · exact fun _ => triple_none _
    intro hflags
    rw [if_neg hflags]
    cases bootU32SafeAdd (fileHeader d).ihImgSize (fileHeader d).ihHdrSize.toUInt32 with
    | none => exact triple_none _
    | some imgSize =>
      apply triple_bind (M := fun size w => Reading False hd d w ∧ toSizeT size ≤ d.bytes.length)
      · intro w hw
        rcases hw.isOpen with ⟨o, hopen, hdata⟩
        refine ⟨fun _ _ => True.intro, reading_run within_getFileSize hw, ?_⟩
        rcases run_getFileSize_cases (P := P) hopen with hzero | hsize
        · rw [show (run P.exec (btldrFsGetFileSize hd) w).1 = 0 from hzero]
          exact Nat.zero_le _
        · rw [show (run P.exec (btldrFsGetFileSize hd) w).1 = _ from hsize, toSizeT_length, hdata]
      intro size
      apply triple_assume
      intro hsize
      apply triple_ite
      · exact fun _ => triple_none _
      intro hfit
      have hle : ¬ imgSize.toNat > d.bytes.length := by omega
      dsimp only
      rw [if_neg hle]
      exact triple_ret (fun _ hw b hb => ⟨hw, hb⟩) (fun _ _ => True.intro)

variable {e : Option FileData}

/-- A file that opens is the one of the directory. -/
theorem triple_openFile :
    Triple (S := Api) P.exec (fun w => regular (w.files f) = e) (btldrFsOpenFile f)
      (fun r w => ∀ hd, r = some hd → ∃ d, e = some d ∧ OpenTo hd d 0 w) (fun _ => True) := by
  intro w hw
  refine ⟨fun _ _ => True.intro, ?_⟩
  intro hd hsome
  rcases run_openFile_cases P w f with hnone | ⟨d, hfile, hopen⟩
  · exact nomatch hsome.symm.trans (congrArg Prod.fst hnone)
  · have hhd : freshHandle w.opened = hd :=
      Option.some.inj ((congrArg Prod.fst hopen).symm.trans hsome)
    have hworld : (run P.exec (btldrFsOpenFile f) w).2 = _ := congrArg Prod.snd hopen
    rw [hhd] at hworld
    rw [hworld]
    exact ⟨d, hw.symm.trans hfile, _, lookupFile_cons_self _ _, rfl, rfl⟩

theorem openHeader_sound :
    Triple (S := Api) P.exec (fun w => regular (w.files f) = e) (openFileAndLoadImageHeader f)
      (fun r w => ∀ b, r = some b →
        ∃ d, e = some d ∧ Reading False b.1 d w ∧ loadedHeader d = some b.2) (fun _ => True) := by
  rw [openFileAndLoadImageHeader]
  apply triple_bind triple_openFile
  intro r
  cases r with
  | none => exact triple_none _
  | some hd =>
    apply triple_bind (M := fun r w => ∀ b, r = some b →
      ∃ d, e = some d ∧ Reading False hd d w ∧ loadedHeader d = some b)
    · intro w hw
      rcases hw hd rfl with ⟨d, hd', hopen⟩
      have hload := loadHeader_sound (P := P) w hopen
      exact ⟨hload.1, fun b hb => ⟨d, hd', hload.2 b hb⟩⟩
    intro r
    cases r with
    | none => exact triple_promise _ (ensures_skip _ (fun _ _ _ hb => nomatch hb))
    | some b =>
      apply triple_ret _ (fun _ _ => True.intro)
      intro w hw b' hb'
      cases hb'
      exact hw b rfl

/-- What `validate_file` demands of the contents before it validates them. -/
def SearchesOn (d : FileData) (hdr : ImageHeader) (dstFaAddr : UInt32) (dstFaSize : Nat) : Prop :=
  ∃ imgSize, loadedHeader d = some (hdr, imgSize) ∧ imgSize.toNat < dstFaSize ∧
    (slice d.bytes (hdr.ihHdrSize.toNat + 4) 4).length = 4 ∧ resetInRange d hdr dstFaAddr dstFaSize

theorem SearchesOn.validateOn {hdr : ImageHeader} {dstFaAddr : UInt32} {dstFaSize : Nat}
    (h : SearchesOn d hdr dstFaAddr dstFaSize)
    (hok : validateData P d hdr dstFaSize hookTmpBufSz none = .success) :
    (validateOn P d dstFaAddr dstFaSize).ok = true := by
  rcases h with ⟨imgSize, hload, hfit, hlen, hreset⟩
  rw [RuuviMcuboot.validateOn, hload]
  dsimp only
  rw [if_neg (Nat.not_le.mpr hfit), if_neg (not_not.mpr hlen), if_neg (not_not.mpr hreset)]
  exact decide_eq_true hok

theorem triple_directory {α : Type} {p : Fw α} (hp : Issues Op.inspects p) :
    Triple (S := Api) P.exec (fun w => regular (w.files f) = e) p
      (fun _ w => regular (w.files f) = e) (fun _ => True) := by
  apply Triple.weaken (triple_of_within (exec_answers P)
    (I := fun w : World => regular (w.files f) = e) _ hp) (fun _ hw => hw) (fun _ _ hw => hw)
    (fun _ _ => True.intro)
  intro o v ho hv
  rw [exec_files_of_inspects P ho]
  exact hv

theorem validateToSearch_sound (dstFaAddr : UInt32) (dstFaSize : Nat) :
    Triple (S := Api) P.exec (fun w => regular (w.files f) = e)
      (validateFileToSearch f dstFaAddr dstFaSize)
      (fun r w => ∀ b, r = .inr b →
        ∃ d, e = some d ∧ Reading False b.1 d w ∧ SearchesOn d b.2 dstFaAddr dstFaSize)
      (fun _ => True) := by
  rw [validateFileToSearch]
  apply triple_bind (triple_directory (within_looks within_isFileExist))
  intro found
  apply triple_ite
  · exact fun _ => triple_promise _ (fun _ _ hb => nomatch hb)
  intro _
  apply triple_bind openHeader_sound
  intro r
  cases r with
  | none => exact triple_promise _ (fun _ _ hb => nomatch hb)
  | some b =>
    rcases b with ⟨hd, hdr, imgSize⟩
    apply Triple.weaken (P := fun w => ∃ d, e = some d ∧ Reading False hd d w ∧
      loadedHeader d = some (hdr, imgSize)) _ (fun _ hw => hw _ rfl) (fun _ _ h => h)
      (fun _ h => h)
    apply triple_file
    intro d hd'
    apply triple_assume
    intro hload
    apply triple_ite
    · exact fun _ => triple_promise _ (ensures_skip _ (fun _ _ _ hb => nomatch hb))
    intro hfit
    apply triple_bind (triple_seek (hdr.ihHdrSize.toNat + 4))
    intro rc
    apply triple_ite
    · exact fun _ => triple_promise _ (ensures_skip _ (fun _ _ _ hb => nomatch hb))
    intro hrc
    apply triple_bind (M := fun r w => Reading False hd d w ∧
      ∀ b, r = .ok b → b.length = 4 → b = slice d.bytes (hdr.ihHdrSize.toNat + 4) 4)
    · intro w hw
      exact triple_read (P := P) _ _ w (hw.2 (not_not.mp hrc))
    intro r
    cases r with
    | error e => exact triple_promise _ (ensures_skip _ (fun _ _ _ hb => nomatch hb))
    | ok b =>
      apply triple_assume
      intro hb
      apply triple_ite
      · exact fun _ => triple_promise _ (ensures_skip _ (fun _ _ _ hb => nomatch hb))
      intro hlen
      have hslice := hb b rfl (not_not.mp hlen)
      rw [hslice] at hlen ⊢
      apply triple_ite
      · exact fun _ => triple_promise _ (ensures_skip _ (fun _ _ _ hb => nomatch hb))
      intro hreset
      apply triple_ret _ (fun _ _ => True.intro)
      intro w hw b' hb'
      cases hb'
      exact ⟨d, hd', hw, imgSize, hload, Nat.lt_of_not_ge hfit, not_not.mp hlen, not_not.mp hreset⟩

/-- Whatever fails, a file that `validate_file` accepts is one whose contents it accepts. -/
theorem validateFile_sound (dstFaAddr : UInt32) (dstFaSize : Nat) :
    Triple (S := Api) P.exec (fun w => regular (w.files f) = e)
      (validateFile P f dstFaAddr dstFaSize)
      (fun out _ => out.ok = true →
        ∃ d, e = some d ∧ (validateOn P d dstFaAddr dstFaSize).ok = true)
      (fun _ => True) := by
  rw [validateFile_eq]
  apply triple_bind (validateToSearch_sound dstFaAddr dstFaSize)
  intro r
  cases r with
  | inl hdr => exact triple_promise _ (fun _ hok => absurd hok Bool.false_ne_true)
  | inr b =>
    rcases b with ⟨hd, hdr⟩
    apply Triple.weaken (P := fun w => ∃ d, e = some d ∧ Reading False hd d w ∧
      SearchesOn d hdr dstFaAddr dstFaSize) _ (fun _ hw => hw _ rfl) (fun _ _ h => h)
      (fun _ h => h)
    apply triple_file
    intro d hd'
    apply triple_assume
    intro hsearch
    apply triple_bind (M := fun _ => Reading False hd d)
    · intro w hw
      exact ⟨fun _ _ => True.intro, reading_run (within_hwRevFind P HwRev.zero) hw⟩
    intro rev
    apply triple_bind (M := fun res _ => res = .success →
      validateData P d hdr dstFaSize hookTmpBufSz none = .success)
    · intro w hw
      rcases hw.isOpen with ⟨o, hopen, hdata⟩
      refine ⟨fun _ _ => True.intro, ?_⟩
      intro hok
      have hval := fileImgValidate_success hopen hok
      rw [hdata] at hval
      exact hval
    intro res
    apply triple_fact
    intro hval
    apply triple_ite
    · exact fun _ => triple_promise _
        (ensures_skip _ (fun _ _ hok => absurd hok Bool.false_ne_true))
    intro hres
    exact triple_promise _ (ensures_skip _ (fun _ _ _ =>
      ⟨d, hd', hsearch.validateOn (hval (not_not.mp hres))⟩))

/-! ## Genuine files -/

/-- A file whose image fits the partition, and which carries its own digest and a signature
over it under a known key. -/
structure Genuine (P : Platform) (d : FileData) (dstFaAddr : UInt32) (dstFaSize : Nat) : Prop where
  inFile : (fileHeader d).ihHdrSize.toNat + (fileHeader d).ihImgSize.toNat +
    (fileHeader d).ihProtectTlvSize.toNat ≤ d.bytes.length
  inPartition : (fileHeader d).ihHdrSize.toNat + (fileHeader d).ihImgSize.toNat < dstFaSize
  reset : resetInRange d (fileHeader d) dstFaAddr dstFaSize
  signed : ∃ it l rest, tlvIterBegin d (fileHeader d) IMAGE_TLV_ANY false = some it ∧
    (areaTlvs d tlvFuel it).1 = l ++ rest ∧
    ∃ hash, hash = P.sha.digest (d.bytes.take ((fileHeader d).ihHdrSize.toNat +
        (fileHeader d).ihImgSize.toNat + (fileHeader d).ihProtectTlvSize.toNat)) ∧
      (∃ t ∈ l, HashRecord P hash t) ∧ LastSignatureAccepted P hash l

theorem genuine_of_validateOn {dstFaAddr : UInt32} {dstFaSize : Nat}
    (hok : (validateOn P d dstFaAddr dstFaSize).ok = true) : Genuine P d dstFaAddr dstFaSize := by
  rcases validateOn_ok P hok with ⟨-, hfile, hfit, hreset, hval⟩
  rcases validateData_success hval with ⟨hsize, it, hbegin, -, hverdict⟩
  have hsum : (hashedSize (fileHeader d)).toNat = (fileHeader d).ihHdrSize.toNat +
      (fileHeader d).ihImgSize.toNat + (fileHeader d).ihProtectTlvSize.toNat := by
    have hlen := fileData_length_lt d
    have hprot := (fileHeader d).ihProtectTlvSize.toNat_lt
    exact hashedSize_toNat (by omega)
  rcases tlvsVerdict_success hverdict with ⟨l, rest, s, harea, hscan, hres, -⟩
  rcases SigState.result_success hres with ⟨hhashed, hsigned⟩
  have hexpl := explains_scan hscan
  rw [hsum] at hsize
  refine ⟨hsize, hfit, hreset, it, l, rest, hbegin, harea, _, ?_, hexpl.hashed hhashed,
    hexpl.signed hsigned⟩
  rw [imageDigest, hsum]
  rfl

/-! ## The gates -/

theorem genuine_running (v : ImageVersion) (d : FileData) (dstFaAddr : UInt32) (dstFaSize : Nat) :
    (validateOn (P.running v) d dstFaAddr dstFaSize).ok = true →
      Genuine P d dstFaAddr dstFaSize := by
  rw [validateOn_running]
  exact genuine_of_validateOn

variable {dst : FaId} {c : Bytes}

/-- An area that is found, whatever fails, is the one of the partition. -/
theorem triple_getFlashArea :
    Triple (S := Api) P.exec (fun w => regular (w.files f) = e ∧ w.flash dst = c)
      (getFlashAreaAddressAndSize dst)
      (fun r w => regular (w.files f) = e ∧ ∀ a, r = some a → a = (P.faOff dst, c.length))
      (fun _ => True) := by
  rw [getFlashAreaAddressAndSize]
  apply triple_bind (M := fun r w => regular (w.files f) = e ∧
    ∀ a, r = .ok a → (a.faOff, a.faSize) = (P.faOff dst, c.length))
  · intro w hw
    have hdir := triple_directory (P := P) (f := f) (e := e)
      (issues_perform (.flashAreaOpen dst) True.intro) w hw.1
    refine ⟨fun _ _ => True.intro, hdir.2, ?_⟩
    intro a ha
    have hexec : (P.exec (.flashAreaOpen dst) w).1 = .ok a := ha
    simp only [Platform.exec] at hexec
    split at hexec
    · cases hexec
    · rw [← Except.ok.inj hexec, World.tick_flash, hw.2]
  intro r
  cases r with
  | error rc =>
    apply triple_ret _ (fun _ _ => True.intro)
    intro w hw
    refine ⟨hw.1, ?_⟩
    intro a ha
    cases ha
  | ok a =>
    apply triple_assume
    intro ha
    apply triple_bind (triple_directory (issues_perform (.flashAreaClose a.faId) True.intro))
    intro _
    apply triple_ret _ (fun _ _ => True.intro)
    intro w hw
    refine ⟨hw, ?_⟩
    intro a' ha'
    rw [← Option.some.inj ha']
    exact ha a rfl

theorem checkFile_sound (dstFaAddr : UInt32) (dstFaSize : Nat) :
    Triple (S := Api) P.exec (fun w => regular (w.files f) = e)
      (checkFile P f dstFaAddr dstFaSize false)
      (fun out _ => out.ok = true →
        ∃ d, e = some d ∧ (validateOn P d dstFaAddr dstFaSize).ok = true)
      (fun _ => True) := by
  rw [checkFile]
  apply triple_bind (triple_directory (within_looks within_isFileExist))
  intro found
  apply triple_ite
  · exact fun _ => triple_promise _ (fun _ hok => absurd hok Bool.false_ne_true)
  intro _
  rw [if_neg Bool.false_ne_true]
  apply triple_bind (validateFile_sound dstFaAddr dstFaSize)
  intro out
  apply triple_fact
  intro hout
  apply triple_ite
  · intro hfalse
    exact triple_promise _
      (ensures_skip _ (fun _ _ hok => absurd (hfalse.symm.trans hok) Bool.false_ne_true))
  · exact fun _ => triple_promise _ (fun _ => hout)

/-- Whatever fails, a file that passes the checks of an installation of the loader or the
application is one whose contents `validate_file` accepts. -/
theorem updateGates_sound (hwRev : HwRev) :
    Triple (S := Api) P.exec (fun w => regular (w.files f) = e ∧ w.flash dst = c)
      (updateGates P f dst hwRev false)
      (fun ok _ => ok = true → ∃ d, e = some d ∧ (validateOn P d (P.faOff dst) c.length).ok = true)
      (fun _ => True) := by
  rw [updateGates]
  apply triple_bind triple_getFlashArea
  intro r
  cases r with
  | none => exact triple_promise _ (fun _ hok => absurd hok Bool.false_ne_true)
  | some a =>
    apply Triple.weaken (P := fun w => regular (w.files f) = e ∧ a = (P.faOff dst, c.length)) _
      (fun _ hw => ⟨hw.1, hw.2 a rfl⟩) (fun _ _ h => h) (fun _ h => h)
    apply triple_assume
    intro ha
    subst ha
    apply triple_bind (checkFile_sound (P.faOff dst) c.length)
    intro out
    apply triple_fact
    intro hout
    apply triple_ite
    · exact fun _ => triple_promise _ (fun _ hok => absurd hok Bool.false_ne_true)
    intro hok
    exact fun w _ => ⟨fun _ _ => True.intro, fun _ => hout (Bool.eq_true_of_not_eq_false hok)⟩

/-! ## Boots -/

/-- A file system on which no file is accepted for the partition. -/
structure Unvouched (P : Platform) (f : UpdateFile) (e : Option FileData) (c : Bytes) (w : World) :
    Prop where
  file : regular (w.files f) = e ∨ regular (w.files f) = none
  flash : w.flash f.dst = c

/-- The files of the loader and of the application. -/
def UpdateFile.signed (f : UpdateFile) : Prop := f = .loader ∨ f = .app

theorem unvouched_besides (hf : f.signed) (o : Op) (v : World) (ho : o.besides f)
    (hv : Unvouched P f e c v) : Unvouched P f e c (P.exec o v).2 := by
  have hne : f ≠ .mcuboot0 := by
    rcases hf with hf | hf <;> rw [hf] <;> decide
  constructor
  · rcases exec_file_kept P o v f with hsame | hgone
    · rw [hsame]
      exact hv.file
    · rw [hgone]
      exact Or.inr rfl
  · rw [exec_flash_of_spares P (ho.spares hne)]
    exact hv.flash

/-- As long as no file is accepted, an installation ends behind its checks. -/
theorem unvouched_install (hf : f.signed)
    (hnone : ∀ d, e = some d → (validateOn P d (P.faOff f.dst) c.length).ok = false)
    (hwRev : HwRev) :
    Kept P (Unvouched P f e c) (checkFileAndUpdate P f f.dst hwRev f.flagValidateB0Signature) := by
  have hflag : f.flagValidateB0Signature = false := by
    rcases hf with hf | hf <;> rw [hf] <;> rfl
  have hgates : Kept P (Unvouched P f e c) (updateGates P f f.dst hwRev false) :=
    kept_of_issues (unvouched_besides hf) (fun _ ho => ho.besides)
      (within_updateGates P hwRev false)
  rw [hflag, checkFileAndUpdate]
  apply triple_bind (M := fun ok w => Unvouched P f e c w ∧ ok = false)
  · intro w hw
    refine ⟨(hgates w hw).1, (hgates w hw).2, ?_⟩
    have hsound := (updateGates_sound (P := P) (f := f) hwRev w ⟨rfl, hw.flash⟩).2
    cases hok : (run P.exec (updateGates P f f.dst hwRev false) w).1 with
    | false => rfl
    | true =>
      rcases hsound hok with ⟨d, hd, hval⟩
      rcases hw.file with hfile | hfile
      · exact absurd ((hnone d (hfile.symm.trans hd)).symm.trans hval) Bool.false_ne_true
      · exact nomatch hfile.symm.trans hd
  intro ok
  apply triple_assume
  intro hok
  rw [if_pos hok]
  exact kept_ret _

/-- A boot on `x`, with any failures, any contents of the RAM and any version running. -/
def BootsWith (P : Platform) (x : Disk) (w : World) (p : Fw Startup) : Prop :=
  w.disk = x ∧ ∃ v build slot, p = onStartup (P.running v) build slot

/-- Over any failures, power cuts and restarts, the partitions of the loader and of the
application change only for a genuine file. -/
theorem genuine_contents (hf : f.signed) {x y : Disk}
    (h : Survives (S := Api) P.exec (BootsWith P) World.disk x y) :
    y.flash f.dst = x.flash f.dst ∨
      ∃ d, x.files f = some (.file d) ∧
        Genuine P d (P.faOff f.dst) (x.flash f.dst).length := by
  by_cases hgenuine : ∃ d, regular (x.files f) = some d ∧
      Genuine P d (P.faOff f.dst) (x.flash f.dst).length
  · right
    rcases hgenuine with ⟨d, hd, hgenuine⟩
    exact ⟨d, regular_some hd, hgenuine⟩
  left
  have hnone : ∀ v d, regular (x.files f) = some d →
      (validateOn (P.running v) d (P.faOff f.dst) (x.flash f.dst).length).ok = false := by
    intro v d hd
    apply Bool.eq_false_of_not_eq_true
    intro hok
    exact hgenuine ⟨d, hd, genuine_running v d _ _ hok⟩
  have hinv : (regular (y.files f) = regular (x.files f) ∨ regular (y.files f) = none) ∧
      y.flash f.dst = x.flash f.dst := by
    apply h.invariant (I := fun z => (regular (z.files f) = regular (x.files f) ∨
      regular (z.files f) = none) ∧ z.flash f.dst = x.flash f.dst) _ ⟨Or.inl rfl, rfl⟩
    intro z w p w' hz hboot hr
    rcases hboot with ⟨rfl, v, build, slot, rfl⟩
    have hkept := kept_onStartup (P := P.running v) (unvouched_besides hf)
      (unvouched_install hf (hnone v)) build slot
    have hend := (hkept w ⟨hz.1, hz.2⟩).1 w' hr
    exact ⟨hend.file, hend.flash⟩
  exact hinv.2

open Reference in
/-- A boot that is cut has written a part of a genuine file. -/
theorem genuine_contents_cut :
    let P := platform 160
    let w := bootRunning recordedFile.bytes recordedFile
    (cut (S := Api) P.exec 150 (onStartup P buildRev5 .slot0) w).flash .mcubootPrimary ≠
        w.flash .mcubootPrimary ∧
      Genuine P recordedFile (P.faOff .mcubootPrimary) (w.flash .mcubootPrimary).length := by
  intro P w
  have hchanged : (cut (S := Api) P.exec 150 (onStartup P buildRev5 .slot0) w).flash
      .mcubootPrimary ≠ w.flash .mcubootPrimary := by decide +kernel
  have hboot : BootsWith P w.disk w (onStartup P buildRev5 .slot0) :=
    ⟨rfl, P.mcubootS0S1ImageVersion, buildRev5, .slot0, rfl⟩
  have hgenuine : ∀ v : World, Reaches (S := Api) P.exec (onStartup P buildRev5 .slot0) w v →
      v.flash .mcubootPrimary ≠ w.flash .mcubootPrimary →
        Genuine P recordedFile (P.faOff .mcubootPrimary) (w.flash .mcubootPrimary).length := by
    intro v hr hne
    rcases genuine_contents (P := P) (f := .app) (Or.inr rfl) (.boot (.start _) hboot hr)
      with hsame | ⟨d, hd, hgenuine⟩
    · exact absurd hsame hne
    · cases hd
      exact hgenuine
  exact ⟨hchanged, hgenuine _ (reaches_cut _ _ _ _) hchanged⟩

end RuuviMcuboot
