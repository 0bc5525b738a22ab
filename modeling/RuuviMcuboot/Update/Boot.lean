/-
A boot as a function of the disk.

In a world where nothing fails a boot of the updater is a function of the files, the
partitions and the shared buffer it starts with.  `checkUpdatesOn` is that function; the
faithful program computes it, and what a boot settles is read off it.
-/
import RuuviMcuboot.Update.PowerCut

namespace RuuviMcuboot

open Binary Effect

variable {P : Platform} {w w' : World} {f : UpdateFile} {slot : SlotId} {hwRev : HwRev} {x : Disk}

/-! ## The shared buffer -/

/-- Calls that do not read into the shared buffer. -/
def Op.sparesBuffer : Op → Prop
  | .fsReadShared _ _ => False
  | _ => True

theorem exec_sharedBuf {o : Op} (ho : o.sparesBuffer) (w : World) :
    (P.exec o w).2.sharedBuf = w.sharedBuf := by
  cases o with
  | fsReadShared hd len => exact ho.elim
  | fsRead hd len =>
    simp only [Platform.exec, World.readFile]
    (repeat' split) <;> rfl
  | _ =>
    simp only [Platform.exec]
    (repeat' split) <;> rfl

theorem run_sharedBuf_kept {α : Type} {p : Fw α} (hp : Issues Op.sparesBuffer p) (w : World) :
    (P.run p w).2.sharedBuf = w.sharedBuf :=
  hp.run_eq (exec_answers P) (f := World.sharedBuf) (fun _ v ho => exec_sharedBuf ho v) w

theorem Op.looksAt.sparesBuffer {o : Op} (ho : o.looksAt f) : o.sparesBuffer := by
  cases o <;> first | exact True.intro | exact ho.elim

theorem Op.copies.sparesBuffer {hd : Handle} {fa : FaId} {o : Op} (ho : o.copies hd fa) :
    o.sparesBuffer := by
  cases o <;> first | exact True.intro | exact ho.elim

theorem within_unlink_sparesBuffer {α : Type} (f : UpdateFile) (a : α) :
    Issues Op.sparesBuffer (btldrFsUnlinkFile f >>= fun _ => pure a) :=
  within_bind (within_bind (issues_perform (.fsUnlink f) True.intro) (fun _ => within_ret _))
    (fun _ => within_ret _)

theorem within_header_sparesBuffer (fa : FaId) :
    Issues Op.sparesBuffer (loadImageHeader P fa) := by
  apply within_bind (issues_perform (.flashAreaOpen fa) True.intro)
  intro r
  cases r with
  | error e => exact within_ret _
  | ok a =>
    apply within_bind (issues_perform (.flashAreaRead a.faId 0 imageHeaderSize) True.intro)
    intro r
    cases r with
    | error e =>
      exact within_bind (issues_perform (.flashAreaClose a.faId) True.intro) (fun _ => within_ret _)
    | ok b =>
      exact within_bind (issues_perform (.flashAreaClose a.faId) True.intro) (fun _ => within_ret _)

/-- The checks behind those of the file. -/
theorem within_dstGates_sparesBuffer (f : UpdateFile) (dst : FaId) (hwRev : HwRev)
    (out : FileCheck) :
    Issues Op.sparesBuffer (do
      if out.ok = false then
        return false
      else
        match ← fwInfoFindInFile P f with
        | none =>
          let _ ← btldrFsUnlinkFile f
          return false
        | some fileFwInfo =>
          match P.fwInfoFind (← flashMapped dst) with
          | none =>
            let _ ← btldrFsUnlinkFile f
            return false
          | some dstFwInfo =>
            if hwRevMismatch hwRev out.hwRev then
              let _ ← btldrFsUnlinkFile f
              return false
            else if dstFwInfo.version > fileFwInfo.version then
              let _ ← btldrFsUnlinkFile f
              return false
            else if P.downgradePrevention then
              if (← checkDowngradePrevention P dst out.hdr) = false then
                let _ ← btldrFsUnlinkFile f
                return false
              else
                return true
            else
              return true) := by
  have hreject : Issues Op.sparesBuffer (btldrFsUnlinkFile f >>= fun _ => pure false) :=
    within_unlink_sparesBuffer f false
  apply within_ite (within_ret _)
  apply within_bind ((within_fwInfoFindInFile P).mono (fun _ ho => Op.looksAt.sparesBuffer ho))
  intro info
  cases info with
  | none => exact hreject
  | some info =>
    apply within_bind (issues_perform (.flashMapped dst) True.intro)
    intro content
    cases P.fwInfoFind content with
    | none => exact hreject
    | some dstInfo =>
      apply within_ite hreject
      apply within_ite hreject
      apply within_ite _ (within_ret _)
      apply within_bind _ (fun _ => within_ite hreject (within_ret _))
      apply within_bind (within_header_sparesBuffer dst)
      intro hdr
      cases hdr with
      | none => exact within_ret _
      | some hdr => exact within_ret _

variable {dst : FaId}

/-- The shared buffer behind the checks of a file. -/
def bufferAfter (P : Platform) (f : UpdateFile) (entry : Option DirEntry) (buf : Bytes)
    (dstFaSize : Nat) : Bytes :=
  if f.flagValidateB0Signature then b0Buffer P (regular entry) buf dstFaSize else buf

theorem b0Buffer_none (buf : Bytes) (dstFaSize : Nat) : b0Buffer P none buf dstFaSize = buf := by
  have hload : b0Loads P none dstFaSize = none := by
    unfold b0Loads
    split <;> rfl
  rw [b0Buffer, hload]

theorem run_checkFile_sharedBuf (hw : Reliable w) (dstFaAddr : UInt32) (dstFaSize : Nat) :
    (P.run (checkFile P f dstFaAddr dstFaSize f.flagValidateB0Signature) w).2.sharedBuf =
      bufferAfter P f (w.files f) w.sharedBuf dstFaSize := by
  have hvalidate : Issues Op.sparesBuffer (validateFile P f dstFaAddr dstFaSize) :=
    (within_validateFile P dstFaAddr dstFaSize).mono (fun _ ho => Op.looksAt.sparesBuffer ho)
  rw [checkFile, P.run_bind_of (run_isFileExist P hw)]
  cases hfile : regular (w.files f) with
  | none =>
    rw [if_pos (show (none : Option FileData).isSome = false from rfl), bufferAfter, hfile,
      b0Buffer_none, ite_self]
    rfl
  | some d =>
    rw [if_neg (show ¬ (some d).isSome = false from fun h => nomatch h), bufferAfter, hfile]
    cases f.flagValidateB0Signature with
    | false =>
      rw [if_neg Bool.false_ne_true, if_neg Bool.false_ne_true]
      apply run_sharedBuf_kept (w := w.tick)
      apply within_bind hvalidate
      intro out
      exact within_ite (within_unlink_sparesBuffer f out) (within_ret _)
    | true =>
      rcases run_validateB0Signature P (f := f) hw.tick dstFaAddr dstFaSize with ⟨n, hb0⟩
      rw [World.tick_files, World.tick_sharedBuf, hfile] at hb0
      rw [if_pos rfl, if_pos rfl, P.run_bind_of hb0]
      apply run_sharedBuf_kept
      apply within_ite (within_unlink_sparesBuffer f FileCheck.failed)
      exact within_bind hvalidate (fun _ => within_ret _)

theorem run_updateGates_sharedBuf (hw : Reliable w) (hwRev : HwRev) :
    (P.run (updateGates P f dst hwRev f.flagValidateB0Signature) w).2.sharedBuf =
      bufferAfter P f (w.files f) w.sharedBuf (w.flash dst).length := by
  rw [updateGates, P.run_bind_of (run_getFlashArea P hw)]
  dsimp only
  rw [P.run_bind]
  exact (run_sharedBuf_kept (within_dstGates_sparesBuffer f dst hwRev _) _).trans
    (run_checkFile_sharedBuf hw.tick.tick _ _)

theorem within_copyUpdate_sparesBuffer :
    Issues Op.sparesBuffer (copyUpdate f dst) := by
  apply within_bind (within_openFile.mono (fun _ ho => Op.looksAt.sparesBuffer ho))
  intro r
  cases r with
  | none => exact within_unlink_sparesBuffer f false
  | some hd =>
    apply within_bind (within_copy.mono (fun _ ho => Op.copies.sparesBuffer ho))
    intro ok
    exact within_bind (issues_perform (.fsClose hd) True.intro)
      (fun _ => within_unlink_sparesBuffer f true)

theorem run_update_sharedBuf (hw : Reliable w) (hwRev : HwRev) :
    (P.run (checkFileAndUpdate P f dst hwRev f.flagValidateB0Signature) w).2.sharedBuf =
      bufferAfter P f (w.files f) w.sharedBuf (w.flash dst).length := by
  rw [checkFileAndUpdate, P.run_bind]
  exact (run_sharedBuf_kept (within_ite (within_ret _) within_copyUpdate_sparesBuffer) _).trans
    (run_updateGates_sharedBuf hw hwRev)

/-! ## One file -/

/-- The file in the partition, with erased bytes behind it.  A file that is too long is not
copied. -/
def placed (b content : Bytes) : Bytes :=
  if b.length ≤ content.length then b ++ blank (content.length - b.length) else content

def Disk.discard (x : Disk) (f : UpdateFile) : Disk :=
  { x with files := RuuviMcuboot.discard f x.files }

def Disk.place (x : Disk) (f : UpdateFile) (d : FileData) : Disk where
  files := RuuviMcuboot.discard f x.files
  flash := Function.update x.flash f.dst (placed d.bytes (x.flash f.dst))

/-- `check_file_and_update` on a disk. -/
def updateOn (P : Platform) (hwRev : HwRev) (f : UpdateFile) (buf : Bytes) (x : Disk) :
    Bool × Disk :=
  match regular (x.files f) with
  | none => (false, x)
  | some d =>
    if gatesAccept P f (x.files f) buf f.dst (x.flash f.dst) hwRev f.flagValidateB0Signature then
      (true, x.place f d)
    else (false, x.discard f)

/-- Partitions of whole words. -/
def Disk.Words (x : Disk) : Prop := ∀ f : UpdateFile, (x.flash f.dst).length % 4 = 0

theorem placed_length (b content : Bytes) : (placed b content).length = content.length := by
  unfold placed
  split
  · rw [List.length_append, blank_length]
    omega
  · rfl

theorem Installed.placed {d : FileData} (h : Installed d dst w w')
    (hwords : (w.flash dst).length % 4 = 0) :
    w'.flash dst = placed d.bytes (w.flash dst) := by
  unfold RuuviMcuboot.placed
  split
  · rename_i hle
    exact h.whole (padding_le hle hwords)
  · rename_i hlong
    exact h.tooLong (Nat.lt_of_not_le hlong)

/-- A run of a part of a boot that comes to the disk `y` and the buffer `buf`. -/
structure Computes (P : Platform) {α : Type} (p : Fw α) (w : World) (a : α) (y : Disk)
    (buf : Bytes) : Prop where
  result : (P.run p w).1 = a
  disk : (P.run p w).2.disk = y
  sharedBuf : (P.run p w).2.sharedBuf = buf
  opened : (P.run p w).2.opened = []

theorem computes_update (hw : Reliable w) (ht : w.opened = []) (hx : w.disk = x) (hwords : x.Words)
    (hwRev : HwRev) (f : UpdateFile) :
    Computes P (checkFileAndUpdate P f f.dst hwRev f.flagValidateB0Signature) w
      (updateOn P hwRev f w.sharedBuf x).1 (updateOn P hwRev f w.sharedBuf x).2
      (bufferAfter P f (x.files f) w.sharedBuf (x.flash f.dst).length) := by
  subst hx
  rcases run_checkFileAndUpdate P (f := f) hw ht hwRev f.flagValidateB0Signature
    with ⟨w', hrun, hopened, hfiles, hrejected, haccepted⟩
  rcases run_update (P := P) hw ht f f.dst hwRev f.flagValidateB0Signature
    with ⟨ok, v, hrun', hupdated⟩
  have hv : v = w' := congrArg Prod.snd (hrun'.symm.trans hrun)
  have hflash := hupdated.flash
  rw [hv] at hflash
  have hbuf : (P.run (checkFileAndUpdate P f f.dst hwRev f.flagValidateB0Signature)
      w).2.sharedBuf = bufferAfter P f (w.files f) w.sharedBuf (w.flash f.dst).length :=
    run_update_sharedBuf hw hwRev
  have hsame : (updateOn P hwRev f w.sharedBuf w.disk).1 = gatesAccept P f (w.files f) w.sharedBuf
      f.dst (w.flash f.dst) hwRev f.flagValidateB0Signature ∧
        w'.disk = (updateOn P hwRev f w.sharedBuf w.disk).2 := by
    have hentry : w.disk.files f = w.files f := rfl
    rw [updateOn, hentry]
    cases hfile : regular (w.files f) with
    | none =>
      have hacc : gatesAccept P f (w.files f) w.sharedBuf f.dst (w.flash f.dst) hwRev
          f.flagValidateB0Signature = false := by
        apply Bool.eq_false_of_not_eq_true
        intro hacc
        rcases gatesAccept_regular P hacc with ⟨d, hd⟩
        exact nomatch hfile.symm.trans hd
      refine ⟨hacc.symm, ?_⟩
      rw [RuuviMcuboot.discard, hfile] at hfiles
      exact congrArg₂ Disk.mk hfiles (hrejected hacc)
    | some d =>
      cases hacc : gatesAccept P f (w.files f) w.sharedBuf f.dst (w.flash f.dst) hwRev
          f.flagValidateB0Signature with
      | false =>
        have hverdict : gatesAccept P f (w.files f) w.sharedBuf f.dst (w.disk.flash f.dst) hwRev
          f.flagValidateB0Signature = false := hacc
        dsimp only
        rw [hverdict, if_neg Bool.false_ne_true]
        exact ⟨rfl, congrArg₂ Disk.mk hfiles (hrejected hacc)⟩
      | true =>
        have hverdict : gatesAccept P f (w.files f) w.sharedBuf f.dst (w.disk.flash f.dst) hwRev
          f.flagValidateB0Signature = true := hacc
        dsimp only
        rw [hverdict, if_pos rfl]
        refine ⟨rfl, congrArg₂ Disk.mk hfiles (funext fun fa => ?_)⟩
        by_cases hfa : fa = f.dst
        · rw [hfa, Function.update_self]
          exact (haccepted hacc d hfile).placed (hwords f)
        · rw [Function.update_of_ne hfa]
          exact hflash fa hfa
  refine ⟨(congrArg Prod.fst hrun).trans hsame.1.symm, ?_, hbuf, ?_⟩
  · rw [hrun]
    exact hsame.2
  · rw [hrun]
    exact hopened

/-- Only the check of the first-stage bootloader looks at the shared buffer. -/
theorem updateOn_buf (hflag : f.flagValidateB0Signature = false) (buf buf' : Bytes) :
    updateOn P hwRev f buf x = updateOn P hwRev f buf' x := by
  have hgates : ∀ buf : Bytes, gatesAccept P f (x.files f) buf f.dst (x.flash f.dst) hwRev
      f.flagValidateB0Signature = gatesAccept P f (x.files f) [] f.dst (x.flash f.dst) hwRev
        f.flagValidateB0Signature := by
    intro buf
    rw [hflag]
    rfl
  rw [updateOn, updateOn, hgates buf, hgates buf']

theorem updateOn_words (hwords : x.Words) (buf : Bytes) : (updateOn P hwRev f buf x).2.Words := by
  intro g
  unfold updateOn
  split
  · exact hwords g
  · split
    · show (Function.update x.flash f.dst _ g.dst).length % 4 = 0
      by_cases hg : g.dst = f.dst
      · rw [hg, Function.update_self, placed_length]
        exact hwords f
      · rw [Function.update_of_ne hg]
        exact hwords g
    · exact hwords g

/-! ## The updates of a boot -/

/-- The partition of slot 0 is invalidated before slot 1 is to start. -/
def Disk.handOver (P : Platform) (x : Disk) : SlotId → Disk
  | .slot0 => { x with flash := Function.update x.flash .s0 (invalidated P (x.flash .s0)) }
  | .slot1 => x

/-- The verdict of the check for a hand-over. -/
def handsOver (P : Platform) (slot : SlotId) (hwRev : HwRev) (buf : Bytes) (x : Disk) : Bool :=
  handoverAccepts P slot.ownFile (x.files slot.ownFile) buf slot.activeFaId
    (x.flash slot.activeFaId).length hwRev

/-- The loader and the application on a disk. -/
def loaderAndAppOn (P : Platform) (hwRev : HwRev) (x : Disk) : Bool × Disk :=
  let loader := updateOn P hwRev .loader [] x
  let app := updateOn P hwRev .app [] loader.2
  (loader.1 || app.1, app.2)

/-- `check_updates_on_fs` on a disk. -/
def checkUpdatesOn (P : Platform) (slot : SlotId) (hwRev : HwRev) (buf : Bytes) (x : Disk) :
    Bool × Disk :=
  let other := updateOn P hwRev slot.otherFile buf x
  let buf' := bufferAfter P slot.otherFile (x.files slot.otherFile) buf
    (x.flash slot.otherFaId).length
  if handsOver P slot hwRev buf' other.2 then (true, other.2.handOver P slot)
  else
    let rest := loaderAndAppOn P hwRev (other.2.discard slot.ownFile)
    (other.1 || rest.1, rest.2)

/-- The world such a run ends in. -/
theorem Computes.ends {α : Type} {p : Fw α} {a : α} {y : Disk} {buf : Bytes}
    (h : Computes P p w a y buf) (hw : Reliable w) :
    ∃ w', P.run p w = (a, w') ∧ Reliable w' ∧ w'.opened = [] ∧ w'.disk = y ∧ w'.sharedBuf = buf :=
  ⟨(P.run p w).2, Prod.ext h.result rfl, hw.run P p, h.opened, h.disk, h.sharedBuf⟩

theorem run_loaderAndAppOn (hw : Reliable w) (ht : w.opened = []) (hwords : w.disk.Words)
    (hwRev : HwRev) (found : Bool) :
    ∃ w', P.run (checkLoaderAndApp P hwRev found) w =
        (found || (loaderAndAppOn P hwRev w.disk).1, w') ∧
      w'.disk = (loaderAndAppOn P hwRev w.disk).2 := by
  have hloader := computes_update (P := P) hw ht rfl hwords hwRev .loader
  rw [updateOn_buf rfl w.sharedBuf []] at hloader
  rcases hloader.ends hw with ⟨w₁, hrun₁, hw₁, ht₁, hdisk₁, -⟩
  have happ := computes_update (P := P) hw₁ ht₁ hdisk₁ (updateOn_words hwords []) hwRev .app
  rw [updateOn_buf rfl _ []] at happ
  rcases happ.ends hw₁ with ⟨w₂, hrun₂, -, -, hdisk₂, -⟩
  have hrun₁ : P.run (checkFileAndUpdate P .loader .mcubootSecondary hwRev false) w = _ := hrun₁
  have hrun₂ : P.run (checkFileAndUpdate P .app .mcubootPrimary hwRev false) w₁ = _ := hrun₂
  refine ⟨w₂, ?_, hdisk₂⟩
  rw [checkLoaderAndApp, P.run_bind_of hrun₁, P.run_bind_of hrun₂, P.run_pure, Bool.or_assoc]
  rfl

theorem run_checkUpdatesOn (hw : Reliable w) (ht : w.opened = []) (hwords : w.disk.Words)
    (slot : SlotId) (hwRev : HwRev) :
    ∃ w', P.run (checkUpdatesOnFs P slot hwRev) w =
        ((checkUpdatesOn P slot hwRev w.sharedBuf w.disk).1, w') ∧
      w'.disk = (checkUpdatesOn P slot hwRev w.sharedBuf w.disk).2 := by
  have hother : Computes P (checkFileAndUpdate P slot.otherFile slot.otherFaId hwRev true) w
      (updateOn P hwRev slot.otherFile w.sharedBuf w.disk).1
      (updateOn P hwRev slot.otherFile w.sharedBuf w.disk).2
      (bufferAfter P slot.otherFile (w.disk.files slot.otherFile) w.sharedBuf
        (w.disk.flash slot.otherFaId).length) := by
    cases slot with
    | slot0 => exact computes_update hw ht rfl hwords hwRev .mcuboot1
    | slot1 => exact computes_update hw ht rfl hwords hwRev .mcuboot0
  rcases hother.ends hw with ⟨w₁, hrun₁, hw₁, ht₁, hdisk₁, hbuf₁⟩
  rcases run_handoverCheck (P := P) hw₁ ht₁ slot hwRev with ⟨n, buf, hcheck⟩
  have hverdict : handoverAccepts P slot.ownFile (w₁.files slot.ownFile) w₁.sharedBuf
      slot.activeFaId (w₁.flash slot.activeFaId).length hwRev = handsOver P slot hwRev
        (bufferAfter P slot.otherFile (w.disk.files slot.otherFile) w.sharedBuf
          (w.disk.flash slot.otherFaId).length)
        (updateOn P hwRev slot.otherFile w.sharedBuf w.disk).2 := by
    rw [← hdisk₁, ← hbuf₁]
    rfl
  rw [hverdict] at hcheck
  rw [checkUpdatesOnFs_eq, P.run_bind_of hrun₁, P.run_bind_of hcheck, checkUpdatesOn]
  dsimp only
  cases hacc : handsOver P slot hwRev (bufferAfter P slot.otherFile (w.disk.files slot.otherFile)
      w.sharedBuf (w.disk.flash slot.otherFaId).length)
      (updateOn P hwRev slot.otherFile w.sharedBuf w.disk).2 with
  | true =>
    rcases run_handOver (P := P) (hw₁.after n buf (settled true slot.ownFile w₁.files)) slot
      with ⟨w₂, hrun₂, hfiles₂, hflash₂⟩
    rw [if_pos rfl, if_pos rfl]
    refine ⟨w₂, hrun₂, ?_⟩
    rw [← hdisk₁]
    cases slot with
    | slot0 => exact congrArg₂ Disk.mk hfiles₂ hflash₂
    | slot1 => exact congrArg₂ Disk.mk hfiles₂ hflash₂
  | false =>
    have hdisk : (w₁.after n buf (settled false slot.ownFile w₁.files)).disk =
        (updateOn P hwRev slot.otherFile w.sharedBuf w.disk).2.discard slot.ownFile := by
      rw [← hdisk₁]
      rfl
    have hwords₁ : (w₁.after n buf (settled false slot.ownFile w₁.files)).disk.Words := by
      rw [hdisk]
      exact updateOn_words hwords w.sharedBuf
    rcases run_loaderAndAppOn (P := P) (hw₁.after n buf (settled false slot.ownFile w₁.files)) ht₁
      hwords₁ hwRev (updateOn P hwRev slot.otherFile w.sharedBuf w.disk).1
      with ⟨w₂, hrun₂, hdisk₂⟩
    rw [hdisk] at hrun₂ hdisk₂
    rw [if_neg Bool.false_ne_true, if_neg Bool.false_ne_true]
    exact ⟨w₂, hrun₂, hdisk₂⟩

/-- In a world where nothing fails a boot computes `checkUpdatesOn`: it reboots where the
function says so, and leaves the disk the function gives. -/
theorem run_fwUpdate_eq (P : Platform) (slot : SlotId) (hwRev : HwRev) (w : World)
    (hw : Reliable w) (ht : w.opened = []) (hwords : w.disk.Words) :
    (P.run (mcubootFwUpdate P slot hwRev) w).1 =
        (if (checkUpdatesOn P slot hwRev w.sharedBuf w.disk).1 then .rebooted else .returned) ∧
      (P.run (mcubootFwUpdate P slot hwRev) w).2.disk =
        (checkUpdatesOn P slot hwRev w.sharedBuf w.disk).2 := by
  rcases run_checkUpdatesOn (P := P) (hw.after (w.clock + 2) w.sharedBuf w.files) ht
    (hwords : (w.after (w.clock + 2) w.sharedBuf w.files).disk.Words) slot hwRev
    with ⟨w', hrun, hdisk⟩
  rw [mcubootFwUpdate_eq, P.run_bind_of (run_mount hw), if_pos rfl, P.run_bind_of hrun, run_bootEnd]
  exact ⟨rfl, hdisk⟩

namespace Reference

theorem bootWith_words (d : FileData) : (bootWith d).disk.Words := by
  intro f
  show oldFirmware.length % 4 = 0
  decide +kernel

end Reference

open Reference in
/-- A boot with one file under all names reboots, and the file is in the partition of the
application. -/
theorem trailingFile_boot :
    let P := platform 8
    let w := bootWith trailingFile
    (P.run (mcubootFwUpdate P .slot0 HwRev.zero) w).1 = .rebooted ∧
      (P.run (mcubootFwUpdate P .slot0 HwRev.zero) w).2.disk.flash .mcubootPrimary =
        placed trailingFile.bytes oldFirmware := by
  intro P w
  rcases run_fwUpdate_eq P .slot0 HwRev.zero w (fun _ _ => rfl) rfl (bootWith_words trailingFile)
    with ⟨hout, hdisk⟩
  have hreboot : (checkUpdatesOn P .slot0 HwRev.zero w.sharedBuf w.disk).1 = true := by
    decide +kernel
  rw [hout, hdisk, hreboot]
  exact ⟨rfl, by decide +kernel⟩

end RuuviMcuboot
