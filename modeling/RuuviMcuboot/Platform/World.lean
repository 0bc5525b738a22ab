/-
The calls the bootloader makes and the world that answers them.

The world holds the file system with its update files, the flash partitions, the
buffer `g_shared_img_buf` in shared RAM, the open files, and a plan of failures.
Files are read-only here: the updater opens them for reading and removes them.
The failure plan is arbitrary.  It may make any call fail, cut any read short,
and leave anything in the part of flash or of the buffer that a failed call was
working on.
-/
import Mathlib.Logic.Function.Basic
import RuuviMcuboot.Effect.Restart
import RuuviMcuboot.Platform.Sdk

namespace RuuviMcuboot

open Binary Effect

/-! ## Calls -/

abbrev Handle := Nat

inductive Whence where
  | set
  | fromEnd
  deriving DecidableEq, Repr

/-- What `fs_stat` says about a name. -/
inductive EntryType where
  | file
  | dir
  deriving DecidableEq, Repr

/-- The calls of the updater that leave its own code. -/
inductive Op where
  | fsMount
  | fsStatvfs
  | fsUnmount
  | fsStat (f : UpdateFile)
  | fsOpen (f : UpdateFile)
  | fsClose (hd : Handle)
  | fsSeek (hd : Handle) (off : Int) (whence : Whence)
  | fsTell (hd : Handle)
  | fsRead (hd : Handle) (len : Nat)
  /-- `fs_read` with `g_shared_img_buf` as its buffer. -/
  | fsReadShared (hd : Handle) (len : Nat)
  | fsUnlink (f : UpdateFile)
  | flashAreaOpen (fa : FaId)
  | flashAreaClose (fa : FaId)
  | flashAreaErase (fa : FaId) (off len : Nat)
  | flashAreaWrite (fa : FaId) (off : Nat) (data : Bytes)
  | flashAreaRead (fa : FaId) (off len : Nat)
  | flashAreaFlatten (fa : FaId)
  /-- A partition read through its memory-mapped address. -/
  | flashMapped (fa : FaId)
  /-- The contents of `g_shared_img_buf`. -/
  | sharedBuf
  | fwInfoInvalidate (fa : FaId)
  | sysReboot
  deriving DecidableEq

/-- Return codes are zero or negative; calls that yield data yield it or a code. -/
@[reducible] def Op.Res : Op → Type
  | .fsMount | .fsStatvfs | .fsUnmount => Int
  | .fsStat _ => Except Int EntryType
  | .fsOpen _ => Except Int Handle
  | .fsClose _ => Unit
  | .fsSeek _ _ _ => Int
  | .fsTell _ => Int
  | .fsRead _ _ => Except Int Bytes
  | .fsReadShared _ _ => Except Int Nat
  | .fsUnlink _ => Int
  | .flashAreaOpen _ => Except Int FlashArea
  | .flashAreaClose _ => Unit
  | .flashAreaErase _ _ _ | .flashAreaWrite _ _ _ | .flashAreaFlatten _ => Int
  | .flashAreaRead _ _ _ => Except Int Bytes
  | .flashMapped _ | .sharedBuf => Bytes
  | .fwInfoInvalidate _ | .sysReboot => Unit

abbrev Api : Signature := { Op := Op, Res := Op.Res }

/-- A function of the bootloader. -/
abbrev Fw (α : Type) := Prog Api α

def fsMount : Fw Int := Prog.perform (S := Api) .fsMount
def fsStatvfs : Fw Int := Prog.perform (S := Api) .fsStatvfs
def fsUnmount : Fw Int := Prog.perform (S := Api) .fsUnmount
def fsStat (f : UpdateFile) : Fw (Except Int EntryType) := Prog.perform (S := Api) (.fsStat f)
def fsOpen (f : UpdateFile) : Fw (Except Int Handle) := Prog.perform (S := Api) (.fsOpen f)
def fsClose (hd : Handle) : Fw Unit := Prog.perform (S := Api) (.fsClose hd)
def fsSeek (hd : Handle) (off : Int) (whence : Whence) : Fw Int :=
  Prog.perform (S := Api) (.fsSeek hd off whence)
def fsTell (hd : Handle) : Fw Int := Prog.perform (S := Api) (.fsTell hd)
def fsRead (hd : Handle) (len : Nat) : Fw (Except Int Bytes) :=
  Prog.perform (S := Api) (.fsRead hd len)
def fsReadShared (hd : Handle) (len : Nat) : Fw (Except Int Nat) :=
  Prog.perform (S := Api) (.fsReadShared hd len)
def fsUnlink (f : UpdateFile) : Fw Int := Prog.perform (S := Api) (.fsUnlink f)
def flashAreaOpen (fa : FaId) : Fw (Except Int FlashArea) :=
  Prog.perform (S := Api) (.flashAreaOpen fa)
def flashAreaClose (fa : FaId) : Fw Unit := Prog.perform (S := Api) (.flashAreaClose fa)
def flashAreaErase (fa : FaId) (off len : Nat) : Fw Int :=
  Prog.perform (S := Api) (.flashAreaErase fa off len)
def flashAreaWrite (fa : FaId) (off : Nat) (data : Bytes) : Fw Int :=
  Prog.perform (S := Api) (.flashAreaWrite fa off data)
def flashAreaRead (fa : FaId) (off len : Nat) : Fw (Except Int Bytes) :=
  Prog.perform (S := Api) (.flashAreaRead fa off len)
def flashAreaFlatten (fa : FaId) : Fw Int := Prog.perform (S := Api) (.flashAreaFlatten fa)
def flashMapped (fa : FaId) : Fw Bytes := Prog.perform (S := Api) (.flashMapped fa)
def sharedBuf : Fw Bytes := Prog.perform (S := Api) .sharedBuf
def fwInfoInvalidate (fa : FaId) : Fw Unit := Prog.perform (S := Api) (.fwInfoInvalidate fa)
def sysReboot : Fw Unit := Prog.perform (S := Api) .sysReboot

/-! ## The world -/

/-- The largest offset and file size of the file system (`LFS_FILE_MAX`). -/
def lfsFileMax : Nat := 2147483647

/-- The contents of a regular file. -/
structure FileData where
  bytes : Bytes
  size_le : bytes.length ≤ lfsFileMax

theorem fileData_length_lt (d : FileData) : d.bytes.length < 2147483648 := by
  have := d.size_le
  unfold lfsFileMax at this
  omega

inductive DirEntry where
  | file (d : FileData)
  | dir

/-- An open file and its position. -/
structure OpenFile where
  name : UpdateFile
  data : FileData
  pos : Nat

/-- What the environment does to a call.  `junk` is what a failed call leaves in
the bytes it was to change. -/
inductive Fault where
  | none
  | fail (rc : Nat) (junk : Bytes)
  | short (n : Nat)
  deriving DecidableEq

structure World where
  files : UpdateFile → Option DirEntry
  flash : FaId → Bytes
  sharedBuf : Bytes
  opened : List (Handle × OpenFile)
  clock : Nat
  faults : Nat → Op → Fault

/-- The world a boot starts in. -/
def World.atBoot (files : UpdateFile → Option DirEntry) (flash : FaId → Bytes) (sharedBuf : Bytes)
    (faults : Nat → Op → Fault) : World where
  files := files
  flash := flash
  sharedBuf := sharedBuf
  opened := []
  clock := 0
  faults := faults

/-- The return code of a failed call. -/
def Fault.rc? : Fault → Option Int
  | .fail rc _ => some (.negSucc rc)
  | _ => Option.none

/-- The return code of a call that yields nothing else. -/
def Fault.rc (flt : Fault) : Int := flt.rc?.getD 0

/-- How much of a read of `len` bytes is delivered. -/
def Fault.limit (len : Nat) : Fault → Nat
  | .short n => min n len
  | _ => len

def Fault.junk : Fault → Bytes
  | .fail _ junk => junk
  | _ => []

def ENOENT : Int := 2
def EBADF : Int := 9
def EINVAL : Int := 22

/-! ## Open files -/

/-- The lowest number above all open handles. -/
def freshHandle (t : List (Handle × OpenFile)) : Handle := t.foldr (fun e n => max (e.1 + 1) n) 0

def lookupFile (hd : Handle) : List (Handle × OpenFile) → Option OpenFile
  | [] => none
  | (k, f) :: rest => if k = hd then some f else lookupFile hd rest

def moveFile (hd : Handle) (pos : Nat) : List (Handle × OpenFile) → List (Handle × OpenFile)
  | [] => []
  | (k, f) :: rest => if k = hd then (k, { f with pos := pos }) :: rest
      else (k, f) :: moveFile hd pos rest

def dropFile (hd : Handle) : List (Handle × OpenFile) → List (Handle × OpenFile)
  | [] => []
  | (k, f) :: rest => if k = hd then rest else (k, f) :: dropFile hd rest

/-- Where a seek goes, if the offset is one the file system accepts. -/
def OpenFile.target (f : OpenFile) (off : Int) (whence : Whence) : Option Nat :=
  let base : Int := match whence with
    | .set => 0
    | .fromEnd => f.data.bytes.length
  if 0 ≤ base + off ∧ base + off ≤ lfsFileMax then some (base + off).toNat else none

/-! ## The handler -/

namespace World

def tick (w : World) : World := { w with clock := w.clock + 1 }

def setFlash (w : World) (fa : FaId) (content : Bytes) : World :=
  { w with flash := Function.update w.flash fa content }

def setOpened (w : World) (t : List (Handle × OpenFile)) : World := { w with opened := t }

def setShared (w : World) (b : Bytes) : World := { w with sharedBuf := b }

def setFiles (w : World) (g : UpdateFile → Option DirEntry) : World := { w with files := g }

/-- The world after a check: time has passed, the shared buffer was written, and
files may be gone. -/
def after (w : World) (n : Nat) (buf : Bytes) (g : UpdateFile → Option DirEntry) : World :=
  { w with clock := n, sharedBuf := buf, files := g }

@[simp] theorem tick_files (w : World) : w.tick.files = w.files := rfl
@[simp] theorem tick_flash (w : World) : w.tick.flash = w.flash := rfl
@[simp] theorem tick_sharedBuf (w : World) : w.tick.sharedBuf = w.sharedBuf := rfl
@[simp] theorem tick_opened (w : World) : w.tick.opened = w.opened := rfl
@[simp] theorem tick_faults (w : World) : w.tick.faults = w.faults := rfl

@[simp] theorem setOpened_files (w : World) (t : List (Handle × OpenFile)) :
    (w.setOpened t).files = w.files := rfl
@[simp] theorem setOpened_flash (w : World) (t : List (Handle × OpenFile)) :
    (w.setOpened t).flash = w.flash := rfl
@[simp] theorem setOpened_sharedBuf (w : World) (t : List (Handle × OpenFile)) :
    (w.setOpened t).sharedBuf = w.sharedBuf := rfl
@[simp] theorem setOpened_opened (w : World) (t : List (Handle × OpenFile)) :
    (w.setOpened t).opened = t := rfl

@[simp] theorem after_files (w : World) (n : Nat) (buf : Bytes)
    (g : UpdateFile → Option DirEntry) : (w.after n buf g).files = g := rfl
@[simp] theorem after_flash (w : World) (n : Nat) (buf : Bytes)
    (g : UpdateFile → Option DirEntry) : (w.after n buf g).flash = w.flash := rfl
@[simp] theorem after_sharedBuf (w : World) (n : Nat) (buf : Bytes)
    (g : UpdateFile → Option DirEntry) : (w.after n buf g).sharedBuf = buf := rfl
@[simp] theorem after_opened (w : World) (n : Nat) (buf : Bytes)
    (g : UpdateFile → Option DirEntry) : (w.after n buf g).opened = w.opened := rfl
@[simp] theorem after_after (w : World) (n m : Nat) (buf buf' : Bytes)
    (g g' : UpdateFile → Option DirEntry) :
    (w.after n buf g).after m buf' g' = w.after m buf' g' := rfl
@[simp] theorem after_tick (w : World) (n : Nat) (buf : Bytes)
    (g : UpdateFile → Option DirEntry) : (w.after n buf g).tick = w.after (n + 1) buf g := rfl
theorem tick_eq_after (w : World) : w.tick = w.after (w.clock + 1) w.sharedBuf w.files := rfl

@[simp] theorem setShared_sharedBuf (w : World) (b : Bytes) : (w.setShared b).sharedBuf = b := rfl

/-- A read at the current position: the bytes and the world after it. -/
def readFile (w : World) (hd : Handle) (len : Nat) : Except Int Bytes × World :=
  match lookupFile hd w.opened with
  | none => (.error (-EBADF), w)
  | some f =>
    let b := slice f.data.bytes f.pos len
    (.ok b, w.setOpened (moveFile hd (f.pos + b.length) w.opened))

end World

@[simp] theorem World.readFile_files (w : World) (hd : Handle) (len : Nat) :
    (w.readFile hd len).2.files = w.files := by
  unfold World.readFile
  split <;> rfl

@[simp] theorem World.readFile_flash (w : World) (hd : Handle) (len : Nat) :
    (w.readFile hd len).2.flash = w.flash := by
  unfold World.readFile
  split <;> rfl

@[simp] theorem World.readFile_faults (w : World) (hd : Handle) (len : Nat) :
    (w.readFile hd len).2.faults = w.faults := by
  unfold World.readFile
  split <;> rfl

/-- The answers of the platform. -/
def Platform.exec (P : Platform) (o : Op) (w : World) : Op.Res o × World :=
  let flt := w.faults w.clock o
  let w := w.tick
  match o with
  | .fsMount => (flt.rc, w)
  | .fsStatvfs => (flt.rc, w)
  | .fsUnmount => (flt.rc, w)
  | .fsStat f =>
    match flt.rc?, w.files f with
    | some rc, _ => (.error rc, w)
    | none, none => (.error (-ENOENT), w)
    | none, some (.file _) => (.ok .file, w)
    | none, some .dir => (.ok .dir, w)
  | .fsOpen f =>
    match flt.rc?, w.files f with
    | some rc, _ => (.error rc, w)
    | none, some (.file d) =>
      let hd := freshHandle w.opened
      (.ok hd, w.setOpened ((hd, { name := f, data := d, pos := 0 }) :: w.opened))
    | none, _ => (.error (-ENOENT), w)
  | .fsClose hd => ((), w.setOpened (dropFile hd w.opened))
  | .fsSeek hd off whence =>
    match flt.rc?, lookupFile hd w.opened with
    | some rc, _ => (rc, w)
    | none, none => (-EBADF, w)
    | none, some f =>
      match f.target off whence with
      | none => (-EINVAL, w)
      | some pos => ((0 : Int), w.setOpened (moveFile hd pos w.opened))
  | .fsTell hd =>
    match lookupFile hd w.opened with
    | none => (-EBADF, w)
    | some f => ((f.pos : Int), w)
  | .fsRead hd len =>
    match flt.rc? with
    | some rc => (.error rc, w)
    | none => w.readFile hd (flt.limit len)
  | .fsReadShared hd len =>
    match flt.rc? with
    | some rc => (.error rc, w.setShared (overlay w.sharedBuf 0 (flt.junk.take len)))
    | none =>
      let r := w.readFile hd (flt.limit len)
      match r.1 with
      | .error rc => (.error rc, r.2)
      | .ok b => (.ok b.length, r.2.setShared (overlay w.sharedBuf 0 b))
  | .fsUnlink f =>
    match flt.rc?, w.files f with
    | some rc, _ => (rc, w)
    | none, none => (-ENOENT, w)
    | none, some _ => ((0 : Int), w.setFiles (Function.update w.files f none))
  | .flashAreaOpen fa =>
    match flt.rc? with
    | some rc => (.error rc, w)
    | none => (.ok { faId := fa, faOff := P.faOff fa, faSize := (w.flash fa).length }, w)
  | .flashAreaClose _ => ((), w)
  | .flashAreaErase fa off len =>
    match flt.rc? with
    | some rc => (rc, w.setFlash fa (overlay (w.flash fa) off (flt.junk.take len)))
    | none =>
      if off + len ≤ (w.flash fa).length then
        ((0 : Int), w.setFlash fa (overlay (w.flash fa) off (blank len)))
      else (-EINVAL, w)
  | .flashAreaWrite fa off data =>
    match flt.rc? with
    | some rc => (rc, w.setFlash fa (overlay (w.flash fa) off (flt.junk.take data.length)))
    | none =>
      -- the driver takes whole words inside the partition
      if off % 4 = 0 ∧ data.length % 4 = 0 ∧ off + data.length ≤ (w.flash fa).length then
        ((0 : Int), w.setFlash fa (overlay (w.flash fa) off data))
      else (-EINVAL, w)
  | .flashAreaRead fa off len =>
    match flt.rc? with
    | some rc => (.error rc, w)
    | none =>
      if off + len ≤ (w.flash fa).length then (.ok (slice (w.flash fa) off len), w)
      else (.error (-EINVAL), w)
  | .flashAreaFlatten fa =>
    match flt.rc? with
    | some rc => (rc, w)
    | none =>
      -- the file system lives in this partition
      if fa = .littlefsStorage1 then ((0 : Int), w.setFiles (fun _ => none))
      else ((0 : Int), w.setFlash fa (blank (w.flash fa).length))
  | .flashMapped fa => (w.flash fa, w)
  | .sharedBuf => (w.sharedBuf, w)
  | .fwInfoInvalidate fa =>
    match flt.rc? with
    | some _ => ((), w)
    | none => ((), w.setFlash fa (P.fwInfoInvalidate (w.flash fa)))
  | .sysReboot => ((), w)

/-- `P.run p w`: the result of `p` started in `w`, and the world it leaves. -/
abbrev Platform.run (P : Platform) {α : Type} (p : Fw α) (w : World) : α × World :=
  Effect.run (S := Api) P.exec p w

theorem Platform.run_bind (P : Platform) {α β : Type} (p : Fw α) (g : α → Fw β) (w : World) :
    P.run (p >>= g) w = P.run (g (P.run p w).1) (P.run p w).2 :=
  Effect.run_bind p g w

theorem Platform.run_bind_of (P : Platform) {α β : Type} {p : Fw α} {g : α → Fw β} {w w' : World}
    {a : α} (hp : P.run p w = (a, w')) : P.run (p >>= g) w = P.run (g a) w' :=
  Effect.run_bind_of hp

@[simp] theorem Platform.run_pure (P : Platform) {α : Type} (a : α) (w : World) :
    P.run (pure a) w = (a, w) := rfl

/-! ## Runs of single calls -/

section Calls

variable (P : Platform) (w : World) (f : UpdateFile) (hd : Handle) (fa : FaId)

@[simp] theorem run_fsMount : P.run fsMount w = P.exec .fsMount w := rfl

@[simp] theorem run_fsStatvfs : P.run fsStatvfs w = P.exec .fsStatvfs w := rfl

@[simp] theorem run_fsUnmount : P.run fsUnmount w = P.exec .fsUnmount w := rfl

@[simp] theorem run_fsStat : P.run (fsStat f) w = P.exec (.fsStat f) w := rfl

@[simp] theorem run_fsOpen : P.run (fsOpen f) w = P.exec (.fsOpen f) w := rfl

@[simp] theorem run_fsClose : P.run (fsClose hd) w = P.exec (.fsClose hd) w := rfl

@[simp] theorem run_fsSeek (off : Int) (whence : Whence) :
    P.run (fsSeek hd off whence) w = P.exec (.fsSeek hd off whence) w := rfl

@[simp] theorem run_fsTell : P.run (fsTell hd) w = P.exec (.fsTell hd) w := rfl

@[simp] theorem run_fsRead (len : Nat) : P.run (fsRead hd len) w = P.exec (.fsRead hd len) w := rfl

@[simp] theorem run_fsReadShared (len : Nat) :
    P.run (fsReadShared hd len) w = P.exec (.fsReadShared hd len) w := rfl

@[simp] theorem run_fsUnlink : P.run (fsUnlink f) w = P.exec (.fsUnlink f) w := rfl

@[simp] theorem run_flashAreaOpen :
    P.run (flashAreaOpen fa) w = P.exec (.flashAreaOpen fa) w := rfl

@[simp] theorem run_flashAreaClose :
    P.run (flashAreaClose fa) w = P.exec (.flashAreaClose fa) w := rfl

@[simp] theorem run_flashAreaErase (off len : Nat) :
    P.run (flashAreaErase fa off len) w = P.exec (.flashAreaErase fa off len) w := rfl

@[simp] theorem run_flashAreaWrite (off : Nat) (data : Bytes) :
    P.run (flashAreaWrite fa off data) w = P.exec (.flashAreaWrite fa off data) w := rfl

@[simp] theorem run_flashAreaRead (off len : Nat) :
    P.run (flashAreaRead fa off len) w = P.exec (.flashAreaRead fa off len) w := rfl

@[simp] theorem run_flashMapped : P.run (flashMapped fa) w = P.exec (.flashMapped fa) w := rfl

@[simp] theorem run_sharedBuf : P.run RuuviMcuboot.sharedBuf w = P.exec .sharedBuf w := rfl

@[simp] theorem run_fwInfoInvalidate :
    P.run (fwInfoInvalidate fa) w = P.exec (.fwInfoInvalidate fa) w := rfl

@[simp] theorem run_sysReboot : P.run sysReboot w = P.exec .sysReboot w := rfl

end Calls

end RuuviMcuboot
