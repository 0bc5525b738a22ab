/-
Access to the update files (`btldr_fs.c`).
-/
import RuuviMcuboot.Platform.World

namespace RuuviMcuboot

/-- An `off_t` used as an unsigned 32-bit size. -/
def toSizeT (x : Int) : Nat := (x % 4294967296).toNat

/-- Erase the partition of the file system. -/
def btldrFsFlashErase : Fw Bool := do
  match ← flashAreaOpen .littlefsStorage1 with
  | .error _ => return false
  | .ok pfa =>
    let rc ← flashAreaFlatten pfa.faId
    flashAreaClose pfa.faId
    return decide (¬ rc < 0)

/-- A file system that does not mount is erased. -/
def btldrFsMount : Fw Bool := do
  let rc ← fsMount
  if rc ≠ 0 then
    let _ ← btldrFsFlashErase
    return false
  else
    let rc ← fsStatvfs
    return decide (¬ rc < 0)

def btldrFsUnmount : Fw Unit := do
  let _ ← fsUnmount
  return ()

/-- Only a regular file counts as an update file. -/
def btldrFsIsFileExist (f : UpdateFile) : Fw Bool := do
  match ← fsStat f with
  | .error _ => return false
  | .ok t => return t == .file

/-- `none` is the handle with a null `filep`. -/
def btldrFsOpenFile (f : UpdateFile) : Fw (Option Handle) := do
  match ← fsOpen f with
  | .error _ => return none
  | .ok hd => return some hd

def btldrFsCloseFile (hd : Handle) : Fw Unit := fsClose hd

def btldrFsUnlinkFile (f : UpdateFile) : Fw Bool := do
  let rc ← fsUnlink f
  return decide (¬ rc < 0)

/-- The size of an open file; the position is restored.  A failing seek makes the
size zero. -/
def btldrFsGetFileSize (hd : Handle) : Fw Int := do
  let curOffset ← fsTell hd
  let rc ← fsSeek hd 0 .fromEnd
  if rc ≠ 0 then
    return 0
  else
    let size ← fsTell hd
    let _ ← fsSeek hd curOffset .set
    return size

end RuuviMcuboot
