/-
An open file on its own.

`fileOps d` answers the calls on one open file from its contents and the current
position.  A function that only reads an open file runs the same against `fileOps`
and against a world in which nothing fails.
-/
import RuuviMcuboot.Platform.Calls

namespace RuuviMcuboot

open Binary Effect

variable (P : Platform) {w : World} {hd : Handle} {d : FileData}

/-- Some answer to a call. -/
def Op.idle : (o : Op) → Op.Res o
  | .fsMount | .fsStatvfs | .fsUnmount => (0 : Int)
  | .fsStat _ => .error 0
  | .fsOpen _ => .error 0
  | .fsClose _ => ()
  | .fsSeek _ _ _ => (0 : Int)
  | .fsTell _ => (0 : Int)
  | .fsRead _ _ => .error 0
  | .fsReadShared _ _ => .error 0
  | .fsUnlink _ => (0 : Int)
  | .flashAreaOpen _ => .error 0
  | .flashAreaClose _ => ()
  | .flashAreaErase _ _ _ | .flashAreaWrite _ _ _ | .flashAreaFlatten _ => (0 : Int)
  | .flashAreaRead _ _ _ => .error 0
  | .flashMapped _ | .sharedBuf => []
  | .fwInfoInvalidate _ | .sysReboot => ()

/-- Where a seek in a file with the contents `d` goes. -/
def seekTarget (d : FileData) (off : Int) : Whence → Option Nat
  | .set => if 0 ≤ off ∧ off ≤ lfsFileMax then some off.toNat else none
  | .fromEnd =>
    if 0 ≤ (d.bytes.length : Int) + off ∧ (d.bytes.length : Int) + off ≤ lfsFileMax then
      some ((d.bytes.length : Int) + off).toNat
    else none

theorem target_eq (o : OpenFile) (off : Int) (whence : Whence) :
    o.target off whence = seekTarget o.data off whence := by
  cases whence with
  | set => simp only [OpenFile.target, seekTarget, Int.zero_add]
  | fromEnd => rfl

/-- The calls on an open file with the contents `d`; the state is the position. -/
def fileOps (d : FileData) : Handler Api Nat := fun o pos =>
  match o with
  | .fsSeek _ off whence =>
    match seekTarget d off whence with
    | none => (-EINVAL, pos)
    | some pos' => ((0 : Int), pos')
  | .fsTell _ => ((pos : Int), pos)
  | .fsRead _ len => (.ok (slice d.bytes pos len), pos + (slice d.bytes pos len).length)
  | o => (o.idle, pos)

/-- `hd` is open at a position of a file with the contents `d`, and nothing
fails. -/
structure OpenAt (hd : Handle) (d : FileData) (w : World) (pos : Nat) : Prop where
  reliable : Reliable w
  isOpen : ∃ f t, w.opened = (hd, { name := f, data := d, pos := pos }) :: t

theorem OpenAt.exec {pos : Nat} {o : Op} (ho : o.reads hd) (hw : OpenAt hd d w pos) :
    (P.exec o w).1 = (fileOps d o pos).1 ∧ OpenAt hd d (P.exec o w).2 (fileOps d o pos).2 := by
  obtain ⟨f, t, ht⟩ := hw.isOpen
  have hl : lookupFile hd w.tick.opened = some { name := f, data := d, pos := pos } := by
    show lookupFile hd w.opened = _
    rw [ht, lookupFile_cons_self]
  have hmove : ∀ pos', OpenAt hd d (w.tick.setOpened (moveFile hd pos' w.opened)) pos' :=
    fun pos' => ⟨hw.reliable.tick.setOpened _, f, t, by
      rw [World.setOpened_opened, ht, moveFile_cons_self]⟩
  cases o with
  | fsSeek h off whence =>
    obtain rfl : h = hd := ho
    simp only [Platform.exec, fileOps, hw.reliable.rc?, hl, target_eq]
    cases seekTarget d off whence with
    | none => exact ⟨rfl, hw.reliable.tick, f, t, ht⟩
    | some pos' => exact ⟨rfl, hmove pos'⟩
  | fsTell h =>
    obtain rfl : h = hd := ho
    simp only [Platform.exec, fileOps, hl]
    exact ⟨trivial, hw.reliable.tick, f, t, ht⟩
  | fsRead h len =>
    obtain rfl : h = hd := ho
    simp only [Platform.exec, fileOps, hw.reliable.rc?, hw.reliable.limit, World.readFile, hl]
    exact ⟨trivial, hmove _⟩
  | _ => exact ho.elim

/-- A function that reads an open file gives what it gives on the contents. -/
theorem OpenAt.run {α : Type} {p : Fw α} (hp : Issues (Op.reads hd) p) {pos : Nat}
    (hw : OpenAt hd d w pos) :
    (P.run p w).1 = (Effect.run (fileOps d) p pos).1 ∧
      OpenAt hd d (P.run p w).2 (Effect.run (fileOps d) p pos).2 :=
  hp.run_congr (exec_answers P) (fun _ _ _ ho hw => OpenAt.exec P ho hw) hw

/-! ## Calls on the contents -/

section Calls

variable (d : FileData) (pos : Nat)

@[simp] theorem fileOps_fsRead (len : Nat) : Effect.run (fileOps d) (fsRead hd len) pos =
    (.ok (slice d.bytes pos len), pos + (slice d.bytes pos len).length) := rfl

@[simp] theorem fileOps_fsTell : Effect.run (fileOps d) (fsTell hd) pos = ((pos : Int), pos) := rfl

theorem fileOps_fsSeek_set {off : Nat} (h : off ≤ lfsFileMax) :
    Effect.run (fileOps d) (fsSeek hd (off : Int) .set) pos = (0, off) := by
  show fileOps d (.fsSeek hd off .set) pos = _
  simp only [fileOps, seekTarget]
  rw [if_pos (by omega)]
  rfl

theorem fileOps_fsSeek_bad {off : Int} (h : ¬ (0 ≤ off ∧ off ≤ lfsFileMax)) :
    Effect.run (fileOps d) (fsSeek hd off .set) pos = (-EINVAL, pos) := by
  show fileOps d (.fsSeek hd off .set) pos = _
  simp only [fileOps, seekTarget]
  rw [if_neg h]

end Calls

end RuuviMcuboot
