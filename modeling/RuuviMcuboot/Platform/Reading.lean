/-
Reading an open file.

`Reading strict hd d w` says that `hd` is open in `w` on a file with the contents
`d`, and that nothing fails if `strict` holds.  The functions that validate a
file only read it, so each of them is evaluated against the contents: it returns
a value that depends on `d` alone, or, in an unreliable world, an error.
-/
import RuuviMcuboot.Platform.Frame
import RuuviMcuboot.FileTlv

namespace RuuviMcuboot

open Binary Effect

variable (P : Platform) {strict : Prop} {hd : Handle} {d : FileData}

structure Reading (strict : Prop) (hd : Handle) (d : FileData) (w : World) : Prop where
  reliable : strict → Reliable w
  isOpen : ∃ f, lookupFile hd w.opened = some f ∧ f.data = d

/-- A world in which nothing fails and one file is open. -/
def openWorld (d : FileData) : World where
  files _ := none
  flash _ := []
  sharedBuf := []
  opened := [(0, { name := .app, data := d, pos := 0 })]
  clock := 0
  faults _ _ := .none

/-! ## The table of open files -/

theorem lookupFile_moveFile {t : List (Handle × OpenFile)} {f : OpenFile} (pos : Nat)
    (h : lookupFile hd t = some f) :
    lookupFile hd (moveFile hd pos t) = some { f with pos := pos } := by
  induction t with
  | nil => simp [lookupFile] at h
  | cons e rest ih =>
    obtain ⟨k, g⟩ := e
    by_cases hk : k = hd
    · simp only [lookupFile, hk, if_true, Option.some.injEq] at h
      simp [moveFile, lookupFile, hk, h]
    · simp only [lookupFile, hk, if_false] at h
      simp [moveFile, lookupFile, hk, ih h]

/-- A file opened last keeps its name and contents under moves. -/
theorem moveFile_cons_self (f : OpenFile) (pos : Nat) (t : List (Handle × OpenFile)) :
    moveFile hd pos ((hd, f) :: t) = (hd, { f with pos := pos }) :: t := by
  simp [moveFile]

theorem lookupFile_cons_self (f : OpenFile) (t : List (Handle × OpenFile)) :
    lookupFile hd ((hd, f) :: t) = some f := by
  simp [lookupFile]

theorem dropFile_cons_self (f : OpenFile) (t : List (Handle × OpenFile)) :
    dropFile hd ((hd, f) :: t) = t := by
  simp [dropFile]

/-! ## Single calls -/

theorem Reliable.rc? {w : World} (hw : Reliable w) (n : Nat) (o : Op) :
    (w.faults n o).rc? = none := by
  rw [hw n o]
  rfl

theorem Reliable.limit {w : World} (hw : Reliable w) (n : Nat) (o : Op) (len : Nat) :
    (w.faults n o).limit len = len := by
  rw [hw n o]
  rfl

/-- A seek to an absolute offset answers 0 and moves, or answers a negative code
and stays. -/
theorem run_fsSeek_set {w : World} {f : OpenFile} (hf : lookupFile hd w.opened = some f)
    (off : Int) :
    ((0 ≤ off ∧ off ≤ lfsFileMax) ∧
        P.run (fsSeek hd off .set) w = (0, w.tick.setOpened (moveFile hd off.toNat w.opened))) ∨
      ((w.faults w.clock (.fsSeek hd off .set)).rc?.isSome ∧
          ∃ rc : Nat, P.run (fsSeek hd off .set) w = (Int.negSucc rc, w.tick)) ∨
        (¬ (0 ≤ off ∧ off ≤ lfsFileMax) ∧ P.run (fsSeek hd off .set) w = (-EINVAL, w.tick)) := by
  have hf' : lookupFile hd w.tick.opened = some f := hf
  rw [run_fsSeek]
  cases hflt : (w.faults w.clock (.fsSeek hd off .set)) with
  | fail rc junk =>
    refine Or.inr (Or.inl ⟨rfl, rc, ?_⟩)
    simp only [Platform.exec, hflt, Fault.rc?]
  | none | short n =>
    by_cases hoff : 0 ≤ off ∧ off ≤ lfsFileMax
    · refine Or.inl ⟨hoff, ?_⟩
      simp only [Platform.exec, hflt, Fault.rc?, hf', OpenFile.target, Int.zero_add, hoff,
        and_self, if_true]
      rfl
    · refine Or.inr (Or.inr ⟨hoff, ?_⟩)
      simp only [Platform.exec, hflt, Fault.rc?, hf', OpenFile.target, Int.zero_add, hoff, if_false]

/-- A read answers an error, or bytes from the current position, all that were
asked for unless the read was cut short or the file ends. -/
theorem run_fsRead_cases {w : World} {f : OpenFile} (hf : lookupFile hd w.opened = some f)
    (len : Nat) :
    ((w.faults w.clock (.fsRead hd len)).rc?.isSome ∧
        ∃ rc : Nat, P.run (fsRead hd len) w = (.error (Int.negSucc rc), w.tick)) ∨
      ∃ n ≤ len, ((w.faults w.clock (.fsRead hd len)) = .none → n = len) ∧
        P.run (fsRead hd len) w =
          (.ok (slice f.data.bytes f.pos n),
            w.tick.setOpened
              (moveFile hd (f.pos + (slice f.data.bytes f.pos n).length) w.opened)) := by
  have hf' : lookupFile hd w.tick.opened = some f := hf
  rw [run_fsRead]
  cases hflt : (w.faults w.clock (.fsRead hd len)) with
  | fail rc junk =>
    refine Or.inl ⟨rfl, rc, ?_⟩
    simp only [Platform.exec, hflt, Fault.rc?]
  | none =>
    refine Or.inr ⟨len, Nat.le_refl _, fun _ => rfl, ?_⟩
    simp only [Platform.exec, hflt, Fault.rc?, Fault.limit, World.readFile, hf']
    rfl
  | short n =>
    refine Or.inr ⟨min n len, Nat.min_le_right _ _, fun h => by simp at h, ?_⟩
    simp only [Platform.exec, hflt, Fault.rc?, Fault.limit, World.readFile, hf']
    rfl

/-! ## `load_image_data` on the contents -/

/-- What `load_image_data` yields for a file with the contents `d`. -/
def loadBytes (d : FileData) (start : UInt32) (size : Nat) : Except Int Bytes :=
  if start.toNat ≤ lfsFileMax then
    if (slice d.bytes start.toNat size).length ≠ size then .error (-1)
    else .ok (slice d.bytes start.toNat size)
  else .error (-EINVAL)

theorem loadBytes_ok {start : UInt32} {size : Nat} {b : Bytes}
    (h : loadBytes d start size = .ok b) :
    b = slice d.bytes start.toNat size ∧ b.length = size := by
  unfold loadBytes at h
  split at h
  · split at h
    · exact absurd h (by simp)
    · rename_i hlen
      rw [Except.ok.injEq] at h
      subst h
      exact ⟨rfl, not_not.mp hlen⟩
  · exact absurd h (by simp)

theorem loadBytes_of_le {start : UInt32} {size : Nat}
    (h : start.toNat + size ≤ d.bytes.length) :
    loadBytes d start size = .ok (slice d.bytes start.toNat size) := by
  have hmax : start.toNat ≤ lfsFileMax := by
    have := d.size_le
    omega
  rw [loadBytes, if_pos hmax, if_neg (not_not.mpr (slice_length_of_le h))]

/-- An error an unreliable environment may answer with. -/
def Unreliable (strict : Prop) {α : Type} (bad : α → Prop) (a : α) : Prop := ¬ strict ∧ bad a

def IsError {α : Type} (r : Except Int α) : Prop := ∃ rc, r = .error rc

theorem toOffT_of_le {x : UInt32} (hx : x.toNat ≤ lfsFileMax) : toOffT x = (x.toNat : Int) := by
  have : x.toNat < 2147483648 := by unfold lfsFileMax at hx; omega
  simp [toOffT, this]

theorem toOffT_neg {x : UInt32} (hx : ¬ x.toNat ≤ lfsFileMax) : toOffT x < 0 := by
  have hlt := x.toNat_lt
  have : ¬ x.toNat < 2147483648 := by unfold lfsFileMax at hx; omega
  simp only [toOffT, this, if_false]
  omega

theorem Reading.tick {w : World} (hw : Reading strict hd d w) : Reading strict hd d w.tick :=
  ⟨fun hs => hw.reliable hs, hw.isOpen⟩

theorem Reading.move {w : World} (hw : Reading strict hd d w) (pos : Nat) :
    Reading strict hd d (w.tick.setOpened (moveFile hd pos w.opened)) := by
  obtain ⟨f, hf, hd'⟩ := hw.isOpen
  exact ⟨fun hs => hw.reliable hs, _, lookupFile_moveFile pos hf, hd'⟩

theorem loadImageData_returns (start : UInt32) (size : Nat) :
    Returns P.exec (Reading strict hd d) (Unreliable strict IsError)
      (loadImageData hd start size) (loadBytes d start size) := by
  intro w hw
  obtain ⟨f, hf, hfd⟩ := hw.isOpen
  unfold loadImageData
  rcases run_fsSeek_set P hf (toOffT start) with ⟨h0, hseek⟩ | ⟨hflt, rc, hseek⟩ | ⟨hbad, hseek⟩
  · -- the seek went through, so the offset is readable as it stands
    have hstart : start.toNat ≤ lfsFileMax := by
      by_contra hgt
      exact absurd h0.1 (Int.not_le.mpr (toOffT_neg hgt))
    have hoff : (toOffT start).toNat = start.toNat := by rw [toOffT_of_le hstart]; simp
    have hw₁ := hw.move start.toNat
    have hf₁ := lookupFile_moveFile start.toNat hf
    rw [run_bind_of hseek, if_neg (Int.lt_irrefl 0), hoff]
    rcases run_fsRead_cases P (w := w.tick.setOpened (moveFile hd start.toNat w.opened)) hf₁ size
      with ⟨hflt, rc, hread⟩ | ⟨n, hn, hall, hread⟩
    · rw [run_bind_of hread]
      refine ⟨hw₁.tick, Or.inr ⟨fun hs => ?_, -1, rfl⟩⟩
      rw [(hw₁.reliable hs).rc?] at hflt
      exact absurd hflt (by simp)
    · rw [run_bind_of hread]
      dsimp only
      have hw₂ := hw₁.move (start.toNat + (slice f.data.bytes start.toNat n).length)
      subst hfd
      by_cases hlen : (slice f.data.bytes start.toNat n).length = size
      · -- a full read is the read of a reliable world
        have hn' : n = size := by rw [slice_length] at hlen; omega
        subst hn'
        rw [if_neg (not_not.mpr hlen)]
        refine ⟨hw₂, Or.inl ?_⟩
        simp only [loadBytes, hstart, hlen, run_pure, if_true, ne_eq, not_true, if_false]
      · rw [if_pos hlen]
        refine ⟨hw₂, ?_⟩
        by_cases hs : strict
        · left
          have hn' : n = size := hall (hw₁.reliable hs _ _)
          subst hn'
          simp only [loadBytes, hstart, hlen, run_pure, if_true, ne_eq, not_false_iff]
        · exact Or.inr ⟨hs, -1, rfl⟩
  · -- an injected code is handed on
    rw [run_bind_of hseek, if_pos (Int.negSucc_lt_zero rc)]
    refine ⟨hw.tick, Or.inr ⟨fun hs => ?_, _, rfl⟩⟩
    rw [(hw.reliable hs).rc?] at hflt
    exact absurd hflt (by simp)
  · -- the offset is negative as an `off_t`
    have hgt : ¬ start.toNat ≤ lfsFileMax := by
      intro hle
      rw [toOffT_of_le hle] at hbad
      omega
    rw [run_bind_of hseek, if_pos (by decide)]
    refine ⟨hw.tick, Or.inl ?_⟩
    simp only [loadBytes, hgt, if_false, run_pure]

end RuuviMcuboot
