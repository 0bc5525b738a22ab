/-
What each call leaves alone.

The footprints name the calls by what they may change: nothing durable
(`inspects`), one update file (`mayRemove`), or one update file and one partition
(`mayInstall`).
-/
import RuuviMcuboot.Platform.World

namespace RuuviMcuboot

open Binary Effect

/-! ## Footprints -/

/-- Calls that read an open file or move in it. -/
def Op.reads (hd : Handle) : Op → Prop
  | .fsSeek h _ _ | .fsTell h | .fsRead h _ => h = hd
  | _ => False

/-- Calls that look at one update file and nothing else. -/
def Op.looksAt (f : UpdateFile) : Op → Prop
  | .fsStat g | .fsOpen g => g = f
  | .fsClose _ | .fsSeek _ _ _ | .fsTell _ | .fsRead _ _ => True
  | _ => False

/-- Calls that change neither the files nor the flash. -/
def Op.inspects : Op → Prop
  | .fsUnlink _ | .flashAreaErase _ _ _ | .flashAreaWrite _ _ _ | .flashAreaFlatten _
  | .fwInfoInvalidate _ => False
  | _ => True

/-- Calls that change nothing durable but, possibly, remove `f`. -/
def Op.mayRemove (f : UpdateFile) (o : Op) : Prop := o.inspects ∨ o = .fsUnlink f

/-- The calls of a copy from the open file `hd` to the partition `fa`. -/
def Op.copies (hd : Handle) (fa : FaId) : Op → Prop
  | .fsSeek h _ _ | .fsTell h | .fsRead h _ => h = hd
  | .flashAreaErase fa' _ _ | .flashAreaWrite fa' _ _ => fa' = fa
  | .flashAreaOpen _ | .flashAreaClose _ => True
  | _ => False

/-- Calls that change nothing durable but the partition `fa`. -/
def Op.mayWrite (fa : FaId) : Op → Prop
  | .flashAreaErase fa' _ _ | .flashAreaWrite fa' _ _ => fa' = fa
  | o => o.inspects

/-- The calls of an installation of `f` in the partition `fa`. -/
def Op.mayInstall (f : UpdateFile) (fa : FaId) (o : Op) : Prop := o.mayWrite fa ∨ o = .fsUnlink f

theorem Op.reads.looksAt {f : UpdateFile} {hd : Handle} {o : Op} (ho : o.reads hd) :
    o.looksAt f := by
  cases o <;> first | exact True.intro | exact ho.elim

theorem Op.looksAt.inspects {f : UpdateFile} {o : Op} (ho : o.looksAt f) : o.inspects := by
  cases o <;> first | exact True.intro | exact ho.elim

theorem Op.inspects.mayRemove {f : UpdateFile} {o : Op} (ho : o.inspects) : o.mayRemove f :=
  Or.inl ho

theorem Op.inspects.mayWrite {fa : FaId} {o : Op} (ho : o.inspects) : o.mayWrite fa := by
  cases o <;> first | exact ho | exact ho.elim

theorem Op.copies.mayWrite {hd : Handle} {fa : FaId} {o : Op} (ho : o.copies hd fa) :
    o.mayWrite fa := by
  cases o <;> first | exact ho | exact True.intro | exact ho.elim

theorem Op.mayRemove.mayInstall {f : UpdateFile} {fa : FaId} {o : Op} (ho : o.mayRemove f) :
    o.mayInstall f fa := ho.imp Op.inspects.mayWrite id

/-- An opened flash area is the one that was asked for. -/
def Op.Answered : (o : Op) → Op.Res o → Prop
  | .flashAreaOpen fa, .ok p => p.faId = fa
  | _, _ => True

/-- Every call of `p` satisfies `A`. -/
abbrev Issues (A : Op → Prop) {α : Type} (p : Fw α) : Prop :=
  Within (S := Api) Op.Answered A p

theorem issues_perform {A : Op → Prop} (o : Op) (ho : A o) :
    Issues A (Prog.perform (S := Api) o) := within_perform ho

theorem Op.inspects.mayInstall {f : UpdateFile} {fa : FaId} {o : Op} (ho : o.inspects) :
    o.mayInstall f fa := ho.mayRemove.mayInstall

/-! ## Frames of the handler -/

variable (P : Platform)

theorem exec_answers : Answers (S := Api) P.exec Op.Answered := by
  intro o w
  cases o <;> first | exact True.intro | skip
  simp only [Platform.exec]
  split <;> first | exact True.intro | rfl

@[simp] theorem exec_faults (o : Op) (w : World) : (P.exec o w).2.faults = w.faults := by
  cases o <;> simp only [Platform.exec] <;> (repeat' split) <;>
    first | rfl | exact World.readFile_faults _ _ _

/-- A call changes at most the partition it erases, writes, flattens or
invalidates. -/
theorem exec_flash_of_inspects {o : Op} (ho : o.inspects) (w : World) :
    (P.exec o w).2.flash = w.flash := by
  cases o <;> first
    | exact ho.elim
    | (simp only [Platform.exec]; (repeat' split) <;>
        first | rfl | exact World.readFile_flash _ _ _)

theorem exec_files_of_inspects {o : Op} (ho : o.inspects) (w : World) :
    (P.exec o w).2.files = w.files := by
  cases o <;> first
    | exact ho.elim
    | (simp only [Platform.exec]; (repeat' split) <;>
        first | rfl | exact World.readFile_files _ _ _)

theorem exec_fsUnlink_flash (f : UpdateFile) (w : World) :
    (P.exec (.fsUnlink f) w).2.flash = w.flash := by
  simp only [Platform.exec]
  (repeat' split) <;> rfl

theorem exec_fsUnlink_files_ne {f g : UpdateFile} (hg : g ≠ f) (w : World) :
    (P.exec (.fsUnlink f) w).2.files g = w.files g := by
  simp only [Platform.exec]
  (repeat' split) <;> first | rfl | exact Function.update_of_ne hg _ _

theorem exec_flash_of_mayRemove {f : UpdateFile} {o : Op} (ho : o.mayRemove f) (w : World) :
    (P.exec o w).2.flash = w.flash := by
  rcases ho with ho | rfl
  · exact exec_flash_of_inspects P ho w
  · exact exec_fsUnlink_flash P f w

theorem exec_files_ne_of_mayRemove {f g : UpdateFile} (hg : g ≠ f) {o : Op} (ho : o.mayRemove f)
    (w : World) : (P.exec o w).2.files g = w.files g := by
  rcases ho with ho | rfl
  · rw [exec_files_of_inspects P ho]
  · exact exec_fsUnlink_files_ne P hg w

theorem exec_files_of_mayWrite {fa : FaId} {o : Op} (ho : o.mayWrite fa) (w : World) :
    (P.exec o w).2.files = w.files := by
  cases o <;> first
    | exact ho.elim
    | (simp only [Platform.exec]; (repeat' split) <;>
        first | rfl | exact World.readFile_files _ _ _)

theorem exec_flash_ne_of_mayWrite {fa fb : FaId} (hb : fb ≠ fa) {o : Op} (ho : o.mayWrite fa)
    (w : World) : (P.exec o w).2.flash fb = w.flash fb := by
  cases o with
  | flashAreaErase fa' off len =>
    obtain rfl : fa' = fa := ho
    simp only [Platform.exec]
    (repeat' split) <;> first | rfl | exact Function.update_of_ne hb _ _
  | flashAreaWrite fa' off data =>
    obtain rfl : fa' = fa := ho
    simp only [Platform.exec]
    (repeat' split) <;> first | rfl | exact Function.update_of_ne hb _ _
  | _ => first
    | exact ho.elim
    | (refine congrFun (exec_flash_of_inspects P ?_ w) fb; exact True.intro)

theorem exec_flash_ne_of_mayInstall {f : UpdateFile} {fa fb : FaId} (hb : fb ≠ fa) {o : Op}
    (ho : o.mayInstall f fa) (w : World) : (P.exec o w).2.flash fb = w.flash fb := by
  rcases ho with ho | rfl
  · exact exec_flash_ne_of_mayWrite P hb ho w
  · rw [exec_fsUnlink_flash]

theorem exec_files_ne_of_mayInstall {f g : UpdateFile} {fa : FaId} (hg : g ≠ f) {o : Op}
    (ho : o.mayInstall f fa) (w : World) : (P.exec o w).2.files g = w.files g := by
  rcases ho with ho | rfl
  · rw [exec_files_of_mayWrite P ho]
  · exact exec_fsUnlink_files_ne P hg w

/-- No call changes the size of a partition that invalidation keeps in size. -/
theorem exec_flash_length (hinv : ∀ b, (P.fwInfoInvalidate b).length = b.length) (o : Op)
    (w : World) (fa : FaId) : ((P.exec o w).2.flash fa).length = (w.flash fa).length := by
  cases o with
  | flashAreaErase fa' off len | flashAreaWrite fa' off data | flashAreaFlatten fa'
  | fwInfoInvalidate fa' =>
    by_cases h : fa = fa'
    · subst h
      simp only [Platform.exec]
      (repeat' split) <;> simp [World.setFlash, World.setFiles, World.tick, hinv]
    · simp only [Platform.exec]
      (repeat' split) <;> simp [World.setFlash, World.setFiles, World.tick, h]
  | fsUnlink f => rw [exec_fsUnlink_flash]
  | _ =>
    refine congrArg List.length (congrFun (exec_flash_of_inspects P ?_ w) fa)
    exact True.intro

/-- The failures that lie ahead are fixed from the start. -/
theorem run_faults {α : Type} (p : Fw α) (w : World) : (P.run p w).2.faults = w.faults := by
  induction p generalizing w with
  | ret a => rfl
  | call o k ih =>
    show (P.run (k (P.exec o w).1) (P.exec o w).2).2.faults = _
    rw [ih, exec_faults]

/-! ## Reliable worlds -/

/-- Nothing fails. -/
def Reliable (w : World) : Prop := ∀ n o, w.faults n o = .none

theorem Reliable.exec {w : World} (hw : Reliable w) (o : Op) : Reliable (P.exec o w).2 := by
  intro n o'
  rw [exec_faults]
  exact hw n o'

theorem Reliable.run {w : World} (hw : Reliable w) {α : Type} (p : Fw α) :
    Reliable (P.run p w).2 := by
  induction p generalizing w with
  | ret a => exact hw
  | call o k ih => exact ih _ (hw.exec P o)

end RuuviMcuboot
