/-
The versions of the partitions over boots and power cuts.

Outside the copies a boot leaves every version alone, and a copy is orderly, so a boot
is.  A later boot starts from the flash that an earlier one left, and over all of them
no version falls.
-/
import RuuviMcuboot.Update.Versions

namespace RuuviMcuboot

open Binary Effect

variable {P : Platform} {w : World} {fa : FaId}

/-! ## Outside the copies -/

/-- A call that belongs to no copy keeps every version. -/
theorem exec_version_of_outsideCopy (laws : FwInfoLaws P) {o : Op} (ho : o.outsideCopy)
    (w : World) : versionIn P fa (P.exec o w).2.flash = versionIn P fa w.flash := by
  cases o with
  | flashAreaErase fa' off len | flashAreaWrite fa' off data => exact ho.elim
  | flashAreaFlatten fa' =>
    obtain rfl : fa' = .littlefsStorage1 := ho
    simp only [Platform.exec]
    cases (w.faults w.clock (.flashAreaFlatten .littlefsStorage1)).rc? <;> rfl
  | fwInfoInvalidate fa' =>
    simp only [Platform.exec]
    cases (w.faults w.clock (.fwInfoInvalidate fa')).rc? with
    | some rc => rfl
    | none =>
      by_cases h : fa = fa'
      · subst h
        show ((P.fwInfoFind (Function.update w.flash fa _ fa)).map (·.version)).map _ = _
        rw [Function.update_self, laws.invalidate]
        rfl
      · exact versionIn_congr (Function.update_of_ne h _ _)
  | fsUnlink f => exact versionIn_congr (congrFun (exec_fsUnlink_flash P f w) fa)
  | _ =>
    refine versionIn_congr (congrFun (exec_flash_of_inspects P ?_ w) fa)
    exact True.intro

theorem orderly_outsideCopy (laws : FwInfoLaws P) {α : Type} {p : Fw α}
    (hp : Issues Op.outsideCopy p) (w : World) :
    Effect.Orderly (S := Api) P.exec (fun w => versionIn P fa w.flash) p w :=
  orderly_of_const (fun _ hr => hp.reaches_eq (exec_answers P)
    (f := fun v : World => versionIn P fa v.flash)
    (fun _ v ho => exec_version_of_outsideCopy laws ho v) hr)

theorem orderly_mayRemove (laws : FwInfoLaws P) {f : UpdateFile} {α : Type} {p : Fw α}
    (hp : Issues (Op.mayRemove f) p) (w : World) :
    Effect.Orderly (S := Api) P.exec (fun w => versionIn P fa w.flash) p w :=
  orderly_outsideCopy laws (hp.mono (fun _ => Op.mayRemove.outsideCopy)) w

/-! ## A boot -/

theorem orderly_loaderAndApp (laws : FwInfoLaws P) {hwRev : HwRev} (found : Bool)
    (hatomic : AllOrNothing w.faults) (hserved : ∀ c ∈ loaderAndAppCalls P hwRev w, SearchServed P c) :
    Effect.Orderly (S := Api) P.exec (fun w => versionIn P fa w.flash)
      (checkLoaderAndApp P hwRev found) w := by
  have hloader := hserved _ List.mem_cons_self
  have happ := hserved _ (List.mem_cons_of_mem _ List.mem_cons_self)
  have hfaults : ((loaderCall w).finish P hwRev).faults = w.faults := run_faults P _ _
  unfold checkLoaderAndApp
  refine orderly_bind (orderly_checkFileAndUpdate laws (c := loaderCall w) hatomic hloader hwRev fa) ?_
  refine orderly_bind (orderly_checkFileAndUpdate laws
    (c := appCall ((loaderCall w).finish P hwRev)) ?_ happ hwRev fa) (orderly_ret _ _)
  show AllOrNothing ((loaderCall w).finish P hwRev).faults
  rw [hfaults]
  exact hatomic

theorem orderly_checkUpdatesOnFs (laws : FwInfoLaws P) {slot : SlotId} {hwRev : HwRev}
    (hatomic : AllOrNothing w.faults) (hserved : ∀ c ∈ updateCalls P slot hwRev w, SearchServed P c) :
    Effect.Orderly (S := Api) P.exec (fun w => versionIn P fa w.flash) (checkUpdatesOnFs P slot hwRev) w := by
  have hother := hserved _ List.mem_cons_self
  rw [checkUpdatesOnFs_eq]
  rcases hrun : P.run (checkFileAndUpdate P slot.otherFile slot.otherFaId hwRev true) w with
    ⟨found, w₁⟩
  have hfinish : (otherSlotCall slot w).finish P hwRev = w₁ := congrArg Prod.snd hrun
  rcases hcheck : P.run (handoverCheck P slot hwRev) w₁ with ⟨ok, w₂⟩
  have hfaults : w₂.faults = w.faults := by
    rw [show w₂ = _ from (congrArg Prod.snd hcheck).symm, run_faults, ← hfinish]
    exact run_faults P _ _
  refine orderly_bind_of (orderly_checkFileAndUpdate laws (c := otherSlotCall slot w) hatomic hother
    hwRev fa) hrun ?_
  refine orderly_bind_of (orderly_mayRemove laws (within_handoverCheck P slot hwRev) w₁) hcheck ?_
  unfold updateCalls at hserved
  rw [hfinish, hcheck] at hserved
  cases ok with
  | true =>
    exact orderly_outsideCopy laws
      ((within_handOver P slot).mono (fun _ => Op.mayInvalidate.outsideCopy)) w₂
  | false =>
    exact orderly_loaderAndApp laws found (hfaults.symm ▸ hatomic)
      (fun c hc => hserved c (List.mem_cons_of_mem _ hc))

/-- Every search for firmware information in a file meets no failing read. -/
def SearchesServed (P : Platform) (slot : SlotId) (hwRev : HwRev) (w : World) : Prop :=
  let m := P.run btldrFsMount w
  m.1 = true → ∀ c ∈ updateCalls P slot hwRev m.2, SearchServed P c

theorem orderly_mcubootFwUpdate (laws : FwInfoLaws P) {slot : SlotId} {hwRev : HwRev}
    (hatomic : AllOrNothing w.faults) (hserved : SearchesServed P slot hwRev w) :
    Effect.Orderly (S := Api) P.exec (fun w => versionIn P fa w.flash) (mcubootFwUpdate P slot hwRev) w := by
  rw [mcubootFwUpdate_eq]
  rcases hmount : P.run btldrFsMount w with ⟨ok, w₁⟩
  have hfaults : w₁.faults = w.faults := by
    rw [show w₁ = _ from (congrArg Prod.snd hmount).symm]
    exact run_faults P _ _
  refine orderly_bind_of (orderly_outsideCopy laws
    (within_mount.mono (fun _ => Op.mayFormat.outsideCopy)) w) hmount ?_
  cases ok with
  | false => exact orderly_ret _ w₁
  | true =>
    unfold SearchesServed at hserved
    rw [hmount] at hserved
    refine orderly_bind (orderly_checkUpdatesOnFs laws (hfaults.symm ▸ hatomic) (hserved rfl)) ?_
    exact orderly_outsideCopy laws
      ((within_bootEnd _).mono (fun _ ho => ho.mayRemove.outsideCopy (f := .app))) _

/-! ## All boots -/

/-- A boot on this flash, from either slot.  The update files, the shared buffer and
the failures are arbitrary, except that erases and writes are done or not done and the
searches for firmware information are served. -/
structure BootsOn (P : Platform) (flash : FaId → Bytes) (w : World) (p : Fw Outcome) : Prop where
  flash : w.flash = flash
  atomic : AllOrNothing w.faults
  updates : ∃ slot hwRev, p = mcubootFwUpdate P slot hwRev ∧ SearchesServed P slot hwRev w

theorem updateCalls_faults {slot : SlotId} {hwRev : HwRev} {c : UpdateCall}
    (hc : c ∈ updateCalls P slot hwRev w) : c.start.faults = w.faults := by
  unfold updateCalls at hc
  rcases List.mem_cons.mp hc with rfl | hc
  · rfl
  · split at hc
    · exact absurd hc List.not_mem_nil
    · simp only [loaderAndAppCalls, List.mem_cons, List.not_mem_nil, or_false] at hc
      rcases hc with rfl | rfl
      · simp only [loaderCall, UpdateCall.finish, run_faults, otherSlotCall]
      · simp only [appCall, loaderCall, UpdateCall.finish, run_faults, otherSlotCall]

theorem bootsOn_of_reliable (hw : Reliable w) (slot : SlotId) (hwRev : HwRev) :
    BootsOn P w.flash w (mcubootFwUpdate P slot hwRev) := by
  refine ⟨rfl, ⟨fun n fa off len => ?_, fun n fa off data => ?_⟩, slot, hwRev, rfl, ?_⟩
  · rw [hw]
    exact Or.inl List.take_nil
  · rw [hw]
    exact Or.inl List.take_nil
  · intro _ c hc area _
    have hstart : Reliable c.start := by
      intro n o
      rw [updateCalls_faults hc, run_faults, hw]
    refine along_of_inv (I := Reliable) (fun o v hv => hv.exec P o) (fun o v hv => ?_) _
      ((hstart.run P _).run P _)
    cases o <;> first | exact True.intro | exact hv _ _

theorem later_of_reliable (hw : Reliable w) (slot : SlotId) (hwRev : HwRev) :
    Later (S := Api) P.exec (BootsOn P) World.flash w.flash
      (P.run (mcubootFwUpdate P slot hwRev) w).2.flash :=
  .mk (bootsOn_of_reliable hw slot hwRev) (.now (reaches_run (mcubootFwUpdate P slot hwRev) w))
    (.start _)

end RuuviMcuboot
