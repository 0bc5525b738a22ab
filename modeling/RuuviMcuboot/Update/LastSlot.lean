/-
The last bootable MCUboot slot.

A boot never touches the slot it runs from, but for one step: from slot 0 a hand-over
invalidates it, whatever slot 1 holds.  As long as slot 1 is bootable where that happens,
some slot stays bootable over any boots, failures and power cuts.
-/
import RuuviMcuboot.Effect.Along
import RuuviMcuboot.Update.Handover

namespace RuuviMcuboot

open Binary Effect

variable {P : Platform} {w w' : World}

/-! ## Slots -/

/-- The first-stage bootloader finds a slot that it starts. -/
def SomeBootable (P : Platform) (flash : FaId → Bytes) : Prop :=
  P.bootable .s0 (flash .s0) = true ∨ P.bootable .s1 (flash .s1) = true

theorem someBootable_of_active {flash : FaId → Bytes} {slot : SlotId}
    (h : P.bootable slot.activeFaId (flash slot.activeFaId) = true) : SomeBootable P flash := by
  cases slot with
  | slot0 => exact Or.inl h
  | slot1 => exact Or.inr h

theorem activeFaId_ne_otherFaId (slot : SlotId) : slot.activeFaId ≠ slot.otherFaId := by
  cases slot <;> decide

/-- An invalidation of slot 0 that goes through finds slot 1 bootable. -/
def InvalidatesSafely (P : Platform) (o : Op) (w : World) : Prop :=
  o = .fwInfoInvalidate .s0 → (w.faults w.clock o).rc? = none →
    P.bootable .s1 (w.flash .s1) = true

instance (o : Op) (w : World) : Decidable (InvalidatesSafely P o w) :=
  inferInstanceAs (Decidable (_ → _))

/-! ## A boot -/

theorem exec_someBootable {o : Op} (ho : o.mayInvalidate .s0) (hsafe : InvalidatesSafely P o w)
    (hw : SomeBootable P w.flash) : SomeBootable P (P.exec o w).2.flash := by
  rcases ho with ho | rfl
  · rw [exec_flash_of_inspects P ho]
    exact hw
  · cases hrc : (w.faults w.clock (.fwInfoInvalidate .s0)).rc? with
    | some rc =>
      have hsame : (P.exec (.fwInfoInvalidate .s0) w).2.flash = w.flash := by
        simp only [Platform.exec, hrc]
        rfl
      rw [hsame]
      exact hw
    | none =>
      have hs1 : Op.spares .s1 (.fwInfoInvalidate .s0) := by
        show FaId.s1 ≠ .s0
        decide
      right
      rw [exec_flash_of_spares P hs1]
      exact hsafe rfl hrc

theorem bootable_of_spares {fa : FaId} {α : Type} {p : Fw α} (hp : Issues (Op.spares fa) p)
    (hr : Reaches (S := Api) P.exec p w w') (hw : P.bootable fa (w.flash fa) = true) :
    P.bootable fa (w'.flash fa) = true := by
  rw [hp.reaches_eq (exec_answers P) (f := fun v : World => v.flash fa)
    (fun _ v ho => exec_flash_of_spares P ho v) hr]
  exact hw

/-- A boot on this flash from a bootable slot, in which nothing invalidates slot 0 while
slot 1 is not bootable.  The update files, the contents of the shared buffer and the
failures are arbitrary. -/
structure BootsSafely (P : Platform) (flash : FaId → Bytes) (w : World) (p : Fw Outcome) :
    Prop where
  onFlash : w.flash = flash
  updates : ∃ slot v hwRev, P.bootable slot.activeFaId (flash slot.activeFaId) = true ∧
    p = mcubootFwUpdate (P.running v) slot hwRev
  safe : Along (S := Api) P.exec (InvalidatesSafely P) p w

/-- The end of a boot that hands over. -/
theorem someBootable_handOver {Q : Platform} {slot : SlotId}
    (hsafe : Along (S := Api) P.exec (InvalidatesSafely P) (handOver Q slot >>= bootEnd) w)
    (hr : Reaches (S := Api) P.exec (handOver Q slot >>= bootEnd) w w')
    (hw : SomeBootable P w.flash) : SomeBootable P w'.flash := by
  have hissues : Issues (Op.mayInvalidate .s0) (handOver Q slot >>= bootEnd) :=
    within_bind (within_handOver Q slot) (fun b => (within_bootEnd b).mono (fun _ => Or.inl))
  exact hissues.reaches_inv_along (exec_answers P) (I := fun v => SomeBootable P v.flash)
    (fun o v ho hs hv => exec_someBootable ho hs hv) hsafe hr hw

/-- A boot leaves the slot it runs from alone until it hands over. -/
theorem someBootable_of_boot {flash : FaId → Bytes} {p : Fw Outcome}
    (h : BootsSafely P flash w p) (hr : Reaches (S := Api) P.exec p w w') :
    SomeBootable P w'.flash := by
  obtain ⟨rfl, ⟨slot, v, hwRev, hactive, rfl⟩, hsafe⟩ := h
  have hother := activeFaId_ne_otherFaId slot
  rw [mcubootFwUpdate_eq] at hr hsafe
  rw [along_bind] at hsafe
  have hmount : Issues (Op.spares slot.activeFaId) btldrFsMount :=
    within_mount.mono (fun _ ho => ho.spares (by cases slot <;> decide))
  rcases (reaches_bind _ _ _ _).mp hr with hr | hr
  · exact someBootable_of_active (bootable_of_spares hmount hr hactive)
  have hactive := bootable_of_spares (P := P) hmount (reaches_run _ w) hactive
  replace hsafe := hsafe.2
  generalize Effect.run P.exec btldrFsMount w = m at hr hsafe hactive
  cases hm : m.1 with
  | false =>
    rw [hm] at hr
    exact someBootable_of_active
      (bootable_of_spares (within_ret (S := Api) (T := Op.Answered) Outcome.returned) hr hactive)
  | true =>
    rw [hm, if_pos rfl, checkUpdatesOnFs_eq, Prog.bind_assoc] at hr
    rw [hm, if_pos rfl, checkUpdatesOnFs_eq, Prog.bind_assoc, along_bind] at hsafe
    have hupdate : Issues (Op.spares slot.activeFaId) (checkFileAndUpdate (P.running v)
        slot.otherFile slot.otherFaId hwRev true) :=
      (within_checkFileAndUpdate _ hwRev true).mono (fun _ ho => ho.spares hother)
    rcases (reaches_bind _ _ _ _).mp hr with hr | hr
    · exact someBootable_of_active (bootable_of_spares hupdate hr hactive)
    have hactive := bootable_of_spares hupdate (reaches_run _ m.2) hactive
    replace hsafe := hsafe.2
    generalize Effect.run P.exec (checkFileAndUpdate (P.running v) slot.otherFile slot.otherFaId
      hwRev true) m.2 = u at hr hsafe hactive
    rw [Prog.bind_assoc] at hr
    rw [Prog.bind_assoc, along_bind] at hsafe
    have hcheck : Issues (Op.spares slot.activeFaId) (handoverCheck (P.running v) slot hwRev) :=
      (within_handoverCheck _ slot hwRev).mono (fun _ ho => ho.spares)
    rcases (reaches_bind _ _ _ _).mp hr with hr | hr
    · exact someBootable_of_active (bootable_of_spares hcheck hr hactive)
    have hactive := bootable_of_spares hcheck (reaches_run _ u.2) hactive
    replace hsafe := hsafe.2
    generalize Effect.run P.exec (handoverCheck (P.running v) slot hwRev) u.2 = c
      at hr hsafe hactive
    cases hc : c.1 with
    | true =>
      rw [hc, if_pos rfl] at hr hsafe
      exact someBootable_handOver hsafe hr (someBootable_of_active hactive)
    | false =>
      rw [hc, if_neg (by decide)] at hr
      refine someBootable_of_active (bootable_of_spares ?_ hr hactive)
      refine within_bind ((within_loaderAndApp _ hwRev u.1).mono (fun o ho => ?_))
        (fun b => (within_bootEnd b).mono (fun _ ho => ho.spares))
      rcases ho with ho | ho
      · exact ho.spares (by cases slot <;> decide)
      · exact ho.spares (by cases slot <;> decide)

/-! ## All boots -/

/-- Over any safe boots some slot is bootable at every point. -/
theorem some_slot_stays_bootable {flash flash' : FaId → Bytes}
    (h : Survives (S := Api) P.exec (BootsSafely P) World.flash flash flash')
    (hstart : SomeBootable P flash) : SomeBootable P flash' :=
  h.invariant (I := SomeBootable P) (fun _ _ _ _ _ hboot hr => someBootable_of_boot hboot hr) hstart

open Reference in
/-- A hand-over with a bootable image in slot 1. -/
theorem newerFile_keeps_a_slot :
    let P := platform 160
    SomeBootable P (P.run (mcubootFwUpdate P .slot0 slotRev) (bootForSlot0 newerFile)).2.flash := by
  intro P
  have hactive : P.bootable .s0 ((bootForSlot0 newerFile).flash .s0) = true := by decide +kernel
  have hsafe : Along (S := Api) P.exec (InvalidatesSafely P) (mcubootFwUpdate P .slot0 slotRev)
      (bootForSlot0 newerFile) := by decide +kernel
  have hboot : BootsSafely P (bootForSlot0 newerFile).flash (bootForSlot0 newerFile)
      (mcubootFwUpdate P .slot0 slotRev) :=
    ⟨rfl, ⟨.slot0, P.mcubootS0S1ImageVersion, slotRev, hactive, rfl⟩, hsafe⟩
  exact some_slot_stays_bootable (.boot (.start _) hboot (reaches_run _ _)) (Or.inl hactive)

namespace Reference

/-- The same boot with an erased slot 1. -/
def bootOnLastSlot (d : FileData) : World :=
  (bootForSlot0 d).setFlash .s1 (blank 160)

end Reference

open Reference in
/-- A hand-over with an erased slot 1, in a boot in which nothing fails. -/
theorem last_slot_invalidated :
    let P := platform 160
    let w := bootOnLastSlot newerFile
    Reliable w ∧ P.bootable .s0 (w.flash .s0) = true ∧
      ¬ SomeBootable P (P.run (mcubootFwUpdate P .slot0 slotRev) w).2.flash := by
  intro P w
  have hs0 : P.bootable .s0 ((P.run (mcubootFwUpdate P .slot0 slotRev) w).2.flash .s0) = false := by
    decide +kernel
  have hs1 : P.bootable .s1 ((P.run (mcubootFwUpdate P .slot0 slotRev) w).2.flash .s1) = false := by
    decide +kernel
  refine ⟨fun _ _ => rfl, by decide +kernel, fun h => ?_⟩
  rcases h with h | h
  · exact Bool.false_ne_true (hs0.symm.trans h)
  · exact Bool.false_ne_true (hs1.symm.trans h)

end RuuviMcuboot
