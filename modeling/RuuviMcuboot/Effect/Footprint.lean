/-
Footprints: which calls a program may issue.

`Within T A p` says that every call of `p` satisfies `A`, as long as the answers
to the calls before it satisfy `T`.  It is a property of the program text, so it
is proved once per program by following its branches, and every frame fact is
then read off a handler whose answers satisfy `T`: what no call in `A` changes, no
run of `p` changes, at its end or on the way.
-/
import RuuviMcuboot.Effect.Prog

namespace Effect

variable {S : Signature} {W V X : Type} {α β σ : Type} {T : (o : S.Op) → S.Res o → Prop}
  {A B : S.Op → Prop} {h : Handler S W} {g : Handler S V}

/-- Every call the program may issue satisfies `A`. -/
def Within (T : (o : S.Op) → S.Res o → Prop) (A : S.Op → Prop) : Prog S α → Prop
  | .ret _ => True
  | .call o k => A o ∧ ∀ r, T o r → Within T A (k r)

theorem within_ret (a : α) : Within T A (Prog.ret a) := True.intro

theorem within_perform {o : S.Op} (ho : A o) : Within T A (Prog.perform o) :=
  ⟨ho, fun _ _ => True.intro⟩

/-- A call followed by a rest that may rely on the answer being one of `T`. -/
theorem within_perform_bind {o : S.Op} {f : S.Res o → Prog S β} (ho : A o)
    (hf : ∀ r, T o r → Within T A (f r)) : Within T A (Prog.perform o >>= f) := ⟨ho, hf⟩

theorem within_bind {p : Prog S α} {f : α → Prog S β} (hp : Within T A p)
    (hf : ∀ a, Within T A (f a)) : Within T A (p >>= f) := by
  induction p with
  | ret a => exact hf a
  | call o k ih => exact ⟨hp.1, fun r hr => ih r (hp.2 r hr)⟩

theorem within_ite {c : Prop} [Decidable c] {p q : Prog S α} (hp : Within T A p)
    (hq : Within T A q) : Within T A (if c then p else q) := by
  by_cases hc : c
  · rw [if_pos hc]; exact hp
  · rw [if_neg hc]; exact hq

theorem Within.mono {p : Prog S α} (hp : Within T A p) (hAB : ∀ o, A o → B o) :
    Within T B p := by
  induction p with
  | ret a => exact True.intro
  | call o k ih => exact ⟨hAB o hp.1, fun r hr => ih r (hp.2 r hr)⟩

theorem within_loop {body : σ → Prog S (σ ⊕ α)} (hbody : ∀ s, Within T A (body s)) (stuck : α)
    (fuel : Nat) (s : σ) : Within T A (Prog.loop body stuck fuel s) := by
  induction fuel generalizing s with
  | zero => exact True.intro
  | succ fuel ih =>
    refine within_bind (hbody s) (fun r => ?_)
    cases r with
    | inl s' => exact ih s'
    | inr a => exact True.intro

/-! ## What a footprint leaves alone -/

/-- The handler gives answers of `T` only. -/
def Answers (h : Handler S W) (T : (o : S.Op) → S.Res o → Prop) : Prop := ∀ o w, T o (h o w).1

/-- The calls of every run are calls of the footprint. -/
theorem Within.trace (hT : Answers h T) {p : Prog S α} (hp : Within T A p) (w : W) :
    ∀ e ∈ Effect.trace h p w, A e.op := by
  induction p generalizing w with
  | ret a => exact fun e he => absurd he List.not_mem_nil
  | call o k ih => exact List.forall_mem_cons.mpr ⟨hp.1, ih _ (hp.2 _ (hT o w)) _⟩

/-- A preorder kept by every call of the footprint relates the start of a run to
every world on the way. -/
theorem Within.reaches_rel (hT : Answers h T) {R : W → W → Prop} (hrefl : ∀ w, R w w)
    (htrans : ∀ a b c, R a b → R b c → R a c) (hstep : ∀ o w, A o → R w (h o w).2)
    {p : Prog S α} (hp : Within T A p) {w w' : W} (hr : Reaches h p w w') : R w w' := by
  induction hr with
  | here _ w => exact hrefl w
  | step o k w w' _ ih => exact htrans _ _ _ (hstep o w hp.1) (ih (hp.2 _ (hT o w)))

/-- A part of the world that no call of the footprint changes is the same in
every world on the way. -/
theorem Within.reaches_eq (hT : Answers h T) {f : W → X}
    (hstep : ∀ o w, A o → f (h o w).2 = f w) {p : Prog S α} (hp : Within T A p) {w w' : W}
    (hr : Reaches h p w w') : f w' = f w :=
  hp.reaches_rel hT (R := fun a b => f b = f a) (fun _ => rfl)
    (fun _ _ _ hab hbc => hbc.trans hab) hstep hr

theorem Within.run_eq (hT : Answers h T) {f : W → X} (hstep : ∀ o w, A o → f (h o w).2 = f w)
    {p : Prog S α} (hp : Within T A p) (w : W) : f (run h p w).2 = f w :=
  hp.reaches_eq hT hstep (reaches_run p w)

/-- An invariant of every call of the footprint is an invariant of the run. -/
theorem Within.reaches_inv (hT : Answers h T) {I : W → Prop}
    (hstep : ∀ o w, A o → I w → I (h o w).2) {p : Prog S α} (hp : Within T A p) {w w' : W}
    (hr : Reaches h p w w') (hw : I w) : I w' :=
  hp.reaches_rel hT (R := fun a b => I a → I b) (fun _ ha => ha)
    (fun _ _ _ hab hbc ha => hbc (hab ha)) hstep hr hw

theorem Within.run_inv (hT : Answers h T) {I : W → Prop}
    (hstep : ∀ o w, A o → I w → I (h o w).2) {p : Prog S α} (hp : Within T A p) {w : W}
    (hw : I w) : I (run h p w).2 :=
  hp.reaches_inv hT hstep (reaches_run p w) hw

/-- What holds on the way and is kept by every call of the footprint holds at the end. -/
theorem Within.run_inv_of_reaches (hT : Answers h T) {I : W → Prop}
    (hstep : ∀ o w, A o → I w → I (h o w).2) {p : Prog S α} (hp : Within T A p) {w w' : W}
    (hr : Reaches h p w w') (hw : I w') : I (run h p w).2 := by
  induction hr with
  | here => exact hp.run_inv hT hstep hw
  | step o k w w' _ ih => exact ih (hp.2 _ (hT o w)) hw

/-- Two environments that answer every call of the footprint alike, and stay
related, give the same result: the run depends only on what the relation fixes. -/
theorem Within.run_congr (hT : Answers h T) {R : W → V → Prop}
    (hstep : ∀ o w v, A o → R w v → (h o w).1 = (g o v).1 ∧ R (h o w).2 (g o v).2)
    {p : Prog S α} (hp : Within T A p) {w : W} {v : V} (hR : R w v) :
    (run h p w).1 = (run g p v).1 ∧ R (run h p w).2 (run g p v).2 := by
  induction p generalizing w v with
  | ret a => exact ⟨rfl, hR⟩
  | call o k ih =>
    obtain ⟨hres, hnext⟩ := hstep o w v hp.1 hR
    rw [run_call, run_call, ← hres]
    exact ih _ (hp.2 _ (hT o w)) hnext

end Effect
