/-
Properties of the calls of one run.

`Within` speaks about every call a program may issue.  `Along` speaks about the
calls one run does issue, each in the world it is issued in: that a driver is
never asked for something it refuses, or that the environment serves every call.
-/
import RuuviMcuboot.Effect.Footprint

namespace Effect

variable {S : Signature} {W : Type} {α β σ : Type} {T : (o : S.Op) → S.Res o → Prop}
  {A : S.Op → Prop} {B C : S.Op → W → Prop} {h : Handler S W}

/-- Every call of the run satisfies `B` in the world it is issued in. -/
def Along (h : Handler S W) (B : S.Op → W → Prop) : Prog S α → W → Prop
  | .ret _, _ => True
  | .call o k, w => B o w ∧ Along h B (k (h o w).1) (h o w).2

def Along.dec [∀ o w, Decidable (B o w)] : (p : Prog S α) → (w : W) → Decidable (Along h B p w)
  | .ret _, _ => inferInstanceAs (Decidable True)
  | .call o k, w =>
    have := Along.dec (k (h o w).1) (h o w).2
    inferInstanceAs (Decidable (B o w ∧ Along h B (k (h o w).1) (h o w).2))

instance [∀ o w, Decidable (B o w)] (p : Prog S α) (w : W) : Decidable (Along h B p w) :=
  Along.dec p w

theorem along_ret (a : α) (w : W) : Along h B (Prog.ret a) w := True.intro

theorem along_perform (o : S.Op) (w : W) : Along h B (Prog.perform o) w ↔ B o w := by
  show B o w ∧ True ↔ _
  exact and_iff_left True.intro

theorem along_bind (p : Prog S α) (f : α → Prog S β) (w : W) :
    Along h B (p >>= f) w ↔
      Along h B p w ∧ Along h B (f (run h p w).1) (run h p w).2 := by
  induction p generalizing w with
  | ret a =>
    show Along h B (f a) w ↔ True ∧ Along h B (f a) w
    exact (and_iff_right True.intro).symm
  | call o k ih =>
    show B o w ∧ Along h B (k (h o w).1 >>= f) (h o w).2 ↔
      (B o w ∧ Along h B (k (h o w).1) (h o w).2) ∧ _
    rw [ih, and_assoc]
    rfl

/-- The first part is known to end at `a` in `w'`. -/
theorem along_bind_of {p : Prog S α} {f : α → Prog S β} {w w' : W} {a : α}
    (hp : run h p w = (a, w')) :
    Along h B (p >>= f) w ↔ Along h B p w ∧ Along h B (f a) w' := by
  rw [along_bind, hp]

theorem Along.mono (hBC : ∀ o w, B o w → C o w) {p : Prog S α} {w : W} (hp : Along h B p w) :
    Along h C p w := by
  induction p generalizing w with
  | ret a => exact True.intro
  | call o k ih => exact ⟨hBC o w hp.1, ih _ hp.2⟩

/-- In every world of an invariant every call satisfies `B`. -/
theorem along_of_inv {I : W → Prop} (hI : ∀ o w, I w → I (h o w).2) (hB : ∀ o w, I w → B o w)
    (p : Prog S α) {w : W} (hw : I w) : Along h B p w := by
  induction p generalizing w with
  | ret a => exact True.intro
  | call o k ih => exact ⟨hB o w hw, ih _ (hI o w hw)⟩

/-- The loop rule: an invariant of the rounds under which every call of a round
satisfies `B`. -/
theorem along_loop {I : σ → W → Prop} {body : σ → Prog S (σ ⊕ α)} {stuck : α}
    (hbody : ∀ s w, I s w → Along h B (body s) w)
    (hnext : ∀ s w s', I s w → (run h (body s) w).1 = .inl s' → I s' (run h (body s) w).2)
    (fuel : Nat) (s : σ) (w : W) (hs : I s w) : Along h B (Prog.loop body stuck fuel s) w := by
  induction fuel generalizing s w with
  | zero => exact along_ret stuck w
  | succ fuel ih =>
    refine (along_bind _ _ _).mpr ⟨hbody s w hs, ?_⟩
    cases hr : (run h (body s) w).1 with
    | inl s' => exact ih s' _ (hnext s w s' hs hr)
    | inr a => exact along_ret a _

/-- What holds of every call of a footprint holds along its runs. -/
theorem Within.along (hT : Answers h T) (hAB : ∀ o w, A o → B o w) {p : Prog S α}
    (hp : Within T A p) (w : W) : Along h B p w := by
  induction p generalizing w with
  | ret a => exact True.intro
  | call o k ih => exact ⟨hAB o w hp.1, ih _ (hp.2 _ (hT o w)) _⟩

/-- An invariant of the calls of a footprint that satisfy `B` is an invariant of a run all
of whose calls do. -/
theorem Within.reaches_inv_along (hT : Answers h T) {I : W → Prop}
    (hstep : ∀ o w, A o → B o w → I w → I (h o w).2) {p : Prog S α} (hp : Within T A p) {w w' : W}
    (hB : Along h B p w) (hr : Reaches h p w w') (hw : I w) : I w' := by
  induction hr with
  | here => exact hw
  | step o k w w' _ ih => exact ih (hp.2 _ (hT o w)) hB.2 (hstep o w hp.1 hB.1 hw)

/-- Two environments give the same result along a run all of whose calls they answer
alike. -/
theorem Within.run_congr_along {V : Type} {g : Handler S V} (hT : Answers h T) {R : W → V → Prop}
    (hstep : ∀ o w v, A o → B o w → R w v → (h o w).1 = (g o v).1 ∧ R (h o w).2 (g o v).2)
    {p : Prog S α} (hp : Within T A p) {w : W} {v : V} (hB : Along h B p w) (hR : R w v) :
    (run h p w).1 = (run g p v).1 ∧ R (run h p w).2 (run g p v).2 := by
  induction p generalizing w v with
  | ret a => exact ⟨rfl, hR⟩
  | call o k ih =>
    obtain ⟨hres, hnext⟩ := hstep o w v hp.1 hB.1 hR
    rw [run_call, run_call, ← hres]
    exact ih _ (hp.2 _ (hT o w)) hB.2 hnext

end Effect
