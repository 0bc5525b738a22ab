/-
Specifications of runs.

`Triple` is the triple of a deterministic run that may be cut: a postcondition for
the end of the run and a crash condition for every world on the way.  `Returns`
evaluates a program that only looks at its world: from every world of an
invariant the run comes back to the invariant with one fixed value, or with a
value of `E`, the answers an unreliable environment may force instead.
-/
import RuuviMcuboot.Effect.Footprint

namespace Effect

variable {S : Signature} {W : Type} {α β σ : Type} {A : S.Op → Prop} {h : Handler S W}

/-! ## Triples with a crash condition -/

/-- From every world of `P` the run ends in a result and a world of `Q`, and all
worlds it passes through satisfy `C`. -/
def Triple (h : Handler S W) (P : W → Prop) (p : Prog S α) (Q : α → W → Prop)
    (C : W → Prop) : Prop :=
  ∀ w, P w → (∀ w', Reaches h p w w' → C w') ∧ Q (run h p w).1 (run h p w).2

variable {C : W → Prop}

theorem triple_ret {P : W → Prop} {Q : α → W → Prop} {a : α} (hQ : ∀ w, P w → Q a w)
    (hC : ∀ w, P w → C w) : Triple h P (Prog.ret a) Q C := by
  intro w hw
  refine ⟨fun w' hr => ?_, hQ w hw⟩
  obtain rfl := (reaches_ret a w w').mp hr
  exact hC _ hw

theorem triple_perform {P : W → Prop} {o : S.Op} {Q : S.Res o → W → Prop}
    (hQ : ∀ w, P w → Q (h o w).1 (h o w).2) (hC : ∀ w, P w → C w)
    (hC' : ∀ w, P w → C (h o w).2) : Triple h P (Prog.perform o) Q C := by
  intro w hw
  refine ⟨fun w' hr => ?_, hQ w hw⟩
  rcases (reaches_perform o w w').mp hr with rfl | rfl
  · exact hC _ hw
  · exact hC' _ hw

theorem triple_bind {P : W → Prop} {M : α → W → Prop} {Q : β → W → Prop} {p : Prog S α}
    {f : α → Prog S β} (hp : Triple h P p M C) (hf : ∀ a, Triple h (M a) (f a) Q C) :
    Triple h P (p >>= f) Q C := by
  intro w hw
  obtain ⟨hCp, hM⟩ := hp w hw
  obtain ⟨hCf, hQ⟩ := hf _ _ hM
  refine ⟨fun w' hr => ?_, ?_⟩
  · rcases (reaches_bind p f w w').mp hr with hr | hr
    · exact hCp w' hr
    · exact hCf w' hr
  · rw [run_bind]
    exact hQ

theorem triple_ite {P : W → Prop} {Q : α → W → Prop} {c : Prop} [Decidable c] {p q : Prog S α}
    (hp : c → Triple h P p Q C) (hq : ¬ c → Triple h P q Q C) :
    Triple h P (if c then p else q) Q C := by
  by_cases hc : c
  · rw [if_pos hc]
    exact hp hc
  · rw [if_neg hc]
    exact hq hc

/-- A fact that does not speak about the world is a hypothesis. -/
theorem triple_assume {P : W → Prop} {φ : Prop} {Q : α → W → Prop} {p : Prog S α}
    (hp : φ → Triple h P p Q C) : Triple h (fun w => P w ∧ φ) p Q C :=
  fun w hw => hp hw.2 w hw.1

theorem triple_fact {φ : Prop} {Q : α → W → Prop} {p : Prog S α}
    (hp : φ → Triple h (fun _ => True) p Q C) : Triple h (fun _ => φ) p Q C :=
  fun w hw => hp hw w True.intro

theorem Triple.weaken {P P' : W → Prop} {Q Q' : α → W → Prop} {C' : W → Prop} {p : Prog S α}
    (hp : Triple h P p Q C) (hP : ∀ w, P' w → P w) (hQ : ∀ a w, Q a w → Q' a w)
    (hC : ∀ w, C w → C' w) : Triple h P' p Q' C' := by
  intro w hw
  obtain ⟨hCp, hQp⟩ := hp w (hP w hw)
  exact ⟨fun w' hr => hC w' (hCp w' hr), hQ _ _ hQp⟩

/-- The loop rule: an invariant of the body holds whenever the loop goes round
again, and the body establishes the postcondition when it leaves. -/
theorem triple_loop {I : σ → W → Prop} {Q : α → W → Prop} {body : σ → Prog S (σ ⊕ α)} {stuck : α}
    (hbody : ∀ s, Triple h (I s) (body s) (fun r w => r.elim (I · w) (Q · w)) C)
    (hstuck : ∀ s w, I s w → Q stuck w) (hC : ∀ a w, Q a w → C w) (fuel : Nat) (s : σ) :
    Triple h (I s) (Prog.loop body stuck fuel s) Q C := by
  induction fuel generalizing s with
  | zero => exact triple_ret (hstuck s) (fun w hw => hC _ _ (hstuck s w hw))
  | succ fuel ih =>
    refine triple_bind (hbody s) (fun r => ?_)
    cases r with
    | inl s' => exact ih s'
    | inr a => exact triple_ret (fun w hw => hw) (hC a)

/-- A footprint keeps its invariants. -/
theorem triple_of_within {T : (o : S.Op) → S.Res o → Prop} {I : W → Prop} (hT : Answers h T)
    (hstep : ∀ o w, A o → I w → I (h o w).2) {p : Prog S α} (hp : Within T A p) :
    Triple h I p (fun _ => I) I :=
  fun _ hw => ⟨fun _ hr => hp.reaches_inv hT hstep hr hw, hp.run_inv hT hstep hw⟩

/-! ## Results in every environment -/

/-- Whatever the calls are answered, the result satisfies `Q`. -/
def Ensures (Q : α → Prop) : Prog S α → Prop
  | .ret a => Q a
  | .call _ k => ∀ r, Ensures Q (k r)

section Ensures

variable {M Q : α → Prop} {R : β → Prop}

theorem ensures_bind {p : Prog S α} {f : α → Prog S β} (hp : Ensures M p)
    (hf : ∀ a, M a → Ensures R (f a)) : Ensures R (p >>= f) := by
  induction p with
  | ret a => exact hf a hp
  | call o k ih => exact fun r => ih r (hp r)

/-- The first part may return anything. -/
theorem ensures_skip (p : Prog S α) {f : α → Prog S β} (hf : ∀ a, Ensures R (f a)) :
    Ensures R (p >>= f) := by
  induction p with
  | ret a => exact hf a
  | call o k ih => exact fun r => ih r

theorem ensures_ite {c : Prop} [Decidable c] {p q : Prog S α} (hp : c → Ensures Q p)
    (hq : ¬ c → Ensures Q q) : Ensures Q (if c then p else q) := by
  by_cases hc : c
  · rw [if_pos hc]
    exact hp hc
  · rw [if_neg hc]
    exact hq hc

theorem ensures_loop {J : σ → Prop} {body : σ → Prog S (σ ⊕ α)} {stuck : α}
    (hbody : ∀ s, J s → Ensures (fun r => r.elim J Q) (body s)) (hstuck : Q stuck) (fuel : Nat)
    (s : σ) (hs : J s) : Ensures Q (Prog.loop body stuck fuel s) := by
  induction fuel generalizing s with
  | zero => exact hstuck
  | succ fuel ih =>
    refine ensures_bind (hbody s hs) (fun r hr => ?_)
    cases r with
    | inl s' => exact ih s' hr
    | inr a => exact hr

theorem ensures_mono {Q' : α → Prop} {p : Prog S α} (hQ : ∀ a, Q a → Q' a) (hp : Ensures Q p) :
    Ensures Q' p := by
  induction p with
  | ret a => exact hQ a hp
  | call o k ih => exact fun r => ih r (hp r)

theorem Ensures.run {p : Prog S α} (hp : Ensures Q p) (w : W) : Q (run h p w).1 := by
  induction p generalizing w with
  | ret a => exact hp
  | call o k ih => exact ih _ (hp _) _

end Ensures

/-! ## Evaluation of programs that only look -/

/-- From every world of `I` the run ends in `I` and returns `a`, or a value of
`E`. -/
def Returns (h : Handler S W) (I : W → Prop) (E : α → Prop) (p : Prog S α) (a : α) : Prop :=
  ∀ w, I w → I (run h p w).2 ∧ ((run h p w).1 = a ∨ E (run h p w).1)

/-- From every world of `I` the run ends in `I` and returns a value of `E`. -/
def Fails (h : Handler S W) (I : W → Prop) (E : α → Prop) (p : Prog S α) : Prop :=
  ∀ w, I w → I (run h p w).2 ∧ E (run h p w).1

variable {I : W → Prop}

theorem returns_ret {E : α → Prop} (a : α) : Returns h I E (Prog.ret a) a :=
  fun _ hw => ⟨hw, Or.inl rfl⟩

theorem fails_ret {E : α → Prop} {a : α} (ha : E a) : Fails h I E (Prog.ret a) :=
  fun _ hw => ⟨hw, ha⟩

/-- Evaluate the first part, then the rest at its value.  The continuation has
to turn the environment's own answers of the first part into some of its own. -/
theorem returns_bind {E : α → Prop} {E' : β → Prop} {p : Prog S α} {a : α} {f : α → Prog S β}
    {b : β} (hp : Returns h I E p a) (hE : ∀ e, E e → Fails h I E' (f e))
    (hf : Returns h I E' (f a) b) : Returns h I E' (p >>= f) b := by
  intro w hw
  rw [run_bind]
  obtain ⟨hI, hval | hbad⟩ := hp w hw
  · rw [hval]; exact hf _ hI
  · obtain ⟨hI', hE'⟩ := hE _ hbad _ hI
    exact ⟨hI', Or.inr hE'⟩

/-- Evaluate the branch that is taken. -/
theorem returns_ite {E : α → Prop} {c : Prop} [Decidable c] {p q : Prog S α} {a : α}
    (hp : c → Returns h I E p a) (hq : ¬ c → Returns h I E q a) :
    Returns h I E (if c then p else q) a := by
  by_cases hc : c
  · rw [if_pos hc]
    exact hp hc
  · rw [if_neg hc]
    exact hq hc

theorem Returns.fst {E : α → Prop} {p : Prog S α} {a : α} (hp : Returns h I E p a) {w : W}
    (hw : I w) (hE : ∀ e, ¬ E e) : (run h p w).1 = a :=
  ((hp w hw).2).resolve_right (hE _)

/-- The pure counterpart of `Prog.loop`. -/
def iterate (body : σ → σ ⊕ α) (stuck : α) : Nat → σ → α
  | 0, _ => stuck
  | fuel + 1, s =>
    match body s with
    | .inl s' => iterate body stuck fuel s'
    | .inr a => a

theorem iterate_inl {body : σ → σ ⊕ α} {stuck : α} {s s' : σ} (hs : body s = .inl s')
    (fuel : Nat) : iterate body stuck (fuel + 1) s = iterate body stuck fuel s' := by
  simp only [iterate, hs]

theorem iterate_inr {body : σ → σ ⊕ α} {stuck a : α} {s : σ} (hs : body s = .inr a)
    (fuel : Nat) : iterate body stuck (fuel + 1) s = a := by
  simp only [iterate, hs]

/-- A loop evaluates round by round, as long as its states keep `J`. -/
theorem returns_loop {E : α → Prop} {J : σ → Prop} {body : σ → Prog S (σ ⊕ α)}
    {pureBody : σ → σ ⊕ α} {stuck : α}
    (hbody : ∀ s, J s → Returns h I (fun r => ∃ e, r = Sum.inr e ∧ E e) (body s) (pureBody s))
    (hJ : ∀ s s', J s → pureBody s = .inl s' → J s') (fuel : Nat) (s : σ) (hs : J s) :
    Returns h I E (Prog.loop body stuck fuel s) (iterate pureBody stuck fuel s) := by
  induction fuel generalizing s with
  | zero => exact returns_ret stuck
  | succ fuel ih =>
    refine returns_bind (hbody s hs) ?_ ?_
    · rintro e ⟨e', rfl, hE⟩
      exact fails_ret hE
    · simp only [iterate]
      cases hr : pureBody s with
      | inl s' => exact ih s' (hJ s s' hs hr)
      | inr a => exact returns_ret a

end Effect
