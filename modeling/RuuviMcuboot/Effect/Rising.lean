/-
Observations that never fall.

An observation of the world may be missing for a while, but whenever it is there it
is at least what it was at any time before.  `Passes` relates two worlds of one run,
the first of them passed earlier; `Later` does the same over restarts.  A program is
orderly if it lets no observation fall and brings back none that is missing at its
start: this much composes, over sequences and over restarts.
-/
import Mathlib.Order.Basic
import RuuviMcuboot.Effect.Restart

namespace Effect

variable {S : Signature} {W D V : Type} {α β : Type} {h : Handler S W}

/-! ## Two worlds of a run -/

/-- The run of `p` from `w` passes through `w₁`, and then or there through `w₂`. -/
inductive Passes (h : Handler S W) : Prog S α → W → W → W → Prop where
  | now {p : Prog S α} {w w₂ : W} (hr : Reaches h p w w₂) : Passes h p w w w₂
  | later (o : S.Op) (k : S.Res o → Prog S α) {w w₁ w₂ : W}
      (next : Passes h (k (h o w).1) (h o w).2 w₁ w₂) : Passes h (.call o k) w w₁ w₂

theorem passes_ret {a : α} {w w₁ w₂ : W} (hp : Passes h (Prog.ret a) w w₁ w₂) :
    w₁ = w ∧ w₂ = w := by
  cases hp with
  | now hr => exact ⟨rfl, (reaches_ret _ _ _).mp hr⟩

/-- Both worlds of a pair are reached. -/
theorem Passes.reaches {p : Prog S α} {w w₁ w₂ : W} (hp : Passes h p w w₁ w₂) :
    Reaches h p w w₁ ∧ Reaches h p w w₂ := by
  induction hp with
  | now hr => exact ⟨.here _ _, hr⟩
  | later o k _ ih => exact ⟨.step o k _ _ ih.1, .step o k _ _ ih.2⟩

/-- The worlds of a pair lie in the first part, on both sides of the end of it, or in
the rest. -/
theorem Passes.bind_cases {p : Prog S α} {f : α → Prog S β} {w w₁ w₂ : W}
    (hp : Passes h (p >>= f) w w₁ w₂) :
    Passes h p w w₁ w₂ ∨
      (Passes h p w w₁ (run h p w).2 ∧ Reaches h (f (run h p w).1) (run h p w).2 w₂) ∨
        Passes h (f (run h p w).1) (run h p w).2 w₁ w₂ := by
  induction p generalizing w with
  | ret a => exact Or.inr (Or.inr hp)
  | call o k ih =>
    cases hp with
    | now hr =>
      rcases (reaches_bind (.call o k) f _ _).mp hr with hr | hr
      · exact Or.inl (.now hr)
      · exact Or.inr (Or.inl ⟨.now (reaches_run _ _), hr⟩)
    | later _ _ next =>
      rcases ih _ next with hp | ⟨hp, hr⟩ | hp
      · exact Or.inl (.later o k hp)
      · exact Or.inr (Or.inl ⟨.later o k hp, hr⟩)
      · exact Or.inr (Or.inr hp)

/-! ## Orderly runs -/

section Orderly

variable [Preorder V] {obs : W → Option V}

/-- Where both are there, the second is not below the first. -/
def NotBelow (x y : Option V) : Prop := ∀ v u, x = some v → y = some u → v ≤ u

theorem notBelow_self (x : Option V) : NotBelow x x := by
  intro v u hv hu
  exact le_of_eq (Option.some.inj (hv.symm.trans hu))

theorem notBelow_none (x : Option V) : NotBelow x none := fun _ _ _ hu => nomatch hu

/-- The observation does not fall in the run. -/
def Rises (h : Handler S W) (obs : W → Option V) (p : Prog S α) (w : W) : Prop :=
  ∀ w₁ w₂, Passes h p w w₁ w₂ → NotBelow (obs w₁) (obs w₂)

/-- The observation does not fall in the run, nor does it come back. -/
structure Orderly (h : Handler S W) (obs : W → Option V) (p : Prog S α) (w : W) : Prop where
  rises : Rises h obs p w
  absorbs : obs w = none → ∀ w', Reaches h p w w' → obs w' = none

/-- A run that leaves the observation alone. -/
theorem orderly_of_const {p : Prog S α} {w : W} (hp : ∀ w', Reaches h p w w' → obs w' = obs w) :
    Orderly h obs p w := by
  refine ⟨fun w₁ w₂ hpass => ?_, fun hnone w' hr => (hp w' hr).trans hnone⟩
  rw [hp w₁ hpass.reaches.1, hp w₂ hpass.reaches.2]
  exact notBelow_self _

/-- What was there before an orderly run is not above what is there in it. -/
theorem Orderly.notBelow {x : Option V} {p : Prog S α} {w w' : W} (hp : Orderly h obs p w)
    (hx : NotBelow x (obs w)) (hr : Reaches h p w w') : NotBelow x (obs w') := by
  cases hstart : obs w with
  | none =>
    rw [hp.absorbs hstart w' hr]
    exact notBelow_none x
  | some m =>
    intro v u hv hu
    exact le_trans (hx v m hv hstart) (hp.rises w w' (.now hr) m u hstart hu)

theorem orderly_bind {p : Prog S α} {f : α → Prog S β} {w : W} (hp : Orderly h obs p w)
    (hf : Orderly h obs (f (run h p w).1) (run h p w).2) : Orderly h obs (p >>= f) w := by
  constructor
  · intro w₁ w₂ hpass
    rcases hpass.bind_cases with hpass | ⟨hpass, hr⟩ | hpass
    · exact hp.rises w₁ w₂ hpass
    · exact hf.notBelow (hp.rises w₁ _ hpass) hr
    · exact hf.rises w₁ w₂ hpass
  · intro hnone w' hr
    rcases (reaches_bind p f w w').mp hr with hr | hr
    · exact hp.absorbs hnone w' hr
    · exact hf.absorbs (hp.absorbs hnone _ (reaches_run p w)) w' hr

/-- The end of the first part is known. -/
theorem orderly_bind_of {p : Prog S α} {f : α → Prog S β} {w w' : W} {a : α}
    (hp : Orderly h obs p w) (hrun : run h p w = (a, w')) (hf : Orderly h obs (f a) w') :
    Orderly h obs (p >>= f) w := by
  refine orderly_bind hp ?_
  rw [hrun]
  exact hf

/-- A first part that leaves the observation alone. -/
theorem rises_const_bind {p : Prog S α} {f : α → Prog S β} {w : W}
    (hp : ∀ w', Reaches h p w w' → obs w' = obs w)
    (hf : Rises h obs (f (run h p w).1) (run h p w).2) : Rises h obs (p >>= f) w := by
  intro w₁ w₂ hpass
  have hend : obs (run h p w).2 = obs w := hp _ (reaches_run p w)
  rcases hpass.bind_cases with hpass | ⟨hpass, hr⟩ | hpass
  · exact (orderly_of_const hp).rises w₁ w₂ hpass
  · rw [hp w₁ hpass.reaches.1, ← hend]
    exact hf _ _ (.now hr)
  · exact hf w₁ w₂ hpass

/-- The end of the first part is known. -/
theorem rises_const_bind_of {p : Prog S α} {f : α → Prog S β} {w w' : W} {a : α}
    (hp : ∀ w', Reaches h p w w' → obs w' = obs w) (hrun : run h p w = (a, w'))
    (hf : Rises h obs (f a) w') : Rises h obs (p >>= f) w := by
  refine rises_const_bind hp ?_
  rw [hrun]
  exact hf

/-- A rest that leaves the observation alone. -/
theorem rises_bind_const {p : Prog S α} {f : α → Prog S β} {w : W} (hp : Rises h obs p w)
    (hf : ∀ a v w', Reaches h (f a) v w' → obs w' = obs v) : Rises h obs (p >>= f) w := by
  intro w₁ w₂ hpass
  rcases hpass.bind_cases with hpass | ⟨hpass, hr⟩ | hpass
  · exact hp w₁ w₂ hpass
  · rw [hf _ _ w₂ hr]
    exact hp w₁ _ hpass
  · exact (orderly_of_const (hf _ _)).rises w₁ w₂ hpass

/-- A first call after which nothing below the start is observed. -/
theorem rises_call {o : S.Op} {k : S.Res o → Prog S α} {w : W}
    (hnext : ∀ w', Reaches h (k (h o w).1) (h o w).2 w' → NotBelow (obs w) (obs w'))
    (hk : Rises h obs (k (h o w).1) (h o w).2) : Rises h obs (.call o k) w := by
  intro w₁ w₂ hpass
  cases hpass with
  | now hr =>
    cases hr with
    | here => exact notBelow_self _
    | step _ _ _ _ hr => exact hnext w₂ hr
  | later _ _ next => exact hk w₁ w₂ next

/-- A run in which at most one value is ever observed. -/
theorem rises_of_single {u : V} {p : Prog S α} {w : W}
    (hp : ∀ w', Reaches h p w w' → obs w' = none ∨ obs w' = some u) : Rises h obs p w := by
  intro w₁ w₂ hpass x y hx hy
  have hsame : ∀ {w' z}, Reaches h p w w' → obs w' = some z → z = u := by
    intro w' z hr hz
    rcases hp w' hr with hnone | hsome
    · exact absurd (hnone.symm.trans hz) (by simp)
    · exact Option.some.inj (hz.symm.trans hsome)
  rw [hsame hpass.reaches.1 hx, hsame hpass.reaches.2 hy]

end Orderly

/-! ## Restarts -/

/-- In some sequence of boots `d` is durable at some time and `d'` at a later one. -/
inductive Later (h : Handler S W) (launch : D → W → Prog S α → Prop) (durable : W → D) :
    D → D → Prop where
  | mk {d₀ d' : D} {w w₁ w₂ : W} {p : Prog S α} (hlaunch : launch d₀ w p)
      (hp : Passes h p w w₁ w₂) (hs : Survives h launch durable (durable w₂) d') :
      Later h launch durable (durable w₁) d'

/-- Over orderly boots an observation of what is durable never falls. -/
theorem Later.notBelow [Preorder V] {launch : D → W → Prog S α → Prop} {durable : W → D}
    {obs : D → Option V}
    (hboot : ∀ d w p, launch d w p → durable w = d ∧ Orderly h (fun w => obs (durable w)) p w)
    {d d' : D} (hl : Later h launch durable d d') : NotBelow (obs d) (obs d') := by
  obtain ⟨hlaunch, hp, hs⟩ := hl
  refine hs.invariant (I := fun d => NotBelow _ (obs d)) (fun d w p w' hd hlaunch hr => ?_)
    ((hboot _ _ _ hlaunch).2.rises _ _ hp)
  obtain ⟨hdurable, horderly⟩ := hboot d w p hlaunch
  rw [← hdurable] at hd
  exact horderly.notBelow hd hr

end Effect
