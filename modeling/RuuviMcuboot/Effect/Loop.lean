/-
Loops without a bound on their rounds.

`Prog.loop` carries fuel, the loop of a source program does not.  `Rounds` says
where such a loop comes to and `Leaves` how it ends.  A measure that every round
lowers makes it end, and makes it end as the loop with enough fuel does.  The same
rule for a step relation takes a measure that every step lowers but those from a stuck
state, which has a step to itself.
-/
import Mathlib.Logic.Relation
import Mathlib.Order.WellFounded
import RuuviMcuboot.Effect.Prog

namespace Effect

variable {S : Signature} {W : Type} {α σ : Type}

/-- From the state `s` in the world `w` the loop comes to `s'` in `w'`, in front of
a round. -/
inductive Rounds (h : Handler S W) (body : σ → Prog S (σ ⊕ α)) : σ → W → σ → W → Prop where
  | here (s : σ) (w : W) : Rounds h body s w s w
  | next {s s' s'' : σ} {w w' w'' : W} (round : run h (body s) w = (.inl s', w'))
      (rest : Rounds h body s' w' s'' w'') : Rounds h body s w s'' w''

/-- From the state `s` in the world `w` the loop ends with `a` in `w'`. -/
inductive Leaves (h : Handler S W) (body : σ → Prog S (σ ⊕ α)) : σ → W → α → W → Prop where
  | now {s : σ} {w w' : W} {a : α} (round : run h (body s) w = (.inr a, w')) :
      Leaves h body s w a w'
  | later {s s' : σ} {w w' w'' : W} {a : α} (round : run h (body s) w = (.inl s', w'))
      (rest : Leaves h body s' w' a w'') : Leaves h body s w a w''

variable {h : Handler S W} {body : σ → Prog S (σ ⊕ α)} {I : σ → W → Prop} {s s' : σ} {w w' : W}

/-- What every round keeps holds in front of every round. -/
theorem Rounds.invariant
    (hstep : ∀ s w s' w', I s w → run h (body s) w = (.inl s', w') → I s' w')
    (hr : Rounds h body s w s' w') (hs : I s w) : I s' w' := by
  induction hr with
  | here => exact hs
  | next round _ ih => exact ih (hstep _ _ _ _ hs round)

theorem Leaves.post {Q : α → W → Prop} {a : α}
    (hstep : ∀ s w s' w', I s w → run h (body s) w = (.inl s', w') → I s' w')
    (hleave : ∀ s w a w', I s w → run h (body s) w = (.inr a, w') → Q a w')
    (hl : Leaves h body s w a w') (hs : I s w) : Q a w' := by
  induction hl with
  | now round => exact hleave _ _ _ _ hs round
  | later round _ ih => exact ih (hstep _ _ _ _ hs round)

/-- The loop without a bound ends, and the one with this fuel ends with the same
result in the same world. -/
def Terminates (h : Handler S W) (body : σ → Prog S (σ ⊕ α)) (stuck : α) (fuel : Nat) (s : σ)
    (w : W) : Prop :=
  ∃ a w', Leaves h body s w a w' ∧ run h (Prog.loop body stuck fuel s) w = (a, w')

/-- The termination rule: rounds that go on keep the invariant and lower the
measure, by induction on the fuel. -/
theorem terminates_of_measure {μ : σ → Nat} {stuck : α}
    (hstep : ∀ s w s' w', I s w → run h (body s) w = (.inl s', w') → I s' w' ∧ μ s' < μ s)
    {fuel : Nat} (hs : I s w) (hfuel : μ s < fuel) : Terminates h body stuck fuel s w := by
  induction fuel generalizing s w with
  | zero => exact absurd hfuel (Nat.not_lt_zero _)
  | succ fuel ih =>
    unfold Terminates Prog.loop
    cases hr : run h (body s) w with
    | mk r w₁ =>
      rw [run_bind_of hr]
      cases r with
      | inr a => exact ⟨a, w₁, .now hr, rfl⟩
      | inl s₁ =>
        obtain ⟨hs₁, hμ⟩ := hstep _ _ _ _ hs hr
        obtain ⟨a, w₂, hleave, hrun⟩ := ih hs₁ (by omega)
        exact ⟨a, w₂, .later hr hleave, hrun⟩

/-! ## Steps between states -/

variable {D : Type} {R : D → D → Prop} {good stuck : D → Prop} {x y : D}

/-- Every sequence of steps from the state ends, and all its states are good. -/
inductive Settles (R : D → D → Prop) (good : D → Prop) : D → Prop where
  | mk {x : D} (hgood : good x) (next : ∀ y, R x y → Settles R good y) : Settles R good x

theorem Settles.acc (h : Settles R good x) : Acc (fun y x => R x y) x := by
  induction h with
  | mk _ _ ih => exact ⟨_, ih⟩

theorem Settles.reach (h : Settles R good x) (hr : Relation.ReflTransGen R x y) :
    Settles R good y := by
  induction hr with
  | refl => exact h
  | tail _ hstep ih =>
    cases ih with
    | mk _ next => exact next _ hstep

theorem Settles.not_loop (h : Settles R good x) : ¬ R x x := by
  intro hloop
  have hchain : ¬ Acc (fun y x => R x y) x :=
    not_acc_iff_exists_descending_chain.mpr ⟨fun _ => x, rfl, fun _ => hloop⟩
  exact hchain h.acc

/-- `n` steps in a row, none of them from a stuck state. -/
inductive Steps (R : D → D → Prop) (stuck : D → Prop) : Nat → D → D → Prop where
  | zero (x : D) : Steps R stuck 0 x x
  | succ {n : Nat} {x y z : D} (hfree : ¬ stuck x) (step : R x y) (rest : Steps R stuck n y z) :
      Steps R stuck (n + 1) x z

/-- The sequences of steps end exactly where no stuck state lies ahead, by induction on
the measure. -/
theorem settles_iff_of_measure {μ : D → Nat} (hloop : ∀ x, stuck x → R x x)
    (hdown : ∀ x y, R x y → ¬ stuck x → μ y < μ x) (x : D) :
    Settles R good x ↔ ∀ y, Relation.ReflTransGen R x y → ¬ stuck y ∧ good y := by
  constructor
  · intro h y hr
    have hy := h.reach hr
    refine ⟨fun hstuck => hy.not_loop (hloop y hstuck), ?_⟩
    cases hy with
    | mk hgood _ => exact hgood
  · intro h
    induction hn : μ x using Nat.strong_induction_on generalizing x with
    | h n ih =>
      obtain ⟨hfree, hgood⟩ := h x .refl
      refine .mk hgood (fun y hstep => ?_)
      have hlt := hdown x y hstep hfree
      rw [hn] at hlt
      exact ih (μ y) hlt y (fun z hr => h z (.head hstep hr)) rfl

end Effect
