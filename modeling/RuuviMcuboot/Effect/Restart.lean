/-
Runs over power cuts and restarts.

A system boots again and again from what is durable.  A boot picks a program and
a volatile world from the durable state; it may be cut at every world its run
reaches, and what is durable in that world is where the next boot starts.
-/
import RuuviMcuboot.Effect.Spec

namespace Effect

variable {S : Signature} {W D : Type} {α : Type}

/-- The world of a run behind its first `n` calls. -/
def cut (h : Handler S W) : Nat → Prog S α → W → W
  | 0, _, w => w
  | _ + 1, .ret _, w => w
  | n + 1, .call o k, w => cut h n (k (h o w).1) (h o w).2

theorem reaches_cut (h : Handler S W) (n : Nat) (p : Prog S α) (w : W) :
    Reaches h p w (cut h n p w) := by
  induction n generalizing p w with
  | zero => exact .here p w
  | succ n ih =>
    cases p with
    | ret a => exact .here _ _
    | call o k => exact .step o k _ _ (ih _ _)

/-- `Survives h launch durable d d'`: some sequence of boots, each of them cut at
some point of its run or run to its end, leads from `d` to `d'`.  `launch d w p`
says that a boot on `d` may run `p` from the world `w`. -/
inductive Survives (h : Handler S W) (launch : D → W → Prog S α → Prop) (durable : W → D) :
    D → D → Prop where
  | start (d : D) : Survives h launch durable d d
  | boot {d₀ d : D} {w w' : W} {p : Prog S α} (before : Survives h launch durable d₀ d)
      (hlaunch : launch d w p) (hr : Reaches h p w w') :
      Survives h launch durable d₀ (durable w')

variable {h : Handler S W} {launch launch' : D → W → Prog S α → Prop} {durable : W → D}

/-- What every boot keeps at each point of its run, every sequence of boots
keeps. -/
theorem Survives.invariant {I : D → Prop}
    (hboot : ∀ d w p w', I d → launch d w p → Reaches h p w w' → I (durable w')) {d₀ d : D}
    (hd : Survives h launch durable d₀ d) (h₀ : I d₀) : I d := by
  induction hd with
  | start => exact h₀
  | boot _ hlaunch hr ih => exact hboot _ _ _ _ ih hlaunch hr

/-- More boots reach more. -/
theorem Survives.mono (hsub : ∀ d w p, launch d w p → launch' d w p) {d₀ d : D}
    (hd : Survives h launch durable d₀ d) : Survives h launch' durable d₀ d := by
  induction hd with
  | start => exact .start _
  | boot _ hlaunch hr ih => exact .boot ih (hsub _ _ _ hlaunch) hr

end Effect
