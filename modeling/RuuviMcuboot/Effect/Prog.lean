/-
Programs over an operation signature.

A program is a tree of calls.  Each call names an operation and continues with
the answer of the environment.  The environment is a handler: a function that
answers an operation in a world and returns the next world.  Running a program
against a handler gives its result and the world it ends in, `trace` gives the
calls it issued with their answers, and `Reaches` relates a world to every world
the run passes through, which is where a power cut can leave the system.
-/
import Mathlib.Data.List.Basic

namespace Effect

/-- Operations and the type of the answer to each of them. -/
structure Signature where
  Op : Type
  Res : Op → Type

/-- A program that returns a value of type `α` after finitely many calls. -/
inductive Prog (S : Signature) (α : Type) : Type where
  | ret (a : α) : Prog S α
  | call (o : S.Op) (k : S.Res o → Prog S α) : Prog S α

variable {S : Signature} {W : Type} {α β γ σ : Type}

namespace Prog

/-- Sequencing: graft the continuation onto every leaf. -/
def bind : Prog S α → (α → Prog S β) → Prog S β
  | .ret a, f => f a
  | .call o k, f => .call o (fun r => (k r).bind f)

instance : Monad (Prog S) where
  pure := .ret
  bind := bind

@[simp] theorem pure_eq (a : α) : (pure a : Prog S α) = .ret a := rfl

@[simp] theorem ret_bind (a : α) (f : α → Prog S β) : (Prog.ret a : Prog S α) >>= f = f a := rfl

@[simp] theorem call_bind (o : S.Op) (k : S.Res o → Prog S α) (f : α → Prog S β) :
    (Prog.call o k >>= f) = .call o (fun r => k r >>= f) := rfl

theorem bind_assoc (p : Prog S α) (f : α → Prog S β) (g : β → Prog S γ) :
    (p >>= f) >>= g = p >>= fun a => f a >>= g := by
  induction p with
  | ret a => rfl
  | call o k ih =>
    simp only [call_bind]
    exact congrArg (Prog.call o) (funext ih)

theorem bind_ret (p : Prog S α) : p >>= Prog.ret = p := by
  induction p with
  | ret a => rfl
  | call o k ih =>
    simp only [call_bind]
    exact congrArg (Prog.call o) (funext ih)

/-- One call, returning its answer. -/
def perform (o : S.Op) : Prog S (S.Res o) := .call o .ret

/-- A loop whose body either goes round again with a new state (`inl`) or leaves
the loop with a result (`inr`).  `fuel` bounds the rounds and `stuck` is the
result when it runs out. -/
def loop (body : σ → Prog S (σ ⊕ α)) (stuck : α) : Nat → σ → Prog S α
  | 0, _ => .ret stuck
  | fuel + 1, s => body s >>= fun r =>
    match r with
    | .inl s' => loop body stuck fuel s'
    | .inr a => .ret a

end Prog

/-- An environment answers an operation in a world and moves to the next world. -/
abbrev Handler (S : Signature) (W : Type) := (o : S.Op) → W → S.Res o × W

/-- A call together with the answer it got. -/
structure Event (S : Signature) where
  op : S.Op
  res : S.Res op

/-- The result of a run and the world it ends in. -/
def run (h : Handler S W) : Prog S α → W → α × W
  | .ret a, w => (a, w)
  | .call o k, w => run h (k (h o w).1) (h o w).2

/-- The calls of a run, in order, with their answers. -/
def trace (h : Handler S W) : Prog S α → W → List (Event S)
  | .ret _, _ => []
  | .call o k, w => ⟨o, (h o w).1⟩ :: trace h (k (h o w).1) (h o w).2

/-- `Reaches h p w w'`: the run of `p` from `w` passes through `w'`, before its
first call, between two calls or after the last one. -/
inductive Reaches (h : Handler S W) : Prog S α → W → W → Prop where
  | here (p : Prog S α) (w : W) : Reaches h p w w
  | step (o : S.Op) (k : S.Res o → Prog S α) (w w' : W)
      (next : Reaches h (k (h o w).1) (h o w).2 w') : Reaches h (.call o k) w w'

variable {h : Handler S W}

@[simp] theorem run_ret (a : α) (w : W) : run h (Prog.ret a) w = (a, w) := rfl

@[simp] theorem run_pure (a : α) (w : W) : run h (pure a : Prog S α) w = (a, w) := rfl

theorem run_call (o : S.Op) (k : S.Res o → Prog S α) (w : W) :
    run h (.call o k) w = run h (k (h o w).1) (h o w).2 := rfl

@[simp] theorem run_perform (o : S.Op) (w : W) : run h (Prog.perform o) w = h o w := rfl

@[simp] theorem run_bind (p : Prog S α) (f : α → Prog S β) (w : W) :
    run h (p >>= f) w = run h (f (run h p w).1) (run h p w).2 := by
  induction p generalizing w with
  | ret a => rfl
  | call o k ih => exact ih (h o w).1 (h o w).2

/-- A sequence whose first part is known continues at its result. -/
theorem run_bind_of {p : Prog S α} {f : α → Prog S β} {w w' : W} {a : α}
    (hp : run h p w = (a, w')) : run h (p >>= f) w = run h (f a) w' := by
  rw [run_bind, hp]

@[simp] theorem trace_ret (a : α) (w : W) : trace h (Prog.ret a) w = [] := rfl

@[simp] theorem trace_perform (o : S.Op) (w : W) :
    trace h (Prog.perform o) w = [⟨o, (h o w).1⟩] := rfl

theorem trace_bind (p : Prog S α) (f : α → Prog S β) (w : W) :
    trace h (p >>= f) w = trace h p w ++ trace h (f (run h p w).1) (run h p w).2 := by
  induction p generalizing w with
  | ret a => rfl
  | call o k ih => exact congrArg (⟨o, (h o w).1⟩ :: ·) (ih (h o w).1 (h o w).2)

@[simp] theorem reaches_ret (a : α) (w w' : W) :
    Reaches h (Prog.ret a) w w' ↔ w' = w := by
  constructor
  · intro hr
    cases hr
    rfl
  · intro hw
    subst hw
    exact .here _ _

theorem reaches_call (o : S.Op) (k : S.Res o → Prog S α) (w w' : W) :
    Reaches h (.call o k) w w' ↔ w' = w ∨ Reaches h (k (h o w).1) (h o w).2 w' := by
  constructor
  · intro hr
    cases hr with
    | here => exact Or.inl rfl
    | step _ _ _ _ next => exact Or.inr next
  · rintro (rfl | next)
    · exact .here _ _
    · exact .step _ _ _ _ next

/-- The run ends in a world it reaches. -/
theorem reaches_run (p : Prog S α) (w : W) : Reaches h p w (run h p w).2 := by
  induction p generalizing w with
  | ret a => exact .here _ _
  | call o k ih => exact .step _ _ _ _ (ih (h o w).1 (h o w).2)

/-- A sequence reaches what its first part reaches, then what the rest reaches
from the world where the first part ended. -/
theorem reaches_bind (p : Prog S α) (f : α → Prog S β) (w w' : W) :
    Reaches h (p >>= f) w w' ↔
      Reaches h p w w' ∨ Reaches h (f (run h p w).1) (run h p w).2 w' := by
  induction p generalizing w with
  | ret a =>
    rw [Prog.ret_bind, reaches_ret, run_ret]
    constructor
    · exact Or.inr
    · rintro (rfl | hr)
      · exact .here _ _
      · exact hr
  | call o k ih =>
    rw [Prog.call_bind, reaches_call, ih, reaches_call, run_call, or_assoc]

/-- The end of the first part is known. -/
theorem reaches_bind_of {p : Prog S α} {f : α → Prog S β} {w w₁ : W} {a : α}
    (hp : run h p w = (a, w₁)) (w' : W) :
    Reaches h (p >>= f) w w' ↔ Reaches h p w w' ∨ Reaches h (f a) w₁ w' := by
  rw [reaches_bind, hp]

theorem reaches_perform (o : S.Op) (w w' : W) :
    Reaches h (Prog.perform o) w w' ↔ w' = w ∨ w' = (h o w).2 := by
  unfold Prog.perform
  rw [reaches_call, reaches_ret]

end Effect
