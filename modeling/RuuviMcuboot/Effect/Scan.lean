/-
Folds that may end early.

A scan carries a state along a list.  At each element it goes on with a new
state, stops, or fails.  `scan_append` splits a scan at a position, and the
inversion lemmas say what was scanned before it stopped or failed.
-/
import Mathlib.Data.List.Induction

namespace Effect

variable {σ α : Type}

/-- What a scan does at one element, and how it ends: at the end of the list
(`next`), in front of it (`stop`), or with a failure. -/
inductive Scan (σ : Type) where
  | next (s : σ)
  | stop (s : σ)
  | fail
  deriving DecidableEq, Repr

def Scan.isNext : Scan σ → Bool
  | .next _ => true
  | _ => false

/-- Go on with `f` unless the scan has ended. -/
def Scan.andThen (r : Scan σ) (f : σ → Scan σ) : Scan σ :=
  match r with
  | .next s => f s
  | .stop s => .stop s
  | .fail => .fail

def scan (step : σ → α → Scan σ) : List α → σ → Scan σ
  | [], s => .next s
  | a :: rest, s => (step s a).andThen (scan step rest)

variable {step : σ → α → Scan σ}

@[simp] theorem Scan.next_andThen (s : σ) (f : σ → Scan σ) : (Scan.next s).andThen f = f s := rfl

@[simp] theorem Scan.stop_andThen (s : σ) (f : σ → Scan σ) :
    (Scan.stop s).andThen f = .stop s := rfl

@[simp] theorem Scan.fail_andThen (f : σ → Scan σ) : (Scan.fail : Scan σ).andThen f = .fail := rfl

theorem Scan.andThen_eq_next {r : Scan σ} {f : σ → Scan σ} {s' : σ} :
    r.andThen f = .next s' ↔ ∃ s, r = .next s ∧ f s = .next s' := by
  cases r <;> simp

theorem Scan.andThen_eq_stop {r : Scan σ} {f : σ → Scan σ} {s' : σ} :
    r.andThen f = .stop s' ↔ r = .stop s' ∨ ∃ s, r = .next s ∧ f s = .stop s' := by
  cases r <;> simp

@[simp] theorem scan_nil (s : σ) : scan step [] s = .next s := rfl

theorem scan_cons (a : α) (rest : List α) (s : σ) :
    scan step (a :: rest) s = (step s a).andThen (scan step rest) := rfl

@[simp] theorem scan_singleton (a : α) (s : σ) : scan step [a] s = step s a := by
  rw [scan_cons]
  cases step s a <;> rfl

theorem scan_append (l₁ l₂ : List α) (s : σ) :
    scan step (l₁ ++ l₂) s = (scan step l₁ s).andThen (scan step l₂) := by
  induction l₁ generalizing s with
  | nil => rfl
  | cons a rest ih =>
    rw [List.cons_append, scan_cons, scan_cons]
    cases step s a with
    | next s' => exact ih s'
    | stop s' => rfl
    | fail => rfl

/-- A scan that stops does so at one element, behind a prefix it went through. -/
theorem scan_stop {l : List α} {s s' : σ} (h : scan step l s = .stop s') :
    ∃ pre a post s₁, l = pre ++ a :: post ∧ scan step pre s = .next s₁ ∧ step s₁ a = .stop s' := by
  induction l generalizing s with
  | nil => simp at h
  | cons a rest ih =>
    rw [scan_cons, Scan.andThen_eq_stop] at h
    rcases h with ha | ⟨s₁, ha, hrest⟩
    · exact ⟨[], a, rest, s, rfl, rfl, ha⟩
    · obtain ⟨pre, b, post, s₂, hl, hpre, hb⟩ := ih hrest
      refine ⟨a :: pre, b, post, s₂, by rw [hl, List.cons_append], ?_, hb⟩
      rw [scan_cons, ha, Scan.next_andThen, hpre]

/-- Every element of a list that was scanned to its end went through. -/
theorem scan_next_mem {l : List α} {s s' : σ} (h : scan step l s = .next s') {a : α}
    (ha : a ∈ l) : ∃ s₁ s₂, step s₁ a = .next s₂ := by
  induction l generalizing s with
  | nil => simp at ha
  | cons b rest ih =>
    rw [scan_cons, Scan.andThen_eq_next] at h
    obtain ⟨s₁, hb, hrest⟩ := h
    rcases List.mem_cons.mp ha with rfl | hmem
    · exact ⟨s, s₁, hb⟩
    · exact ih hrest hmem

/-- The invariant rule, by induction on what has been scanned: `I l s` relates
the scanned part to the state. -/
theorem scan_inv {I : List α → σ → Prop} {s₀ : σ} (hstart : I [] s₀)
    (hstep : ∀ l s a s', I l s → step s a = .next s' → I (l ++ [a]) s') {l : List α} {s : σ}
    (h : scan step l s₀ = .next s) : I l s := by
  induction l using List.reverseRecOn generalizing s with
  | nil =>
    rw [scan_nil, Scan.next.injEq] at h
    exact h ▸ hstart
  | append_singleton l a ih =>
    rw [scan_append, Scan.andThen_eq_next] at h
    obtain ⟨s₁, hl, ha⟩ := h
    rw [scan_singleton] at ha
    exact hstep l s₁ a s (ih hl) ha

end Effect
