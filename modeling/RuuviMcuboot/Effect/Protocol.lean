/-
Protocols of calls.

A protocol is a partial automaton that reads the calls of a run with their
answers and gets stuck on a call that is out of place.  `Obeys` says of a program
text that it keeps to a protocol whatever the environment answers, so it is proved
once per program by following its branches.  What the automaton accepts is then
known of the trace of every run.
-/
import RuuviMcuboot.Effect.Footprint

namespace Effect

variable {S : Signature} {W Q X : Type} {α β : Type} {T : (o : S.Op) → S.Res o → Prop}
  {A : S.Op → Prop} {h : Handler S W}

/-- The state behind a call and its answer, `none` if the call is out of place. -/
abbrev Protocol (S : Signature) (Q : Type) := (o : S.Op) → S.Res o → Q → Option Q

variable {δ : Protocol S Q}

/-- The state behind a sequence of calls. -/
def Protocol.after (δ : Protocol S Q) : List (Event S) → Q → Option Q
  | [], q => some q
  | e :: t, q => (δ e.op e.res q).bind (δ.after t)

theorem Protocol.after_cons {e : Event S} {t : List (Event S)} {q q' : Q}
    (h : δ.after (e :: t) q = some q') :
    ∃ m, δ e.op e.res q = some m ∧ δ.after t m = some q' := Option.bind_eq_some_iff.mp h

theorem Protocol.after_append (s t : List (Event S)) (q : Q) :
    δ.after (s ++ t) q = (δ.after s q).bind (δ.after t) := by
  induction s generalizing q with
  | nil => rfl
  | cons e s ih =>
    show (δ e.op e.res q).bind (δ.after (s ++ t)) = ((δ e.op e.res q).bind (δ.after s)).bind _
    cases δ e.op e.res q with
    | none => rfl
    | some m => exact ih m

/-- What is accepted is accepted up to each of its calls, and so is that call. -/
theorem Protocol.after_split {s t : List (Event S)} {e : Event S} {q q' : Q}
    (h : δ.after (s ++ e :: t) q = some q') :
    ∃ m m', δ.after s q = some m ∧ δ e.op e.res m = some m' ∧ δ.after t m' = some q' := by
  rw [Protocol.after_append] at h
  obtain ⟨m, hs, he⟩ := Option.bind_eq_some_iff.mp h
  obtain ⟨m', he, ht⟩ := Protocol.after_cons he
  exact ⟨m, m', hs, he, ht⟩

/-- From the state `q` the program keeps to the protocol, and where it returns
the result and the state satisfy `post`. -/
def Obeys (T : (o : S.Op) → S.Res o → Prop) (δ : Protocol S Q) :
    Prog S α → Q → (α → Q → Prop) → Prop
  | .ret a, q, post => post a q
  | .call o k, q, post => ∀ r, T o r → ∃ q', δ o r q = some q' ∧ Obeys T δ (k r) q' post

variable {post post' : α → Q → Prop} {q : Q}

theorem obeys_ret {a : α} (ha : post a q) : Obeys T δ (Prog.ret a) q post := ha

theorem obeys_perform {o : S.Op} {post : S.Res o → Q → Prop}
    (ho : ∀ r, T o r → ∃ q', δ o r q = some q' ∧ post r q') :
    Obeys T δ (Prog.perform o) q post := ho

theorem obeys_bind {mid : α → Q → Prop} {post : β → Q → Prop} {p : Prog S α} {f : α → Prog S β}
    (hp : Obeys T δ p q mid) (hf : ∀ a q', mid a q' → Obeys T δ (f a) q' post) :
    Obeys T δ (p >>= f) q post := by
  induction p generalizing q with
  | ret a => exact hf a q hp
  | call o k ih =>
    intro r hr
    obtain ⟨q', hδ, hk⟩ := hp r hr
    exact ⟨q', hδ, ih r hk⟩

/-- The first part comes back to the state it started in. -/
theorem obeys_bind_keep {post : β → Q → Prop} {p : Prog S α} {f : α → Prog S β}
    (hp : Obeys T δ p q (fun _ q' => q' = q)) (hf : ∀ a, Obeys T δ (f a) q post) :
    Obeys T δ (p >>= f) q post := by
  refine obeys_bind hp (fun a q' hq => ?_)
  subst hq
  exact hf a

theorem obeys_ite {c : Prop} [Decidable c] {p p' : Prog S α} (hp : Obeys T δ p q post)
    (hp' : Obeys T δ p' q post) : Obeys T δ (if c then p else p') q post := by
  by_cases hc : c
  · rw [if_pos hc]
    exact hp
  · rw [if_neg hc]
    exact hp'

/-- Calls the protocol has nothing to say about leave its state alone. -/
theorem Within.obeys (hA : ∀ o, A o → ∀ r, δ o r q = some q) {p : Prog S α}
    (hp : Within T A p) : Obeys T δ p q (fun _ q' => q' = q) := by
  induction p with
  | ret a => exact rfl
  | call o k ih =>
    intro r hr
    exact ⟨q, hA o hp.1 r, ih r (hp.2 r hr)⟩

/-- The trace of every run is accepted, and the result and the state behind it
satisfy the postcondition. -/
theorem Obeys.trace (hT : Answers h T) {p : Prog S α} (hp : Obeys T δ p q post) (w : W) :
    ∃ q', δ.after (trace h p w) q = some q' ∧ post (run h p w).1 q' := by
  induction p generalizing q w with
  | ret a => exact ⟨q, rfl, hp⟩
  | call o k ih =>
    obtain ⟨m, hδ, hk⟩ := hp _ (hT o w)
    obtain ⟨q', hafter, hpost⟩ := ih _ hk (h o w).2
    refine ⟨q', ?_, hpost⟩
    show (δ o (h o w).1 q).bind _ = some q'
    rw [hδ]
    exact hafter

/-! ## Following a part of the world along the trace -/

variable {f : W → X} {step : Event S → X → X}

theorem foldl_trace (hstep : ∀ o w, f (h o w).2 = step ⟨o, (h o w).1⟩ (f w)) (p : Prog S α)
    (w : W) : f (run h p w).2 = (Effect.trace h p w).foldl (fun x e => step e x) (f w) := by
  induction p generalizing w with
  | ret a => rfl
  | call o k ih =>
    rw [run_call, ih, hstep]
    rfl

/-- A world on the way lies behind a part of the trace. -/
theorem reaches_trace (hstep : ∀ o w, f (h o w).2 = step ⟨o, (h o w).1⟩ (f w)) {p : Prog S α}
    {w w' : W} (hr : Reaches h p w w') :
    ∃ s, s <+: Effect.trace h p w ∧ f w' = s.foldl (fun x e => step e x) (f w) := by
  induction hr with
  | here p w => exact ⟨[], List.nil_prefix, rfl⟩
  | step o k w w' _ ih =>
    obtain ⟨s, hs, hf⟩ := ih
    refine ⟨⟨o, (h o w).1⟩ :: s, List.cons_prefix_cons.mpr ⟨rfl, hs⟩, ?_⟩
    rw [hf, hstep]
    rfl

end Effect
