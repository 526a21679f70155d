import Mathlib.Tactic

/-!
# Labelled transition systems

A small library for reasoning about systems that take step after step: finite
runs with their labels, reachable states, the invariant rule, and the
restriction of a system to the steps that meet a side condition.
-/

/-- A labelled transition system: initial states and labelled steps. -/
structure TransitionSystem (σ : Type*) (ℓ : Type*) where
  init : σ → Prop
  step : σ → ℓ → σ → Prop

namespace TransitionSystem

variable {σ : Type*} {ℓ : Type*}

/-- Finite runs, with the labels of their steps in order. -/
inductive Run (T : TransitionSystem σ ℓ) : σ → List ℓ → σ → Prop
  | nil (s : σ) : Run T s [] s
  | cons {s s' s'' : σ} {l : ℓ} {ls : List ℓ} :
      T.step s l s' → Run T s' ls s'' → Run T s (l :: ls) s''

/-- A state is reachable if some run leads to it from an initial state. -/
def Reachable (T : TransitionSystem σ ℓ) (s : σ) : Prop :=
  ∃ s₀ ls, T.init s₀ ∧ T.Run s₀ ls s

/-- The system that takes only the steps that meet `ok`. -/
def restrict (T : TransitionSystem σ ℓ) (ok : σ → ℓ → Prop) : TransitionSystem σ ℓ where
  init := T.init
  step s l s' := ok s l ∧ T.step s l s'

theorem Run.preserves {T : TransitionSystem σ ℓ} {I : σ → Prop}
    (hstep : ∀ s l s', I s → T.step s l s' → I s') {s s' : σ} {ls : List ℓ}
    (hrun : T.Run s ls s') (hI : I s) : I s' := by
  induction hrun with
  | nil s => exact hI
  | cons h _ ih => exact ih (hstep _ _ _ hI h)

theorem Run.append {T : TransitionSystem σ ℓ} {s s' s'' : σ} {ls ls' : List ℓ}
    (hfirst : T.Run s ls s') (hrest : T.Run s' ls' s'') : T.Run s (ls ++ ls') s'' := by
  induction hfirst with
  | nil => exact hrest
  | cons hstep _ ih => exact .cons hstep (ih hrest)

theorem Run.of_restrict {T : TransitionSystem σ ℓ} {ok : σ → ℓ → Prop} {s s' : σ} {ls : List ℓ}
    (hrun : (T.restrict ok).Run s ls s') : T.Run s ls s' := by
  induction hrun with
  | nil s => exact .nil s
  | cons hstep _ ih => exact .cons hstep.2 ih

/-- Side conditions that agree wherever an invariant holds restrict the runs alike. -/
theorem Run.restrict_congr {T : TransitionSystem σ ℓ} {G G' : σ → ℓ → Prop} {I : σ → Prop}
    (hI : ∀ s l s', I s → T.step s l s' → I s')
    (hiff : ∀ s l s', I s → T.step s l s' → (G s l ↔ G' s l)) {s s' : σ} {ls : List ℓ} (h : I s) :
    (T.restrict G).Run s ls s' ↔ (T.restrict G').Run s ls s' := by
  have hmono : ∀ {G G' : σ → ℓ → Prop}, (∀ s l s', I s → T.step s l s' → G s l → G' s l) →
      ∀ {s ls}, I s → (T.restrict G).Run s ls s' → (T.restrict G').Run s ls s' := by
    intro G G' himp s ls h hrun
    induction hrun with
    | nil s => exact .nil s
    | cons hstep _ ih =>
        exact .cons ⟨himp _ _ _ h hstep.2 hstep.1, hstep.2⟩ (ih (hI _ _ _ h hstep.2))
  exact ⟨hmono (fun s l s' h hstep => (hiff s l s' h hstep).mp) h,
    hmono (fun s l s' h hstep => (hiff s l s' h hstep).mpr) h⟩

/-- A run either takes only the steps that meet `G`, or it ends in `D`, if the first step
that does not meet `G` leads to `D` and nothing leads out of `D`. -/
theorem Run.restrict_or {T : TransitionSystem σ ℓ} {G : σ → ℓ → Prop} {I D : σ → Prop}
    (hI : ∀ s l s', I s → T.step s l s' → I s') (hD : ∀ s l s', D s → T.step s l s' → D s')
    (hbad : ∀ s l s', I s → ¬ G s l → T.step s l s' → D s') {s s' : σ} {ls : List ℓ}
    (hrun : T.Run s ls s') (h : I s) : (T.restrict G).Run s ls s' ∨ D s' := by
  induction hrun with
  | nil s => exact Or.inl (.nil s)
  | @cons s s₁ s' l ls hstep hrest ih =>
      by_cases hok : G s l
      · rcases ih (hI s l s₁ h hstep) with hrun' | hD'
        · exact Or.inl (.cons ⟨hok, hstep⟩ hrun')
        · exact Or.inr hD'
      · exact Or.inr (hrest.preserves hD (hbad s l s₁ h hok hstep))

/-- If every step pays its price out of a potential and gets its credit added to it, so does every
run. -/
theorem Run.balance {T : TransitionSystem σ ℓ} {I : σ → Prop} {potential : σ → ℕ}
    {price credit : ℓ → ℕ} (hI : ∀ s l s', I s → T.step s l s' → I s')
    (hstep : ∀ s l s', I s → T.step s l s' → potential s' + price l = potential s + credit l)
    {s s' : σ} {ls : List ℓ} (hrun : T.Run s ls s') (h : I s) :
    potential s' + (ls.map price).sum = potential s + (ls.map credit).sum := by
  induction hrun with
  | nil s => rfl
  | cons hfirst _ ih =>
      have hhead := hstep _ _ _ h hfirst
      have htail := ih (hI _ _ _ h hfirst)
      simp only [List.map_cons, List.sum_cons]
      omega

/-- One more step. -/
theorem Reachable.step {T : TransitionSystem σ ℓ} {s s' : σ} {l : ℓ} (hreach : T.Reachable s)
    (hstep : T.step s l s') : T.Reachable s' := by
  obtain ⟨s₀, ls, h₀, hrun⟩ := hreach
  exact ⟨s₀, ls ++ [l], h₀, hrun.append (.cons hstep (.nil s'))⟩

/-- A map that takes initial states to initial states and steps to steps takes reachable states to
reachable states. -/
theorem Reachable.map {τ : Type*} {T : TransitionSystem σ ℓ} {T' : TransitionSystem τ ℓ} {f : σ → τ}
    (hinit : ∀ s, T.init s → T'.init (f s))
    (hstep : ∀ s l s', T.step s l s' → T'.step (f s) l (f s')) {s : σ} (hreach : T.Reachable s) :
    T'.Reachable (f s) := by
  obtain ⟨s₀, ls, h₀, hrun⟩ := hreach
  refine ⟨f s₀, ls, hinit s₀ h₀, ?_⟩
  clear h₀
  induction hrun with
  | nil s => exact .nil (f s)
  | cons h _ ih => exact .cons (hstep _ _ _ h) ih

/-- **The invariant rule.** -/
theorem Reachable.invariant {T : TransitionSystem σ ℓ} {I : σ → Prop}
    (hinit : ∀ s, T.init s → I s) (hstep : ∀ s l s', I s → T.step s l s' → I s')
    {s : σ} (hreach : T.Reachable s) : I s := by
  obtain ⟨s₀, ls, h₀, hrun⟩ := hreach
  exact hrun.preserves hstep (hinit s₀ h₀)

end TransitionSystem
