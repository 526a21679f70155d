import Mathlib.Tactic

/-!
# Remembered results

A computation that may fail can keep its results in a table inside of the state, and look
there before it computes anything.  A computation can call others that use the same table, so
that by the time it is done there may be an entry for its own key; an entry that exists is
kept.

* `MemoTable.cached`: looking up, or else computing and remembering.
* `MemoTable.Grows`: entries stay as they are.
* `MemoTable.Computes`: a computation agrees with a specification wherever the table does.  With
  a specification of all keys this is preserved by remembering (`MemoTable.Computes.cached`).
* `Ensures`: what holds of every result, whatever the table.
-/

namespace Memo

variable {σ κ ν α β : Type}

/-- A computation that may fail; the state may have changed by then. -/
abbrev Lookup (σ α : Type) := OptionT (StateM σ) α

/-- The result of a computation and the state after it. -/
def call (x : Lookup σ α) (s : σ) : Option α × σ := x.run.run s

theorem call_bind (x : Lookup σ α) (f : α → Lookup σ β) (s : σ) :
    call (x >>= f) s =
      match call x s with
      | (none, s') => (none, s')
      | (some a, s') => call (f a) s' := by
  show (match x.run.run s with
      | (o, s') => (match o with
          | some a => f a
          | none => pure none : StateM σ (Option β)) s') = _
  unfold call
  rcases x.run.run s with ⟨_ | a, s'⟩ <;> rfl

@[simp] theorem call_pure (a : α) (s : σ) : call (pure a : Lookup σ α) s = (some a, s) := rfl

@[simp] theorem call_failure (s : σ) : call (failure : Lookup σ α) s = (none, s) := rfl

@[simp] theorem call_get (s : σ) : call (get : Lookup σ σ) s = (some s, s) := rfl

@[simp] theorem call_modify (f : σ → σ) (s : σ) :
    call (modify f : Lookup σ PUnit) s = (some ⟨⟩, f s) := rfl

theorem call_bind_some {x : Lookup σ α} {f : α → Lookup σ β} {s s' : σ} {a : α}
    (h : call x s = (some a, s')) : call (x >>= f) s = call (f a) s' := by
  rw [call_bind, h]

/-- A table inside of a state; an entry that exists is kept. -/
structure MemoTable (σ κ ν : Type) [DecidableEq κ] where
  find : σ → κ → Option ν
  add : σ → κ → ν → σ
  find_add : ∀ s k v, find (add s k v) = Function.update (find s) k (some ((find s k).getD v))

namespace MemoTable

variable [DecidableEq κ] (T : MemoTable σ κ ν)

/-- The result for a key is looked up, or else it is computed and remembered.  A failure is not
remembered. -/
def cached (k : κ) (compute : Lookup σ ν) : Lookup σ ν := do
  match T.find (← get) k with
  | some v => return v
  | none =>
      let v ← compute
      modify (T.add · k v)
      return (T.find (← get) k).getD v

variable {T}

theorem call_cached_of_some {k : κ} {v : ν} {s : σ} (h : T.find s k = some v)
    (compute : Lookup σ ν) : call (T.cached k compute) s = (some v, s) := by
  unfold cached
  rw [call_bind, call_get]
  dsimp only
  rw [h]
  rfl

theorem call_cached_of_none {k : κ} {s : σ} (h : T.find s k = none) (compute : Lookup σ ν) :
    call (T.cached k compute) s =
      match call compute s with
      | (none, s') => (none, s')
      | (some v, s') => (some ((T.find s' k).getD v), T.add s' k v) := by
  unfold cached
  rw [call_bind, call_get]
  dsimp only
  rw [h]
  dsimp only
  rw [call_bind]
  rcases call compute s with ⟨_ | v, s'⟩
  · rfl
  · dsimp only
    rw [call_bind, call_modify]
    dsimp only
    rw [call_bind, call_get]
    dsimp only
    rw [call_pure, T.find_add, Function.update_self]
    rfl

/-- A result that is known is looked up, or else remembered as it is. -/
theorem call_cached_pure (k : κ) (v : ν) (s : σ) :
    (call (T.cached k (return v)) s).1 = some ((T.find s k).getD v) ∧
      T.find (call (T.cached k (return v)) s).2 =
        Function.update (T.find s) k (some ((T.find s k).getD v)) := by
  cases hkey : T.find s k with
  | some w =>
      rw [call_cached_of_some hkey]
      exact ⟨rfl, (Function.update_eq_self_iff.mpr hkey.symm).symm⟩
  | none =>
      rw [call_cached_of_none hkey, call_pure]
      dsimp only
      rw [T.find_add, hkey]
      exact ⟨rfl, rfl⟩

/-- After a series of requests whose results are known, an entry is that of the first request with
its key. -/
theorem find_foldl_cached_pure {ι : Type} (key : ι → κ) (value : ι → ν) (requests : List ι) (s : σ)
    (k : κ) :
    T.find (requests.foldl
        (fun s request => (call (T.cached (key request) (return value request)) s).2) s) k =
      (T.find s k).or ((requests.find? fun request => key request = k).map value) := by
  induction requests generalizing s with
  | nil => exact (Option.or_none).symm
  | cons request requests ih =>
      rw [List.foldl_cons, ih, (call_cached_pure (key request) (value request) s).2,
        List.find?_cons]
      by_cases hkey : key request = k
      · rw [decide_eq_true hkey, ← hkey, Function.update_self, Option.some_or]
        cases T.find s (key request) <;> rfl
      · rw [decide_eq_false hkey, Function.update_of_ne (Ne.symm hkey)]

/-! ## Entries stay -/

variable (T) in
/-- No entry is changed or dropped. -/
def Grows (x : Lookup σ α) : Prop :=
  ∀ s k v, T.find s k = some v → T.find (call x s).2 k = some v

theorem find_add_of_some {s : σ} {k other : κ} {v w : ν} (h : T.find s other = some w) :
    T.find (T.add s k v) other = some w := by
  rw [T.find_add]
  by_cases heq : other = k
  · rw [heq, Function.update_self, ← heq, h]
    rfl
  · rw [Function.update_of_ne heq, h]

theorem Grows.pure (a : α) : T.Grows (pure a : Lookup σ α) := fun _ _ _ h => h

theorem Grows.failure : T.Grows (failure : Lookup σ α) := fun _ _ _ h => h

theorem Grows.get : T.Grows (get : Lookup σ σ) := fun _ _ _ h => h

/-- A change to other parts of the state. -/
theorem Grows.modify {f : σ → σ} (h : ∀ s, T.find (f s) = T.find s) :
    T.Grows (modify f : Lookup σ PUnit) := by
  intro s k v hfind
  rw [call_modify]
  dsimp only
  rw [h]
  exact hfind

theorem Grows.bind {x : Lookup σ α} {f : α → Lookup σ β} (hx : T.Grows x)
    (hf : ∀ a, T.Grows (f a)) : T.Grows (x >>= f) := by
  intro s k v hfind
  have hafter := hx s k v hfind
  rw [call_bind]
  rcases hcall : call x s with ⟨_ | a, s'⟩ <;> rw [hcall] at hafter
  · exact hafter
  · exact hf a s' k v hafter

theorem Grows.cached {k : κ} {compute : Lookup σ ν} (h : T.Grows compute) :
    T.Grows (T.cached k compute) := by
  intro s other w hfind
  cases hkey : T.find s k with
  | some v =>
      rw [call_cached_of_some hkey]
      exact hfind
  | none =>
      have hafter := h s other w hfind
      rw [call_cached_of_none hkey]
      rcases hcall : call compute s with ⟨_ | v, s'⟩ <;> rw [hcall] at hafter
      · exact hafter
      · exact find_add_of_some hafter

/-- **A result is remembered.** -/
theorem find_cached {k : κ} {compute : Lookup σ ν} {s : σ} {v : ν}
    (h : (call (T.cached k compute) s).1 = some v) :
    T.find (call (T.cached k compute) s).2 k = some v := by
  cases hkey : T.find s k with
  | some w =>
      rw [call_cached_of_some hkey] at h ⊢
      exact hkey.trans h
  | none =>
      rw [call_cached_of_none hkey] at h ⊢
      rcases hcall : call compute s with ⟨_ | w, s'⟩ <;> rw [hcall] at h
      · cases h
      · dsimp only at h ⊢
        rw [T.find_add, Function.update_self]
        exact h

/-! ## Agreement with a specification -/

/-- The entries are the specified results, as far as results are specified. -/
def Sound (T : MemoTable σ κ ν) (spec : κ → Option ν) (s : σ) : Prop :=
  ∀ k v p, T.find s k = some v → spec k = some p → v = p

/-- From a sound table, a computation leaves a sound table and comes to the specified result, if
one is specified. -/
def Computes (T : MemoTable σ κ ν) (spec : κ → Option ν) (result : Option α) (x : Lookup σ α) :
    Prop :=
  ∀ s, T.Sound spec s →
    T.Sound spec (call x s).2 ∧ ∀ a, result = some a → (call x s).1 = some a

variable {spec : κ → Option ν}

theorem Sound.add {s : σ} (h : T.Sound spec s) {k : κ} {v : ν}
    (hv : ∀ p, spec k = some p → v = p) : T.Sound spec (T.add s k v) := by
  intro other w p hfind hspec
  rw [T.find_add] at hfind
  by_cases heq : other = k
  · subst heq
    rw [Function.update_self, Option.some.injEq] at hfind
    cases hold : T.find s other with
    | some old =>
        rw [hold, Option.getD_some] at hfind
        exact hfind ▸ h other old p hold hspec
    | none =>
        rw [hold, Option.getD_none] at hfind
        exact hfind ▸ hv p hspec
  · rw [Function.update_of_ne heq] at hfind
    exact h other w p hfind hspec

theorem Computes.pure (a : α) : T.Computes spec (some a) (pure a : Lookup σ α) :=
  fun _ h => ⟨h, fun _ ha => ha⟩

theorem Computes.failure : T.Computes spec none (failure : Lookup σ α) := by
  refine fun _ h => ⟨h, fun a ha => ?_⟩
  cases ha

/-- Nothing has to be said about the result. -/
theorem Computes.forget {x : Lookup σ α} {result : Option α} (h : T.Computes spec result x) :
    T.Computes spec none x := by
  refine fun s hs => ⟨(h s hs).1, fun a ha => ?_⟩
  cases ha

theorem Computes.guarded {x : Lookup σ α} {result : Option α} (h : T.Computes spec result x)
    (guard : Option β) : T.Computes spec (guard.bind fun _ => result) x := by
  cases guard with
  | none => exact h.forget
  | some _ => exact h

theorem Computes.get : T.Computes spec none (get : Lookup σ σ) := by
  refine fun s hs => ⟨hs, fun a ha => ?_⟩
  cases ha

theorem Computes.modify {f : σ → σ} (h : ∀ s, T.find (f s) = T.find s) :
    T.Computes spec (some ⟨⟩) (modify f : Lookup σ PUnit) := by
  refine fun s hs => ⟨?_, fun _ _ => rfl⟩
  intro k v p hfind
  rw [call_modify] at hfind
  dsimp only at hfind
  rw [h] at hfind
  exact hs k v p hfind

theorem Computes.bind {x : Lookup σ α} {f : α → Lookup σ β} {result : Option α}
    {result' : α → Option β} (hx : T.Computes spec result x)
    (hf : ∀ a, T.Computes spec (result.bind fun _ => result' a) (f a)) :
    T.Computes spec (result.bind result') (x >>= f) := by
  intro s hs
  obtain ⟨hsound, hresult⟩ := hx s hs
  rw [call_bind]
  rcases hcall : call x s with ⟨_ | a, s'⟩ <;> rw [hcall] at hsound hresult
  · refine ⟨hsound, fun b hb => ?_⟩
    obtain ⟨a, ha, -⟩ := Option.bind_eq_some_iff.mp hb
    cases hresult a ha
  · obtain ⟨hafter, hlast⟩ := hf a s' hsound
    refine ⟨hafter, fun b hb => ?_⟩
    obtain ⟨a', ha', hb'⟩ := Option.bind_eq_some_iff.mp hb
    obtain rfl : a = a' := Option.some.inj (hresult a' ha')
    exact hlast b (by rw [ha']; exact hb')

/-- What follows a computation that succeeds. -/
theorem Computes.bind_some {x : Lookup σ α} {f : α → Lookup σ β} {a : α} {result : Option β}
    (hx : T.Computes spec (some a) x) (hf : T.Computes spec result (f a)) :
    T.Computes spec result (x >>= f) := by
  intro s hs
  obtain ⟨hsound, hresult⟩ := hx s hs
  rw [call_bind]
  rcases hcall : call x s with ⟨_ | a', s'⟩ <;> rw [hcall] at hsound hresult
  · cases hresult a rfl
  · obtain rfl : a' = a := Option.some.inj (hresult a rfl)
    exact hf s' hsound

theorem Computes.bind_none {x : Lookup σ α} {f : α → Lookup σ β} (hx : T.Computes spec none x)
    (hf : ∀ a, T.Computes spec none (f a)) : T.Computes spec none (x >>= f) :=
  show T.Computes spec (none.bind fun _ : α => none) (x >>= f) from hx.bind hf

/-- From a sound table, a computation whose result is specified succeeds and leaves a sound
table. -/
theorem Computes.exists_call {x : Lookup σ α} {a : α} (h : T.Computes spec (some a) x) {s : σ}
    (hs : T.Sound spec s) : ∃ s', call x s = (some a, s') ∧ T.Sound spec s' :=
  have hafter := h s hs
  ⟨_, Prod.ext (hafter.2 a rfl) rfl, hafter.1⟩

/-- A loop of computations whose results are specified as long as an invariant holds. -/
theorem Computes.foldlM {γ : Type} {f : β → γ → Lookup σ β} {result : β → γ → β}
    (Invariant : β → Prop) (hkept : ∀ b c, Invariant b → Invariant (result b c))
    (h : ∀ b c, Invariant b → T.Computes spec (some (result b c)) (f b c)) (cs : List γ) {b : β}
    (hb : Invariant b) : T.Computes spec (some (cs.foldl result b)) (cs.foldlM f b) := by
  induction cs generalizing b with
  | nil => exact .pure b
  | cons c cs ih =>
      rw [List.foldlM_cons, List.foldl_cons]
      exact (h b c hb).bind_some (ih (hkept b c hb))

/-- **A computation of the specified result may be remembered.** -/
theorem Computes.cached {k : κ} {compute : Lookup σ ν}
    (h : T.Computes spec (spec k) compute) : T.Computes spec (spec k) (T.cached k compute) := by
  intro s hs
  cases hkey : T.find s k with
  | some v =>
      rw [call_cached_of_some hkey]
      exact ⟨hs, fun p hp => congrArg some (hs k v p hkey hp)⟩
  | none =>
      obtain ⟨hsound, hresult⟩ := h s hs
      rw [call_cached_of_none hkey]
      rcases hcall : call compute s with ⟨_ | v, s'⟩ <;> rw [hcall] at hsound hresult
      · exact ⟨hsound, hresult⟩
      · have hv : ∀ p, spec k = some p → v = p := fun p hp => Option.some.inj (hresult p hp)
        refine ⟨hsound.add hv, fun p hp => ?_⟩
        dsimp only
        cases hother : T.find s' k with
        | some w => rw [Option.getD_some, hsound k w p hother hp]
        | none => rw [Option.getD_none, hv p hp]

end MemoTable

/-! ## Results that always have a property -/

/-- If the computation succeeds, its result has the property. -/
def Ensures (P : α → Prop) (x : Lookup σ α) : Prop := ∀ s a, (call x s).1 = some a → P a

variable {P : α → Prop} {Q : β → Prop}

theorem Ensures.pure {a : α} (h : P a) : Ensures P (pure a : Lookup σ α) :=
  fun _ _ ha => Option.some.inj ha ▸ h

theorem Ensures.failure : Ensures P (failure : Lookup σ α) := fun _ _ ha => nomatch ha

theorem Ensures.any (x : Lookup σ α) : Ensures (fun _ => True) x := fun _ _ _ => trivial

theorem Ensures.bind {x : Lookup σ α} {f : α → Lookup σ β} (hx : Ensures P x)
    (hf : ∀ a, P a → Ensures Q (f a)) : Ensures Q (x >>= f) := by
  intro s b hb
  rw [call_bind] at hb
  rcases hcall : call x s with ⟨_ | a, s'⟩ <;> rw [hcall] at hb
  · cases hb
  · exact hf a (hx s a (by rw [hcall])) s' b hb

theorem Ensures.foldlM {γ : Type} {f : β → γ → Lookup σ β} (h : ∀ b c, Q b → Ensures Q (f b c))
    (cs : List γ) {b : β} (hb : Q b) : Ensures Q (cs.foldlM f b) := by
  induction cs generalizing b with
  | nil => exact .pure hb
  | cons c cs ih =>
      rw [List.foldlM_cons]
      exact (h b c hb).bind fun b' hb' => ih hb'

end Memo
