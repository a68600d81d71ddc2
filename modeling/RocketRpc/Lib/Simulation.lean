import RocketRpc.Lib.Machine

/-
  Simulations between machines.

  A relation between the states of two machines is a simulation if every step of the first is
  matched by steps of the second that show the same and lead to related states. Then every run of
  the first is matched by a run of the second (`run_simulates`). Where the steps are matched label
  by label, so are the runs (`run_follows`).
-/

namespace Machine

universe u v w x y z t

variable {σ : Type u} {ℓ : Type v} {ε : Type w} {τ : Type x} {μ : Type y} {ζ : Type z}
  {ω : Type t}

/-- Every step of the first machine is matched by a run of the second one that shows the
    same. -/
def Simulates (step₁ : σ → ℓ → Option (σ × List ε)) (step₂ : τ → μ → Option (τ × List ζ))
    (show₁ : ε → Option ω) (show₂ : ζ → Option ω) (R : σ → τ → Prop) : Prop :=
  ∀ s a l s' es, R s a → step₁ s l = some (s', es) →
    ∃ ms a' fs, run step₂ a ms = some (a', fs) ∧ fs.filterMap show₂ = es.filterMap show₁ ∧ R s' a'

variable {step₁ : σ → ℓ → Option (σ × List ε)} {step₂ : τ → μ → Option (τ × List ζ)}
  {show₁ : ε → Option ω} {show₂ : ζ → Option ω} {R : σ → τ → Prop}

theorem run_of_step {s s' : σ} {l : ℓ} {es : List ε} (h : step₁ s l = some (s', es)) :
    run step₁ s [l] = some (s', es) :=
  run_cons_eq_some.mpr ⟨s', es, [], h, rfl, (List.append_nil es).symm⟩

theorem run_simulates (h : Simulates step₁ step₂ show₁ show₂ R) {s s' : σ} {a : τ} {ls : List ℓ}
    {es : List ε} (hR : R s a) (hrun : run step₁ s ls = some (s', es)) :
    ∃ ms a' fs, run step₂ a ms = some (a', fs) ∧ fs.filterMap show₂ = es.filterMap show₁ ∧
      R s' a' := by
  induction ls generalizing s a es with
  | nil =>
    obtain ⟨rfl, rfl⟩ : s = s' ∧ [] = es := by simpa using hrun
    exact ⟨[], a, [], rfl, rfl, hR⟩
  | cons l ls ih =>
    obtain ⟨t, es₁, es₂, hs, hrest, rfl⟩ := run_cons_eq_some.mp hrun
    obtain ⟨ms₁, b, fs₁, hrun₁, hshow₁, hRt⟩ := h s a l t es₁ hR hs
    obtain ⟨ms₂, a', fs₂, hrun₂, hshow₂, hR'⟩ := ih hRt hrest
    refine ⟨ms₁ ++ ms₂, a', fs₁ ++ fs₂, run_append.mpr ⟨b, fs₁, fs₂, hrun₁, hrun₂, rfl⟩, ?_, hR'⟩
    rw [List.filterMap_append, List.filterMap_append, hshow₁, hshow₂]

/-- Machines over the same labels: where the first one takes a step, the second one takes it
    too. -/
theorem run_follows {step₂ : τ → ℓ → Option (τ × List ζ)}
    (h : ∀ s a l s' es, R s a → step₁ s l = some (s', es) →
      ∃ a' fs, step₂ a l = some (a', fs) ∧ R s' a')
    {s s' : σ} {a : τ} {ls : List ℓ} {es : List ε} (hR : R s a)
    (hrun : run step₁ s ls = some (s', es)) :
    ∃ a' fs, run step₂ a ls = some (a', fs) ∧ R s' a' := by
  induction ls generalizing s a es with
  | nil =>
    obtain ⟨rfl, -⟩ : s = s' ∧ [] = es := by simpa using hrun
    exact ⟨a, [], rfl, hR⟩
  | cons l ls ih =>
    obtain ⟨t, es₁, es₂, hs, hrest, rfl⟩ := run_cons_eq_some.mp hrun
    obtain ⟨b, fs₁, hb, hRt⟩ := h s a l t es₁ hR hs
    obtain ⟨a', fs₂, ha, hR'⟩ := ih hRt hrest
    exact ⟨a', fs₁ ++ fs₂, run_cons_eq_some.mpr ⟨b, fs₁, fs₂, hb, ha, rfl⟩, hR'⟩

end Machine
