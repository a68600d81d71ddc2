import Mathlib.Data.List.Induction
import Mathlib.Tactic.Common

/-
  Machines that take labelled steps and produce events.

  A step function `σ → ℓ → Option (σ × List ε)` answers `none` where the label is not
  enabled. `run` takes the steps of a list of labels one after another and concatenates
  their events. `run_append` splits a run where its labels are split; `run_induction` is the
  invariant rule, over the state and the events so far, `runOk_induction` the same rule for
  the runs whose every step meets a condition on its label and the state before it, and
  `runOk_history` the rule for a property that also depends on the labels so far. A machine that
  records something beside the states of another one has its runs (`run_project`, `run_lift`).
  `EachAfter` is for what an event says about the events before it, and `Since` for what has not
  happened since an event.
-/

namespace Machine

universe u v w

variable {σ : Type u} {ℓ : Type v} {ε : Type w}

/-- Take the steps `ls` one after another. -/
def run (step : σ → ℓ → Option (σ × List ε)) : σ → List ℓ → Option (σ × List ε)
  | s, [] => some (s, [])
  | s, l :: ls =>
    match step s l with
    | none => none
    | some (s', es) => (run step s' ls).map fun r => (r.1, es ++ r.2)

/-- Every step of the run from `s` meets `ok` in the state it is taken from. -/
def RunOk (step : σ → ℓ → Option (σ × List ε)) (ok : σ → ℓ → Prop) : σ → List ℓ → Prop
  | _, [] => True
  | s, l :: ls => ok s l ∧ ∀ s' es, step s l = some (s', es) → RunOk step ok s' ls

instance decidableRunOk (step : σ → ℓ → Option (σ × List ε)) (ok : σ → ℓ → Prop)
    [∀ s, DecidablePred (ok s)] : ∀ s ls, Decidable (RunOk step ok s ls)
  | _, [] => .isTrue trivial
  | s, l :: ls =>
    match hs : step s l with
    | none => decidable_of_iff (ok s l) (by simp [RunOk, hs])
    | some (s', es) =>
      have := decidableRunOk step ok s' ls
      decidable_of_iff (ok s l ∧ RunOk step ok s' ls) (by simp [RunOk, hs])

variable {step : σ → ℓ → Option (σ × List ε)}

@[simp] theorem run_nil (s : σ) : run step s [] = some (s, []) := rfl

theorem run_cons_eq_some {s t : σ} {l : ℓ} {ls : List ℓ} {es : List ε} :
    run step s (l :: ls) = some (t, es) ↔
      ∃ s' es₁ es₂, step s l = some (s', es₁) ∧ run step s' ls = some (t, es₂) ∧
        es = es₁ ++ es₂ := by
  rw [run]
  cases hs : step s l with
  | none => simp
  | some r =>
    obtain ⟨s', es₁⟩ := r
    simp only [Option.map_eq_some_iff, Prod.mk.injEq, Option.some.injEq, Prod.exists]
    constructor
    · rintro ⟨t', es₂, hrun, rfl, rfl⟩
      exact ⟨s', es₁, es₂, ⟨rfl, rfl⟩, hrun, rfl⟩
    · rintro ⟨_, _, es₂, ⟨rfl, rfl⟩, hrun, rfl⟩
      exact ⟨t, es₂, hrun, rfl, rfl⟩

/-- A run of `ls ++ ms` is a run of `ls` followed by a run of `ms`. -/
theorem run_append {s t : σ} {ls ms : List ℓ} {es : List ε} :
    run step s (ls ++ ms) = some (t, es) ↔
      ∃ u es₁ es₂, run step s ls = some (u, es₁) ∧ run step u ms = some (t, es₂) ∧
        es = es₁ ++ es₂ := by
  induction ls generalizing s es with
  | nil => simp
  | cons l ls ih =>
    rw [List.cons_append, run_cons_eq_some]
    constructor
    · rintro ⟨s', es₁, es₂, hs, hrun, rfl⟩
      obtain ⟨u, es₃, es₄, h₁, h₂, rfl⟩ := ih.mp hrun
      exact ⟨u, es₁ ++ es₃, es₄, run_cons_eq_some.mpr ⟨s', es₁, es₃, hs, h₁, rfl⟩, h₂,
        (List.append_assoc _ _ _).symm⟩
    · rintro ⟨u, es₁, es₂, h₁, h₂, rfl⟩
      obtain ⟨s', es₃, es₄, hs, hrun, rfl⟩ := run_cons_eq_some.mp h₁
      exact ⟨s', es₃, es₄ ++ es₂, hs, ih.mpr ⟨u, es₄, es₂, hrun, h₂, rfl⟩,
        List.append_assoc _ _ _⟩

/-- The invariant rule for the runs whose steps all meet `ok`: what holds of the first
    state with no events, and is kept by every step that meets `ok`, holds at the end. -/
theorem runOk_induction {ok : σ → ℓ → Prop} (P : σ → List ε → Prop)
    (hstep : ∀ s tr l s' es, P s tr → ok s l → step s l = some (s', es) → P s' (tr ++ es))
    {s t : σ} {ls : List ℓ} {es : List ε} (tr : List ε) (h0 : P s tr) (hok : RunOk step ok s ls)
    (hrun : run step s ls = some (t, es)) : P t (tr ++ es) := by
  induction ls generalizing s es tr with
  | nil =>
    obtain ⟨rfl, rfl⟩ : s = t ∧ [] = es := by simpa using hrun
    simpa using h0
  | cons l ls ih =>
    obtain ⟨s', es₁, es₂, hs, hrun', rfl⟩ := run_cons_eq_some.mp hrun
    rw [← List.append_assoc]
    exact ih (tr ++ es₁) (hstep s tr l s' es₁ h0 hok.1 hs) (hok.2 s' es₁ hs) hrun'

/-- A condition may be weakened. -/
theorem RunOk.mono {ok ok' : σ → ℓ → Prop} (h : ∀ s l, ok s l → ok' s l) {s : σ} {ls : List ℓ}
    (hok : RunOk step ok s ls) : RunOk step ok' s ls := by
  induction ls generalizing s with
  | nil => trivial
  | cons l ls ih => exact ⟨h s l hok.1, fun s' es hs => ih (hok.2 s' es hs)⟩

theorem runOk_of_forall {ok : ℓ → Prop} {ls : List ℓ} (s : σ) (h : ∀ l ∈ ls, ok l) :
    RunOk step (fun _ l => ok l) s ls := by
  induction ls generalizing s with
  | nil => trivial
  | cons l ls ih =>
    exact ⟨h l List.mem_cons_self, fun s' _ _ => ih s' fun m hm => h m (List.mem_cons_of_mem _ hm)⟩

theorem runOk_true (s : σ) (ls : List ℓ) : RunOk step (fun _ _ => True) s ls :=
  runOk_of_forall s fun _ _ => trivial

/-- The invariant rule over all runs. -/
theorem run_induction (P : σ → List ε → Prop)
    (hstep : ∀ s tr l s' es, P s tr → step s l = some (s', es) → P s' (tr ++ es))
    {s t : σ} {ls : List ℓ} {es : List ε} (tr : List ε) (h0 : P s tr)
    (hrun : run step s ls = some (t, es)) : P t (tr ++ es) :=
  runOk_induction P (fun s tr l s' es hp _ hs => hstep s tr l s' es hp hs) tr h0
    (runOk_true s ls) hrun

/-- The invariant rule for a property of the state alone. -/
theorem run_invariant (I : σ → Prop)
    (hstep : ∀ s l s' es, I s → step s l = some (s', es) → I s')
    {s t : σ} {ls : List ℓ} {es : List ε} (h0 : I s) (hrun : run step s ls = some (t, es)) :
    I t :=
  run_induction (fun s _ => I s) (fun s _ l s' es hi hs => hstep s l s' es hi hs)
    [] h0 hrun

theorem runOk_append {ok : σ → ℓ → Prop} {s : σ} {ls ms : List ℓ} :
    RunOk step ok s (ls ++ ms) ↔
      RunOk step ok s ls ∧ ∀ u es, run step s ls = some (u, es) → RunOk step ok u ms := by
  induction ls generalizing s with
  | nil => simp [RunOk]
  | cons l ls ih =>
    rw [List.cons_append, RunOk, RunOk]
    constructor
    · rintro ⟨hl, hrest⟩
      refine ⟨⟨hl, fun s' es hs => (ih.mp (hrest s' es hs)).1⟩, fun u es hu => ?_⟩
      obtain ⟨s', es₁, es₂, hs, hrun, -⟩ := run_cons_eq_some.mp hu
      exact (ih.mp (hrest s' es₁ hs)).2 u es₂ hrun
    · rintro ⟨⟨hl, hls⟩, hms⟩
      refine ⟨hl, fun s' es hs => ih.mpr ⟨hls s' es hs, fun u es₂ hrun => ?_⟩⟩
      exact hms u _ (run_cons_eq_some.mpr ⟨s', es, es₂, hs, hrun, rfl⟩)

theorem runOk_concat {ok : σ → ℓ → Prop} {s u : σ} {ls : List ℓ} {l : ℓ} {es : List ε}
    (hrun : run step s ls = some (u, es)) :
    RunOk step ok s (ls ++ [l]) ↔ RunOk step ok s ls ∧ ok u l := by
  rw [runOk_append]
  refine and_congr_right fun _ => ⟨fun h => (h u es hrun).1, fun h v es' hv => ?_⟩
  obtain ⟨rfl, -⟩ := Prod.mk.inj (Option.some.inj (hrun.symm.trans hv))
  exact ⟨h, fun _ _ _ => trivial⟩

/-- The invariant rule for a property that also depends on the labels of the run so far. -/
theorem runOk_history {ok : σ → ℓ → Prop} {s : σ} (P : List ℓ → σ → List ε → Prop)
    (hstep : ∀ ls u tr l u' es, run step s ls = some (u, tr) → P ls u tr → ok u l →
      step u l = some (u', es) → P (ls ++ [l]) u' (tr ++ es))
    (h0 : P [] s []) {ls : List ℓ} {t : σ} {es : List ε} (hok : RunOk step ok s ls)
    (hrun : run step s ls = some (t, es)) : P ls t es := by
  induction ls using List.reverseRecOn generalizing t es with
  | nil =>
    obtain ⟨rfl, rfl⟩ : s = t ∧ [] = es := by simpa using hrun
    exact h0
  | append_singleton ls l ih =>
    obtain ⟨u, es₁, es₂, hls, hl, rfl⟩ := run_append.mp hrun
    obtain ⟨hok₁, hok₂⟩ := runOk_append.mp hok
    obtain ⟨t', es₃, es₄, hs, hnil, rfl⟩ := run_cons_eq_some.mp hl
    obtain ⟨rfl, rfl⟩ : t' = t ∧ [] = es₄ := by simpa using hnil
    rw [List.append_nil]
    exact hstep ls u es₁ l t' es₃ hls (ih hok₁ hls) (hok₂ u es₁ hls).1 hs

/-- A machine that records something beside the states of another one, and shows something
    else, has the runs of the other one. -/
theorem run_project {τ : Type*} {ζ : Type*} {step' : τ → ℓ → Option (τ × List ζ)} (g : σ → τ)
    (h : ∀ s l, (step s l).map (fun r => g r.1) = (step' (g s) l).map fun r => r.1) (s : σ)
    (ls : List ℓ) :
    (run step s ls).map (fun r => g r.1) = (run step' (g s) ls).map fun r => r.1 := by
  induction ls generalizing s with
  | nil => rfl
  | cons l ls ih =>
    have hl := h s l
    rw [run, run]
    cases hs : step s l with
    | none =>
      rw [hs, Option.map_none, eq_comm, Option.map_eq_none_iff] at hl
      rw [hl]
      rfl
    | some r =>
      rw [hs, Option.map_some, eq_comm, Option.map_eq_some_iff] at hl
      obtain ⟨⟨t, es⟩, ht, hg⟩ := hl
      obtain rfl : t = g r.1 := hg
      rw [ht]
      simp only [Option.map_map]
      exact ih r.1

/-- A machine that records something beside the states of another one goes along with each of its
    runs. -/
theorem run_lift {τ : Type*} {step' : τ → ℓ → Option (τ × List ε)} (g : τ → σ)
    (h : ∀ t l s es, step (g t) l = some (s, es) → ∃ t', step' t l = some (t', es) ∧ g t' = s)
    {t : τ} {ls : List ℓ} {s : σ} {es : List ε} (hrun : run step (g t) ls = some (s, es)) :
    ∃ t', run step' t ls = some (t', es) ∧ g t' = s := by
  induction ls generalizing t es with
  | nil =>
    obtain ⟨rfl, rfl⟩ : g t = s ∧ [] = es := by simpa using hrun
    exact ⟨t, rfl, rfl⟩
  | cons l ls ih =>
    obtain ⟨s₁, es₁, es₂, hstep, hrest, rfl⟩ := run_cons_eq_some.mp hrun
    obtain ⟨t₁, ht₁, rfl⟩ := h t l s₁ es₁ hstep
    obtain ⟨t', ht', hs⟩ := ih hrest
    exact ⟨t', run_cons_eq_some.mpr ⟨t₁, es₁, es₂, ht₁, ht', rfl⟩, hs⟩

/-! ## Events and those before them -/

/-- Every event meets `law`, given the events before it. -/
def EachAfter (law : List ε → ε → Prop) (tr : List ε) : Prop :=
  ∀ tr₁ e tr₂, tr = tr₁ ++ e :: tr₂ → law tr₁ e

variable {law : List ε → ε → Prop} {tr : List ε}

theorem eachAfter_nil : EachAfter law ([] : List ε) := by
  intro tr₁ e tr₂ heq
  exact absurd heq.symm (List.append_ne_nil_of_right_ne_nil _ (by simp))

/-- One more event. -/
theorem EachAfter.concat (h : EachAfter law tr) {e : ε} (he : law tr e) :
    EachAfter law (tr ++ [e]) := by
  intro tr₁ e' tr₂ heq
  rcases List.eq_nil_or_concat tr₂ with rfl | ⟨tr₃, e'', rfl⟩
  · obtain ⟨rfl, hlast⟩ := List.append_inj' heq rfl
    obtain rfl := List.singleton_inj.mp hlast
    exact he
  · rw [List.concat_eq_append, ← List.cons_append, ← List.append_assoc] at heq
    exact h tr₁ e' tr₃ (List.append_inj' heq rfl).1

/-- `e` has happened, and nothing since then was a `stop`. -/
def Since (tr : List ε) (e : ε) (stop : ε → Prop) : Prop :=
  ∃ before after, tr = before ++ e :: after ∧ ∀ e' ∈ after, ¬ stop e'

theorem not_since_nil {e : ε} {stop : ε → Prop} : ¬ Since [] e stop := by
  rintro ⟨before, after, heq, -⟩
  exact absurd heq.symm (List.append_ne_nil_of_right_ne_nil _ (by simp))

theorem since_concat {e x : ε} {stop : ε → Prop} :
    Since (tr ++ [x]) e stop ↔ x = e ∨ Since tr e stop ∧ ¬ stop x := by
  constructor
  · rintro ⟨before, after, heq, hafter⟩
    rcases List.eq_nil_or_concat after with rfl | ⟨after, y, rfl⟩
    · exact Or.inl (List.singleton_inj.mp (List.append_inj' heq rfl).2)
    · rw [List.concat_eq_append, ← List.cons_append, ← List.append_assoc] at heq
      obtain ⟨htr, hlast⟩ := List.append_inj' heq rfl
      obtain rfl := List.singleton_inj.mp hlast
      refine Or.inr ⟨⟨before, after, htr, fun e' he' => hafter e' ?_⟩, hafter x ?_⟩ <;> simp [*]
  · rintro (rfl | ⟨⟨before, after, rfl, hafter⟩, hx⟩)
    · exact ⟨tr, [], rfl, by simp⟩
    · refine ⟨before, after ++ [x], by simp, fun e' he' => ?_⟩
      rcases List.mem_append.mp he' with hmem | hmem
      · exact hafter e' hmem
      · rw [List.mem_singleton.mp hmem]
        exact hx

end Machine
