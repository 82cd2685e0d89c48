import Mathlib.Data.List.Induction
import Mathlib.Tactic.Lemma

/-!
Runs of a machine given by a partial step function.

A step takes an action and either is not enabled or leads to one next state. The actions
taken so far are the whole history of a run, so a property of executions is a property of
pairs of a history and the state it leads to.
-/

namespace BinanceAggregator.Runs

variable {S A : Type*} (step : S → A → Option S)

/-- The state after the actions `tr`, if every one of them was enabled in its turn. -/
def run (s : S) (tr : List A) : Option S := tr.foldlM step s

@[simp] lemma run_nil (s : S) : run step s [] = some s := rfl

@[simp] lemma run_cons (s : S) (a : A) (tr : List A) :
    run step s (a :: tr) = (step s a).bind fun t => run step t tr := by
  simp [run, List.foldlM_cons, Option.bind_eq_bind]

lemma run_append (s : S) (u v : List A) :
    run step s (u ++ v) = (run step s u).bind fun t => run step t v := by
  simp [run, List.foldlM_append, Option.bind_eq_bind]

/-- The last action of a run was enabled where the actions before it led. -/
lemma run_snoc {s t : S} {u : List A} {a : A} :
    run step s (u ++ [a]) = some t ↔ ∃ m, run step s u = some m ∧ step m a = some t := by
  rw [run_append, Option.bind_eq_some_iff]
  simp

/-- Every prefix of a run is a run. -/
lemma run_prefix {s t : S} {u v : List A} (h : run step s (u ++ v) = some t) :
    ∃ m, run step s u = some m ∧ run step m v = some t := by
  rwa [run_append, Option.bind_eq_some_iff] at h

/-- An action in the middle of a run was enabled there, and the run went on. -/
lemma run_split {s t : S} {u v : List A} {a : A} (h : run step s (u ++ a :: v) = some t) :
    ∃ m m', run step s u = some m ∧ step m a = some m' ∧ run step m' v = some t := by
  obtain ⟨m, hm, hrest⟩ := run_prefix step h
  rw [run_cons, Option.bind_eq_some_iff] at hrest
  obtain ⟨m', ha, hv⟩ := hrest
  exact ⟨m, m', hm, ha, hv⟩

/-- What is left of a run goes on from where a part of it has led. -/
lemma run_suffix {s m t : S} {u v : List A} (h : run step s (u ++ v) = some t)
    (hu : run step s u = some m) : run step m v = some t := by
  rwa [run_append, hu, Option.bind_some] at h

variable {step}

/-- **Invariants.** What holds of the empty history and is kept by every enabled action holds
of every run; the preservation step may use that the state it starts from is reached. -/
theorem run_inv {P : List A → S → Prop} {s₀ : S} (init : P [] s₀)
    (pres : ∀ {tr s a t}, run step s₀ tr = some s → P tr s → step s a = some t → P (tr ++ [a]) t)
    {tr : List A} {s : S} (h : run step s₀ tr = some s) : P tr s := by
  induction tr using List.reverseRecOn generalizing s with
  | nil =>
      rw [run_nil, Option.some.injEq] at h
      exact h ▸ init
  | append_singleton u a ih =>
      obtain ⟨m, hm, ha⟩ := (run_snoc step).mp h
      exact pres hm (ih hm) ha

/-- A property that mentions the state alone and that every step keeps holds of all states
reached from one in which it holds. -/
theorem run_stable {P : S → Prop} (pres : ∀ {s a t}, P s → step s a = some t → P t)
    {s t : S} {tr : List A} (hs : P s) (h : run step s tr = some t) : P t :=
  run_inv (P := fun _ t => P t) hs (fun _ hm ha => pres hm ha) h

/-- **Projections.** If every step does to a part of the state what some steps of another machine
do, a run is a run of that machine on the part. -/
theorem run_project {T B : Type*} {part : T → B → Option T} {f : S → T} {g : A → List B}
    (hstep : ∀ {s a t}, step s a = some t → run part (f s) (g a) = some (f t)) {s t : S}
    {tr : List A} (h : run step s tr = some t) : run part (f s) (tr.flatMap g) = some (f t) := by
  refine run_inv (P := fun tr t => run part (f s) (tr.flatMap g) = some (f t)) rfl ?_ h
  intro tr m a t _ hm ha
  rw [List.flatMap_append, run_append, hm, List.flatMap_singleton]
  exact hstep ha

/-! ### Conditions on the steps of a run -/

/-- Every action of a history meets a condition on the state in which it is taken. -/
def Meets (step : S → A → Option S) (P : S → A → Prop) (s₀ : S) (tr : List A) : Prop :=
  ∀ u a v s, tr = u ++ a :: v → run step s₀ u = some s → P s a

variable {P : S → A → Prop} {s₀ : S}

lemma Meets.of_append {u v : List A} (h : Meets step P s₀ (u ++ v)) : Meets step P s₀ u := by
  rintro u₁ a v₁ s rfl
  exact h u₁ a (v₁ ++ v) s (by simp)

lemma Meets.last {tr : List A} {a : A} {s : S} (h : Meets step P s₀ (tr ++ [a]))
    (hr : run step s₀ tr = some s) : P s a :=
  h tr a [] s rfl hr

/-- Whether every action meets the condition, for a given history. -/
def checkMeets (step : S → A → Option S) (P : S → A → Prop) [∀ s a, Decidable (P s a)] :
    S → List A → Bool
  | _, [] => true
  | s, a :: tr => decide (P s a) && (step s a).any (checkMeets step P · tr)

lemma meets_of_check [∀ s a, Decidable (P s a)] {tr : List A}
    (h : checkMeets step P s₀ tr = true) : Meets step P s₀ tr := by
  induction tr generalizing s₀ with
  | nil =>
      intro u a v s hnil
      simp at hnil
  | cons b tr ih =>
      rw [checkMeets, Bool.and_eq_true, Option.any_eq_true] at h
      obtain ⟨hb, s', hs', htr⟩ := h
      rintro (_ | ⟨c, u⟩) a v s hcons hu
      · obtain ⟨rfl, -⟩ := List.cons.inj hcons
        cases hu
        exact of_decide_eq_true hb
      · obtain ⟨rfl, rfl⟩ := List.cons.inj hcons
        rw [run_cons, hs'] at hu
        exact ih htr u a v s rfl hu

end BinanceAggregator.Runs
