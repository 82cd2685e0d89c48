import Mathlib.Tactic.Lemma
import Mathlib.Tactic.SplitIfs

/-!
Computations that may fail, and the two questions asked of them.

When a computation succeeds, what its parts returned is read off by taking the binds and the tests
apart. When it fails, the error comes from one of its parts, so that a property of all errors is
checked part by part, each under what has succeeded before it.
-/

namespace BinanceAggregator.Fallible

variable {ε α β : Type} {x : Except ε α} {f : α → Except ε β} {a : α} {b : β} {e : ε}

/-! ### Success -/

lemma ok_bind (a : α) (f : α → Except ε β) : (Except.ok a >>= f) = f a := rfl

lemma bind_eq_ok : (x >>= f) = .ok b ↔ ∃ a, x = .ok a ∧ f a = .ok b := by
  cases x with
  | error e => exact ⟨nofun, nofun⟩
  | ok a => exact ⟨fun h => ⟨a, rfl, h⟩, fun ⟨_, ha, h⟩ => Except.ok.inj ha ▸ h⟩

lemma return_eq_ok {a' : α} : (return a : Except ε α) = .ok a' ↔ a = a' :=
  ⟨Except.ok.inj, congrArg _⟩

/-- A test that has to hold. -/
lemma required_eq_ok {p : Prop} [Decidable p] :
    (if p then x else throw e) = .ok a ↔ p ∧ x = .ok a := by
  by_cases hp : p
  · simp [hp]
  · rw [if_neg hp]
    exact ⟨nofun, fun h => absurd h.1 hp⟩

/-- A test that must not hold. -/
lemma refused_eq_ok {p : Prop} [Decidable p] :
    (if p then throw e else x) = .ok a ↔ ¬ p ∧ x = .ok a := by
  by_cases hp : p
  · rw [if_pos hp]
    exact ⟨nofun, fun h => absurd hp h.1⟩
  · simp [hp]

lemma forM_eq_ok {as : List α} {f : α → Except ε Unit} :
    as.forM f = .ok () ↔ ∀ a ∈ as, f a = .ok () := by
  induction as with
  | nil => exact ⟨fun _ _ ha => absurd ha List.not_mem_nil, fun _ => rfl⟩
  | cons a as ih =>
      change (f a >>= fun _ => as.forM f) = .ok () ↔ _
      rw [bind_eq_ok, List.forall_mem_cons, ← ih]
      exact ⟨fun ⟨_, ha, has⟩ => ⟨ha, has⟩, fun ⟨ha, has⟩ => ⟨(), ha, has⟩⟩

/-! ### Failure -/

/-- Of several computations in a row the first that fails decides. -/
lemma forM_eq_error {as : List α} {f : α → Except ε Unit} : as.forM f = .error e ↔
    ∃ u a v, as = u ++ a :: v ∧ (∀ b ∈ u, f b = .ok ()) ∧ f a = .error e := by
  induction as with
  | nil =>
      refine ⟨(fun h => by cases h), ?_⟩
      rintro ⟨u, a, v, h, -⟩
      simp at h
  | cons a as ih =>
      change (f a >>= fun _ => as.forM f) = .error e ↔ _
      cases ha : f a with
      | error e' =>
          constructor
          · intro h
            cases h
            exact ⟨[], a, as, rfl, fun _ hb => absurd hb List.not_mem_nil, ha⟩
          · rintro ⟨_ | ⟨b, u⟩, c, v, h, hu, hc⟩
            · obtain ⟨rfl, -⟩ := List.cons.inj h
              exact ha.symm.trans hc
            · obtain ⟨rfl, -⟩ := List.cons.inj h
              cases ha.symm.trans (hu a List.mem_cons_self)
      | ok _ =>
          rw [ok_bind, ih]
          constructor
          · rintro ⟨u, c, v, rfl, hu, hc⟩
            refine ⟨a :: u, c, v, rfl, ?_, hc⟩
            exact List.forall_mem_cons.mpr ⟨ha, hu⟩
          · rintro ⟨_ | ⟨b, u⟩, c, v, h, hu, hc⟩
            · obtain ⟨rfl, -⟩ := List.cons.inj h
              cases ha.symm.trans hc
            · obtain ⟨rfl, rfl⟩ := List.cons.inj h
              exact ⟨u, c, v, rfl, fun b hb => hu b (List.mem_cons_of_mem _ hb), hc⟩

variable {P : ε → Prop}

/-- Every error of the computation has a property. -/
def Raises (P : ε → Prop) (x : Except ε α) : Prop := ∀ e, x = .error e → P e

namespace Raises

lemma of_ok (h : x = .ok a) : Raises P x := by
  intro e he
  cases h.symm.trans he

lemma of_return (a : α) : Raises P (return a : Except ε α) := of_ok rfl

lemma of_throw (h : P e) : Raises P (throw e : Except ε α) := by
  intro e' he
  cases he
  exact h

/-- An error of two computations in a row is one of the first, or of the second on what the first
returned. -/
lemma bind (hx : Raises P x) (hf : ∀ a, x = .ok a → Raises P (f a)) : Raises P (x >>= f) := by
  intro e he
  cases x with
  | error e' =>
      cases he
      exact hx _ rfl
  | ok a => exact hf a rfl e he

lemma ite {p : Prop} [Decidable p] {x y : Except ε α} (hx : p → Raises P x)
    (hy : ¬ p → Raises P y) : Raises P (if p then x else y) := by
  split_ifs with hp
  · exact hx hp
  · exact hy hp

lemma mapM {as : List α} (h : ∀ a ∈ as, Raises P (f a)) : Raises P (as.mapM f) := by
  induction as with
  | nil => exact of_ok List.mapM_nil
  | cons a as ih =>
      rw [List.mapM_cons]
      refine (h a List.mem_cons_self).bind fun b _ => ?_
      refine (ih fun a ha => h a (List.mem_cons_of_mem _ ha)).bind fun bs _ => ?_
      exact of_return _

end Raises

end BinanceAggregator.Fallible
