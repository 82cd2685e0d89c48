import Mathlib.Logic.Basic

/-!
Mutexes and the points at which they are held.

A mutex is `none` when it is free and names its holder otherwise. In a program that locks and
unlocks in pairs the holder is the party that stands between the two, so that the state of the
mutex can be read off the program counters.
-/

namespace BinanceAggregator.Mutex

variable {P : Type*} {m : Option P} {f g : P → Prop} {p q : P}

/-- The mutex is held by whoever is at a point where it holds it. -/
def Held (m : Option P) (f : P → Prop) : Prop := ∀ p, m = some p ↔ f p

namespace Held

lemma congr (h : Held m f) (hfg : ∀ p, g p ↔ f p) : Held m g :=
  fun p => (h p).trans (hfg p).symm

lemma unique (h : Held m f) (hp : f p) (hq : f q) : p = q := by
  have hmp := (h p).mpr hp
  have hmq := (h q).mpr hq
  exact Option.some.inj (hmp.symm.trans hmq)

lemma not_of_free (h : Held m f) (hm : m = none) (p : P) : ¬ f p := by
  intro hp
  have hmp := (h p).mpr hp
  rw [hm] at hmp
  cases hmp

lemma eq_none (h : Held m f) (hf : ∀ p, ¬ f p) : m = none := by
  rcases m with _ | p
  · rfl
  · exact absurd ((h p).mp rfl) (hf p)

/-- A party locks a free mutex. -/
lemma lock (h : Held m f) (hm : m = none) (hp : g p) (hg : ∀ q, q ≠ p → (g q ↔ f q)) :
    Held (some p) g := by
  intro q
  constructor
  · intro hq
    obtain rfl := Option.some.inj hq
    exact hp
  · intro hq
    by_cases hqp : q = p
    · rw [hqp]
    · exact absurd ((hg q hqp).mp hq) (h.not_of_free hm q)

/-- The holder unlocks. -/
lemma unlock (h : Held m f) (hp : f p) (hp' : ¬ g p) (hg : ∀ q, q ≠ p → (g q ↔ f q)) :
    Held none g := by
  intro q
  refine ⟨nofun, fun hq => ?_⟩
  have hqp : q ≠ p := fun he => hp' (he ▸ hq)
  exact absurd (h.unique ((hg q hqp).mp hq) hp) hqp

end Held

end BinanceAggregator.Mutex
