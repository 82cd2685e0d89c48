import Mathlib.Algebra.BigOperators.Group.List.Basic
import Mathlib.Algebra.Group.Pi.Basic
import Mathlib.Algebra.Group.WithOne.Defs
import Mathlib.Data.List.Nodup
import Mathlib.Data.List.Perm.Basic

/-!
Tallies: what a list of keyed entries adds up to, key by key.

Entries under one key are added in a commutative semigroup, and a key without entries has
tally `0`, the unit adjoined to the semigroup. Tallies of two lists add pointwise, so that
a law saying that nothing is lost between several places is an equation between sums of
tallies.
-/

namespace BinanceAggregator.Tally

section WithZero

variable {α : Type*} [AddCommSemigroup α]

lemma add_eq_zero_iff {x y : WithZero α} : x + y = 0 ↔ x = 0 ∧ y = 0 := by
  constructor
  · intro h
    induction x using WithZero.recZeroCoe with
    | zero => exact ⟨rfl, by simpa using h⟩
    | coe a =>
        induction y using WithZero.recZeroCoe with
        | zero => exact absurd h (by simp)
        | coe b => exact absurd h (by rw [← WithZero.coe_add]; exact WithZero.coe_ne_zero)
  · rintro ⟨rfl, rfl⟩
    exact add_zero 0

end WithZero

variable {B K α : Type*} [DecidableEq K] [AddCommSemigroup α] (key : B → K) (val : B → α)

/-- The sum of the values that the entries of `l` have under the key `k`. -/
def tally (l : List B) (k : K) : WithZero α :=
  ((l.filter fun b => key b = k).map fun b => (val b : WithZero α)).sum

@[simp] lemma tally_nil : tally key val [] = 0 := rfl

lemma tally_cons (b : B) (l : List B) (k : K) :
    tally key val (b :: l) k = (if key b = k then (val b : WithZero α) else 0) + tally key val l k := by
  by_cases h : key b = k <;> simp [tally, h]

@[simp] lemma tally_append (l m : List B) :
    tally key val (l ++ m) = tally key val l + tally key val m := by
  funext k
  simp [tally]

lemma tally_perm {l m : List B} (h : l.Perm m) : tally key val l = tally key val m := by
  funext k
  exact ((h.filter _).map _).sum_eq

lemma tally_eq_zero_iff {l : List B} {k : K} : tally key val l k = 0 ↔ ∀ b ∈ l, key b ≠ k := by
  induction l with
  | nil => simp
  | cons b l ih =>
      rw [tally_cons, add_eq_zero_iff, ih]
      by_cases h : key b = k <;> simp [h]

/-- Keeping the entries of some keys keeps the tallies of those keys. -/
lemma tally_filter (p : K → Bool) (l : List B) (k : K) :
    tally key val (l.filter fun b => p (key b)) k = if p k then tally key val l k else 0 := by
  induction l with
  | nil => simp
  | cons b l ih =>
      by_cases hb : p (key b)
      · rw [List.filter_cons_of_pos (by simpa using hb), tally_cons, tally_cons, ih]
        by_cases hk : key b = k
        · subst hk
          simp [hb]
        · simp [hk]
      · rw [List.filter_cons_of_neg (by simpa using hb), ih, tally_cons]
        split_ifs with hp hk
        · exact absurd (hk ▸ hp) hb
        · rw [zero_add]
        · rfl

/-- Where keys do not repeat, a key has one entry. -/
lemma filter_key_eq_singleton {l : List B} (hl : (l.map key).Nodup) {b : B} (hb : b ∈ l) :
    (l.filter fun c => key c = key b) = [b] := by
  induction l with
  | nil => simp at hb
  | cons c l ih =>
      rw [List.map_cons, List.nodup_cons] at hl
      rcases List.mem_cons.mp hb with rfl | hb
      · have hnone : (l.filter fun c => key c = key b) = [] := by
          rw [List.filter_eq_nil_iff]
          intro c hc he
          exact hl.1 (of_decide_eq_true he ▸ List.mem_map_of_mem hc)
        simp [hnone]
      · have hne : key c ≠ key b := fun he => hl.1 (he ▸ List.mem_map_of_mem hb)
        simp [hne, ih hl.2 hb]

/-- The tally of a key that does not repeat is the value of its one entry. -/
lemma tally_of_mem {l : List B} (hl : (l.map key).Nodup) {b : B} (hb : b ∈ l) :
    tally key val l (key b) = val b := by
  rw [tally, filter_key_eq_singleton key hl hb, List.map_singleton, List.sum_singleton]

/-- A tally at a key that occurs comes from an entry. -/
lemma exists_mem_of_tally_ne {l : List B} {k : K} (h : tally key val l k ≠ 0) :
    ∃ b ∈ l, key b = k := by
  by_contra hc
  push Not at hc
  exact h ((tally_eq_zero_iff key val).mpr hc)

/-- **Tallies determine lists.** Two lists without repeated keys and with the same tally have
the same entries, when an entry is determined by its key and its value. -/
theorem perm_of_tally_eq (inj : ∀ b c, key b = key c → val b = val c → b = c) {l m : List B}
    (hl : (l.map key).Nodup) (hm : (m.map key).Nodup) (h : tally key val l = tally key val m) :
    l.Perm m := by
  have sub : ∀ {l m : List B}, (l.map key).Nodup → (m.map key).Nodup →
      tally key val l = tally key val m → ∀ b ∈ l, b ∈ m := by
    intro l m hl hm h b hb
    have hb' := tally_of_mem key val hl hb
    rw [h] at hb'
    obtain ⟨c, hc, hck⟩ := exists_mem_of_tally_ne key val (by rw [hb']; exact WithZero.coe_ne_zero)
    have hv := tally_of_mem key val hm hc
    rw [hck, hb', WithZero.coe_inj] at hv
    exact inj b c hck.symm hv ▸ hc
  rw [List.perm_ext_iff_of_nodup hl.of_map hm.of_map]
  exact fun b => ⟨sub hl hm h b, sub hm hl h.symm b⟩

/-! ### Grouping by key -/

/-- Listing the entries key by key rearranges those that have one of the keys. -/
lemma flatMap_filter_perm {ks : List K} (hks : ks.Nodup) (l : List B) :
    (ks.flatMap fun k => l.filter fun b => key b = k).Perm (l.filter fun b => key b ∈ ks) := by
  induction ks with
  | nil => simp
  | cons k ks ih =>
      rw [List.nodup_cons] at hks
      rw [List.flatMap_cons]
      refine ((ih hks.2).append_left _).trans ?_
      -- split the entries on the right by whether they have the first key
      refine List.Perm.trans ?_ (List.filter_append_perm (fun b => key b = k) _)
      rw [List.filter_filter, List.filter_filter]
      refine List.Perm.append (.of_eq (List.filter_congr fun b _ => ?_))
        (.of_eq (List.filter_congr fun b _ => ?_))
      · by_cases h : key b = k <;> simp [h]
      · by_cases h : key b = k
        · simp [h, hks.1]
        · simp [h]

end BinanceAggregator.Tally
