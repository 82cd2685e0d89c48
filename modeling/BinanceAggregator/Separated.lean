import Mathlib.Data.List.Basic

/-!
Lists made of parts with a separator between them, or after each of them.

If the separator occurs in no part, the parts are got back by splitting at it. The separator may
itself be a list: lines may be separated by bytes, and groups of lines by an empty line.
-/

namespace BinanceAggregator.Separated

variable {α : Type*} [BEq α] [LawfulBEq α] {sep : α} {parts : List (List α)}

/-- The parts, each with the separator after it. -/
def terminate (sep : α) (parts : List (List α)) : List α := parts.flatMap (· ++ [sep])

/-- The parts of a list in which the separator stands after each part. -/
def terminated (sep : α) (l : List α) : List (List α) := (l.splitOn sep).dropLast

omit [BEq α] [LawfulBEq α] in
lemma terminate_append (ps qs : List (List α)) :
    terminate sep (ps ++ qs) = terminate sep ps ++ terminate sep qs :=
  List.flatMap_append

omit [BEq α] [LawfulBEq α] in
lemma terminate_eq_intercalate (sep : α) (parts : List (List α)) :
    terminate sep parts = [sep].intercalate (parts ++ [[]]) := by
  induction parts with
  | nil => rfl
  | cons p ps ih =>
      obtain ⟨q, qs, hq⟩ := List.exists_cons_of_ne_nil (List.concat_ne_nil [] ps)
      rw [terminate, List.flatMap_cons, ← terminate, ih, List.cons_append, hq,
        List.intercalate_cons_cons]

/-- **Splitting undoes joining**, where the separator stands after each part. -/
theorem terminated_terminate (h : ∀ p ∈ parts, sep ∉ p) :
    terminated sep (terminate sep parts) = parts := by
  have hsplit : (terminate sep parts).splitOn sep = parts ++ [[]] := by
    rw [terminate_eq_intercalate]
    refine List.splitOn_intercalate sep (fun p hp => ?_) (by simp)
    rcases List.mem_append.mp hp with hp | hp
    · exact h p hp
    · rw [List.mem_singleton.mp hp]
      exact List.not_mem_nil
  rw [terminated, hsplit, List.dropLast_concat]

/-- What follows on whole parts is split on its own. -/
lemma terminated_terminate_append (h : ∀ p ∈ parts, sep ∉ p) (t : List α) :
    terminated sep (terminate sep parts ++ t) = parts ++ terminated sep t := by
  induction parts with
  | nil => rfl
  | cons p ps ih =>
      have hps := ih fun q hq => h q (List.mem_cons_of_mem p hq)
      have happend : terminate sep (p :: ps) ++ t = p ++ sep :: (terminate sep ps ++ t) := by
        simp [terminate]
      rw [terminated, happend, List.splitOn_append_cons_self_of_not_mem (h p List.mem_cons_self),
        List.dropLast_cons_of_ne_nil (List.splitOn_ne_nil _ _), ← terminated, hps]
      rfl

/-- **Parts cut short.** Where the text breaks off, the parts in front of the break are got back. -/
theorem terminated_of_cut (h : ∀ p ∈ parts, sep ∉ p) {t : List α} (ht : t <+: terminate sep parts) :
    terminated sep t <+: parts := by
  induction parts generalizing t with
  | nil =>
      obtain rfl : t = [] := List.prefix_nil.mp ht
      exact List.nil_prefix
  | cons p ps ih =>
      have hp := h p List.mem_cons_self
      have happend : terminate sep (p :: ps) = (p ++ [sep]) ++ terminate sep ps := rfl
      rw [happend] at ht
      rcases Nat.lt_or_ge p.length t.length with hlt | hge
      · -- the first part is there as a whole, with its separator
        obtain ⟨u, rfl⟩ := List.prefix_of_prefix_length_le (List.prefix_append _ _) ht
          (by rw [List.length_append, List.length_singleton]; exact hlt)
        have hu := (List.prefix_append_right_inj _).mp ht
        have hone : terminated sep (terminate sep [p] ++ u) = [p] ++ terminated sep u :=
          terminated_terminate_append (by simpa using hp) u
        rw [show terminate sep [p] = p ++ [sep] by simp [terminate]] at hone
        rw [hone, List.singleton_append]
        exact (List.prefix_cons_inj p).mpr (ih (fun q hq => h q (List.mem_cons_of_mem p hq)) hu)
      · have hsub : t <+: p := List.prefix_of_prefix_length_le ht
          ((List.prefix_append p [sep]).trans (List.prefix_append _ _)) hge
        have hnone : sep ∉ t := fun hmem => hp (hsub.subset hmem)
        rw [terminated, List.splitOn_eq_singleton hnone]
        exact List.nil_prefix

omit [BEq α] [LawfulBEq α] in
lemma mem_of_mem_intercalate {c : α} (h : c ∈ [sep].intercalate parts) :
    c = sep ∨ ∃ p ∈ parts, c ∈ p := by
  induction parts with
  | nil => cases h
  | cons p ps ih =>
      cases ps with
      | nil => exact .inr ⟨p, List.mem_singleton_self p, by simpa using h⟩
      | cons q qs =>
          rw [List.intercalate_cons_cons, List.mem_append, List.mem_append,
            List.mem_singleton] at h
          rcases h with (h | h) | h
          · exact .inr ⟨p, List.mem_cons_self, h⟩
          · exact .inl h
          · rcases ih h with h | ⟨r, hr, hc⟩
            · exact .inl h
            · exact .inr ⟨r, List.mem_cons_of_mem _ hr, hc⟩

omit [LawfulBEq α] in
/-- There is one part more than there are separators. -/
lemma length_splitOn (sep : α) (l : List α) : (l.splitOn sep).length = l.count sep + 1 := by
  induction l with
  | nil => simp
  | cons x l ih =>
      rw [List.splitOn_cons_eq_if_modifyHead, List.count_cons]
      split_ifs with hx
      · rw [List.length_cons, ih]
      · rw [List.length_modifyHead, ih]

end BinanceAggregator.Separated
