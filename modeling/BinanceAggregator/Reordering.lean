import BinanceAggregator.AggregatorTable

/-!
The order in which trades are added does not matter.

The first trade of a bucket opens its window and the later ones update it, so that the order
decides which trade does what. The window is the same all the same: in either order it has the
bucket of the trades, and its summary is the sum of theirs.
-/

namespace BinanceAggregator

open Std (ExtTreeMap LawfulEqOrd)

namespace Windows

/-- Windows are determined by the symbols that are there and what is found for them. -/
lemma ext_find {ws vs : Windows} (hmem : ∀ s : Str, s ∈ ws ↔ s ∈ vs)
    (hfind : ∀ s w, ws.find s w = vs.find s w) : ws = vs := by
  refine ExtTreeMap.ext_getElem? fun s => ?_
  have hs := hmem s
  have hf := hfind s
  rw [← ExtTreeMap.isSome_getElem?_iff_mem, ← ExtTreeMap.isSome_getElem?_iff_mem] at hs
  simp only [find_eq_bind] at hf
  rcases hws : ws[s]? with _ | sw <;> rcases hvs : vs[s]? with _ | sv
  · rfl
  · simp [hws, hvs] at hs
  · simp [hws, hvs] at hs
  · rw [hws, hvs] at hf
    exact congrArg some (ExtTreeMap.ext_getElem? hf)

lemma mem_addTrade (windowMs : UInt64) (ws : Windows) (t : TradeEvent) (s : Str) :
    s ∈ ws.addTrade windowMs t ↔ t.symbol = s ∨ s ∈ ws := by
  rw [addTrade, ExtTreeMap.mem_insert, LawfulEqOrd.compare_eq_iff_eq]

/-- The window of a bucket after one more trade. -/
lemma bucket_admitPrice {t : TradeEvent} {w : UInt64} {o : Option WindowStats} {b : Bucket}
    (ht : (t.symbol, w) = b) (ho : ∀ x ∈ o, x.bucket = b) : (admitPrice t w o).bucket = b := by
  cases o with
  | none => exact ht
  | some x => exact ho x rfl

/-- Two trades of one bucket may change places. -/
lemma countTrade_comm {t u : TradeEvent} {w : UInt64} {o : Option WindowStats} {b : Bucket}
    (ht : (t.symbol, w) = b) (hu : (u.symbol, w) = b) (ho : ∀ x ∈ o, x.bucket = b) :
    countTrade t (admitPrice t w (some (countTrade u (admitPrice u w o)))) =
      countTrade u (admitPrice u w (some (countTrade t (admitPrice t w o)))) := by
  have hbucket {v v' : TradeEvent} (hv : (v.symbol, w) = b) (hv' : (v'.symbol, w) = b) :
      (countTrade v (admitPrice v w (some (countTrade v' (admitPrice v' w o))))).bucket = b := by
    rw [bucket_countTrade]
    refine bucket_admitPrice hv fun x hx => ?_
    cases hx
    rw [bucket_countTrade, bucket_admitPrice hv' ho]
  refine WindowStats.ext_bucket ((hbucket ht hu).trans (hbucket hu ht).symm) ?_
  rw [summary_later, summary_later]
  cases o with
  | none => rw [summary_first, summary_first, add_comm]
  | some x => rw [summary_later, summary_later, add_right_comm]

/-- Two trades may change places. -/
lemma addTrade_comm {windowMs : UInt64} {ws : Windows} (h : ws.Keyed windowMs) (t u : TradeEvent) :
    (ws.addTrade windowMs t).addTrade windowMs u =
      (ws.addTrade windowMs u).addTrade windowMs t := by
  refine ext_find (fun s => ?_) fun s w => ?_
  · simp only [mem_addTrade]
    exact or_left_comm
  · have hkeyed : ∀ x ∈ ws.find s w, x.bucket = (s, w) := fun x hx => (h s w x hx).1
    simp only [find_addTrade]
    by_cases ht : t.bucket windowMs = (s, w) <;> by_cases hu : u.bucket windowMs = (s, w)
    · have ht' : (t.symbol, w) = (s, w) := by rw [(Prod.mk.inj ht).1]
      have hu' : (u.symbol, w) = (s, w) := by rw [(Prod.mk.inj hu).1]
      simp only [ht, hu, if_true]
      rw [countTrade_comm hu' ht' hkeyed]
    all_goals simp [ht, hu]

end Windows

namespace MarketDataAggregator

/-- Two trades may change places. -/
lemma addTrade_right_comm (a : MarketDataAggregator) (t u : TradeEvent) :
    (a.addTrade t).addTrade u = (a.addTrade u).addTrade t := by
  have hcomm := Windows.addTrade_comm a.keyed t u
  simp only [addTrade, hcomm]

/-- **Aggregation is order-independent.** From every state, adding the same trades in any order
leads to the same state. -/
theorem foldl_addTrade_perm (a : MarketDataAggregator) {l m : List TradeEvent} (h : l.Perm m) :
    l.foldl addTrade a = m.foldl addTrade a :=
  h.foldl_eq' (fun t _ u _ a => addTrade_right_comm a t u) a

/-- Two trades of one window with different prices. -/
theorem foldl_addTrade_perm_swap :
    [({ price := ⟨1⟩ } : TradeEvent), { price := ⟨2⟩ }].Perm [{ price := ⟨2⟩ }, { price := ⟨1⟩ }] ∧
    [({ price := ⟨1⟩ } : TradeEvent), { price := ⟨2⟩ }].foldl addTrade (ofWindowMs 1000) =
      [({ price := ⟨2⟩ } : TradeEvent), { price := ⟨1⟩ }].foldl addTrade (ofWindowMs 1000) :=
  ⟨.swap _ _ [], foldl_addTrade_perm _ (.swap _ _ [])⟩

end MarketDataAggregator

end BinanceAggregator
