import Std.Data.ExtTreeMap
import BinanceAggregator.Stats

/-!
The aggregator of one shard: windows by symbol and start, in two levels of ordered maps.

The maps are `std::map`s, taken as extensional ordered maps: the order of iteration is the
order of the keys, and two maps with the same entries are equal. The loops that erase while
they iterate run over the entries as they stood when the loop began, which is what the
iterators of the source visit.
-/

namespace BinanceAggregator

open Std (ExtTreeMap LawfulEqOrd)

/-- The windows of one symbol, by their start. -/
abbrev SymbolWindows := ExtTreeMap UInt64 WindowStats

/-- `MarketDataAggregator::windows_`. -/
abbrev Windows := ExtTreeMap Str SymbolWindows

namespace Windows

/-- `window_stats`. -/
def find (ws : Windows) (symbol : Str) (windowStartMs : UInt64) : Option WindowStats :=
  match ws[symbol]? with
  | none => none
  | some symbolWindows => symbolWindows[windowStartMs]?

/-- The bucket as the first trade of a window finds it, or as a later trade does, with the
price of the trade taken into account. -/
def admitPrice (t : TradeEvent) (windowStartMs : UInt64) : Option WindowStats → WindowStats
  | none => { symbol := t.symbol, windowStartMs, minPrice := t.price, maxPrice := t.price }
  | some stats =>
    { stats with
      minPrice := if t.price < stats.minPrice then t.price else stats.minPrice
      maxPrice := if stats.maxPrice < t.price then t.price else stats.maxPrice }

/-- The counts and the volume after one more trade. -/
def countTrade (t : TradeEvent) (stats : WindowStats) : WindowStats :=
  let stats := { stats with
    tradeCount := stats.tradeCount + 1
    totalVolume := stats.totalVolume + t.price * t.quantity }
  if t.buyerIsMaker then { stats with sellerInitiatedCount := stats.sellerInitiatedCount + 1 }
  else { stats with buyerInitiatedCount := stats.buyerInitiatedCount + 1 }

/-- `add_trade`. -/
def addTrade (windowMs : UInt64) (ws : Windows) (t : TradeEvent) : Windows :=
  let windowStartMs := t.windowStartMs windowMs
  let symbolWindows := ws.getD t.symbol ∅
  let stats := admitPrice t windowStartMs symbolWindows[windowStartMs]?
  ws.insert t.symbol (symbolWindows.insert windowStartMs (countTrade t stats))

/-- `extract_all_windows`: what it returns. -/
def allWindows (ws : Windows) : List WindowStats :=
  ws.toList.flatMap fun e => e.2.toList.map (·.2)

/-- One turn of the inner loop of `extract_completed_windows`. -/
def sweepWindow (currentWindowStartMs : UInt64) (acc : List WindowStats × SymbolWindows)
    (e : UInt64 × WindowStats) : List WindowStats × SymbolWindows :=
  if e.1 < currentWindowStartMs then (acc.1 ++ [e.2], acc.2.erase e.1) else acc

/-- One turn of the outer loop of `extract_completed_windows`. -/
def sweepSymbol (currentWindowStartMs : UInt64) (acc : List WindowStats × Windows)
    (e : Str × SymbolWindows) : List WindowStats × Windows :=
  let (result, symbolWindows) := e.2.toList.foldl (sweepWindow currentWindowStartMs) (acc.1, e.2)
  if symbolWindows.isEmpty then (result, acc.2.erase e.1)
  else (result, acc.2.insert e.1 symbolWindows)

/-- `extract_completed_windows`: what it returns and what it leaves. -/
def extractCompleted (currentWindowStartMs : UInt64) (ws : Windows) : List WindowStats × Windows :=
  ws.toList.foldl (sweepSymbol currentWindowStartMs) ([], ws)

/-! ### Looking up after adding -/

lemma find_eq_bind (ws : Windows) (s : Str) (w : UInt64) :
    ws.find s w = ws[s]?.bind fun sw => sw[w]? := by
  unfold find
  cases ws[s]? <;> rfl

@[simp] lemma find_empty (s : Str) (w : UInt64) : (∅ : Windows).find s w = none := by
  simp [find_eq_bind]

/-- What the map holds for a symbol after the assignment of its windows. -/
lemma find_insert (ws : Windows) (s s' : Str) (sw : SymbolWindows) (w : UInt64) :
    find (ws.insert s sw) s' w = if s = s' then sw[w]? else ws.find s' w := by
  rw [find_eq_bind, find_eq_bind, ExtTreeMap.getElem?_insert]
  by_cases h : s = s' <;> simp [h]

lemma find_erase (ws : Windows) (s s' : Str) (w : UInt64) :
    find (ws.erase s) s' w = if s = s' then none else ws.find s' w := by
  rw [find_eq_bind, find_eq_bind, ExtTreeMap.getElem?_erase]
  by_cases h : s = s' <;> simp [h]

lemma getD_getElem? (ws : Windows) (s : Str) (w : UInt64) :
    (ws.getD s ∅)[w]? = ws.find s w := by
  rw [find_eq_bind, ExtTreeMap.getD_eq_getD_getElem?]
  cases ws[s]? <;> simp

/-- Adding a trade changes its own bucket and no other. -/
lemma find_addTrade (windowMs : UInt64) (ws : Windows) (t : TradeEvent) (s : Str) (w : UInt64) :
    (ws.addTrade windowMs t).find s w =
      if t.bucket windowMs = (s, w) then some (countTrade t (admitPrice t w (ws.find s w)))
      else ws.find s w := by
  unfold addTrade TradeEvent.bucket
  rw [find_insert, ExtTreeMap.getElem?_insert, getD_getElem?, getD_getElem?]
  by_cases hs : t.symbol = s
  · subst hs
    by_cases hw : t.windowStartMs windowMs = w
    · subst hw
      simp
    · simp [hw]
  · simp [hs]

/-! ### Extraction -/

/-- The inner loop collects the windows before the watermark and erases them. -/
lemma foldl_sweepWindow (cur : UInt64) (es : List (UInt64 × WindowStats))
    (acc : List WindowStats × SymbolWindows) :
    (es.foldl (sweepWindow cur) acc).1 = acc.1 ++ (es.filter (·.1 < cur)).map (·.2) ∧
    ∀ w : UInt64, (es.foldl (sweepWindow cur) acc).2[w]? =
      if w < cur ∧ w ∈ es.map (·.1) then none else acc.2[w]? := by
  induction es generalizing acc with
  | nil => simp
  | cons e es ih =>
      obtain ⟨h1, h2⟩ := ih (sweepWindow cur acc e)
      rw [List.foldl_cons]
      by_cases he : e.1 < cur
      · rw [h1]
        refine ⟨by simp [sweepWindow, he], fun w => ?_⟩
        rw [h2 w]
        simp only [sweepWindow, he, if_true, ExtTreeMap.getElem?_erase, List.map_cons,
          List.mem_cons, LawfulEqOrd.compare_eq_iff_eq]
        by_cases hw : e.1 = w
        · subst hw
          simp [he]
        · simp only [hw, if_false, Ne.symm hw, false_or]
      · rw [h1]
        refine ⟨by simp [sweepWindow, he], fun w => ?_⟩
        rw [h2 w]
        have hne : w < cur → w ≠ e.1 := fun hw h => he (h ▸ hw)
        by_cases hw : w < cur
        · simp only [sweepWindow, he, if_false, List.map_cons, List.mem_cons, hne hw, false_or]
        · simp only [sweepWindow, he, if_false, hw, false_and]

/-- The windows of a symbol that an extraction at `cur` leaves. -/
lemma sweepSymbol_getElem? (cur : UInt64) (sw : SymbolWindows) (res : List WindowStats)
    (w : UInt64) : (sw.toList.foldl (sweepWindow cur) (res, sw)).2[w]? =
      if w < cur then none else sw[w]? := by
  rw [(foldl_sweepWindow cur sw.toList (res, sw)).2 w]
  by_cases hw : w < cur
  · by_cases hm : w ∈ sw.toList.map (·.1)
    · simp only [hw, hm, and_self, if_true]
    · have hn : sw[w]? = none := by
        rcases h : sw[w]? with _ | x
        · rfl
        · have hmem := ExtTreeMap.mem_toList_iff_getElem?_eq_some.mpr h
          exact absurd (List.mem_map_of_mem hmem) hm
      simp [hw, hn]
  · simp [hw]

/-- One turn of the outer loop touches the windows of its symbol only. -/
lemma find_sweepSymbol (cur : UInt64) (acc : List WindowStats × Windows) (e : Str × SymbolWindows)
    (he : acc.2[e.1]? = some e.2) (s : Str) (w : UInt64) :
    (sweepSymbol cur acc e).2.find s w =
      if w < cur ∧ e.1 = s then none else acc.2.find s w := by
  have hk := sweepSymbol_getElem? cur e.2 acc.1 w
  have hs : e.1 = s → acc.2.find s w = e.2[w]? := by
    rintro rfl
    rw [find_eq_bind, he]
    rfl
  unfold sweepSymbol
  by_cases hempty : (e.2.toList.foldl (sweepWindow cur) (acc.1, e.2)).2.isEmpty
  · -- nothing is left of the symbol, so all its windows lie before the watermark
    rw [ExtTreeMap.isEmpty_iff] at hempty
    rw [hempty, ExtTreeMap.getElem?_empty] at hk
    simp only [hempty, ExtTreeMap.isEmpty_empty, if_true, find_erase]
    by_cases h : e.1 = s
    · by_cases hw : w < cur
      · simp [h, hw]
      · simp only [hw, if_false] at hk
        simp [h, hs h, ← hk]
    · simp [h]
  · simp only [hempty, Bool.false_eq_true, if_false, find_insert, hk]
    by_cases h : e.1 = s
    · by_cases hw : w < cur <;> simp [h, hw, hs h]
    · simp [h]

/-- The outer loop collects the windows before the watermark, symbol by symbol. -/
lemma foldl_sweepSymbol (cur : UInt64) (es : List (Str × SymbolWindows))
    (acc : List WindowStats × Windows) (hk : (es.map (·.1)).Nodup)
    (he : ∀ e ∈ es, acc.2[e.1]? = some e.2) :
    (es.foldl (sweepSymbol cur) acc).1 =
      acc.1 ++ es.flatMap (fun e => (e.2.toList.filter (·.1 < cur)).map (·.2)) ∧
    ∀ s w, (es.foldl (sweepSymbol cur) acc).2.find s w =
      if w < cur ∧ s ∈ es.map (·.1) then none else acc.2.find s w := by
  induction es generalizing acc with
  | nil => simp
  | cons e es ih =>
      rw [List.map_cons, List.nodup_cons] at hk
      -- the entries still to come are untouched
      have hrest : ∀ f ∈ es, (sweepSymbol cur acc e).2[f.1]? = some f.2 := by
        intro f hf
        have hne : e.1 ≠ f.1 := fun h => hk.1 (h ▸ List.mem_map_of_mem hf)
        rw [← he f (List.mem_cons_of_mem _ hf)]
        unfold sweepSymbol
        by_cases hempty : (e.2.toList.foldl (sweepWindow cur) (acc.1, e.2)).2.isEmpty <;>
          simp [hempty, ExtTreeMap.getElem?_erase, ExtTreeMap.getElem?_insert, hne]
      have hres : (sweepSymbol cur acc e).1 =
          acc.1 ++ (e.2.toList.filter (·.1 < cur)).map (·.2) := by
        rw [← (foldl_sweepWindow cur e.2.toList (acc.1, e.2)).1]
        unfold sweepSymbol
        by_cases hempty : (e.2.toList.foldl (sweepWindow cur) (acc.1, e.2)).2.isEmpty <;>
          simp [hempty]
      obtain ⟨h1, h2⟩ := ih (sweepSymbol cur acc e) hk.2 hrest
      rw [List.foldl_cons]
      refine ⟨by rw [h1, hres, List.flatMap_cons, List.append_assoc], fun s w => ?_⟩
      rw [h2, find_sweepSymbol cur acc e (he e List.mem_cons_self)]
      simp only [List.map_cons, List.mem_cons]
      by_cases hw : w < cur
      · by_cases hs : e.1 = s
        · simp only [hw, hs, and_self, if_true, ite_self, true_or]
        · simp only [hw, hs, Ne.symm hs, and_false, if_false, false_or]
      · simp only [hw, false_and, if_false]

end Windows

end BinanceAggregator
