import BinanceAggregator.Aggregator

/-!
The aggregator as a table from buckets to summaries.

An aggregator carries with it that every window stands under its own symbol and start, and
that starts are multiples of the window length. In terms of the table, adding a trade adds
its summary to its bucket, and an extraction splits the table in two.
-/

namespace BinanceAggregator

open Std (ExtTreeMap LawfulEqOrd)
open Tally

/-- Every window is held under its own symbol and start, and starts are multiples of the
window length. -/
def Windows.Keyed (windowMs : UInt64) (ws : Windows) : Prop :=
  ∀ s w x, ws.find s w = some x → x.bucket = (s, w) ∧ w % windowMs = 0

/-- `agg::aggregation::MarketDataAggregator`. -/
structure MarketDataAggregator where
  windowMs : UInt64
  windows : Windows
  keyed : windows.Keyed windowMs

lemma Windows.keyed_empty (windowMs : UInt64) : (∅ : Windows).Keyed windowMs :=
  fun s w x h => by simp at h

/-- The constructor. -/
def MarketDataAggregator.ofWindowMs (windowMs : UInt64) : MarketDataAggregator :=
  ⟨windowMs, ∅, Windows.keyed_empty windowMs⟩

/-- A trade's window starts at a multiple of the window length. -/
lemma windowStart_mod (windowMs : UInt64) (t : TradeEvent) :
    t.windowStartMs windowMs % windowMs = 0 := by
  have hm : t.tradeTimeMs % windowMs ≤ t.tradeTimeMs := by
    rw [UInt64.le_iff_toNat_le, UInt64.toNat_mod]
    exact Nat.mod_le _ _
  rw [TradeEvent.windowStartMs, ← UInt64.toNat_inj, UInt64.toNat_mod,
    UInt64.toNat_sub_of_le _ _ hm, UInt64.toNat_mod]
  exact Nat.sub_mod_eq_zero_of_mod_eq (Nat.mod_mod _ _).symm

namespace Windows

lemma bucket_countTrade (t : TradeEvent) (x : WindowStats) : (countTrade t x).bucket = x.bucket := by
  unfold countTrade
  split <;> rfl

lemma keyed_addTrade {windowMs : UInt64} {ws : Windows} (h : ws.Keyed windowMs) (t : TradeEvent) :
    (ws.addTrade windowMs t).Keyed windowMs := by
  intro s w x hx
  rw [find_addTrade] at hx
  split at hx
  · next hb =>
    obtain ⟨rfl, rfl⟩ := Prod.mk.inj hb
    refine ⟨?_, windowStart_mod windowMs t⟩
    rw [← Option.some.inj hx, bucket_countTrade]
    rcases hf : ws.find t.symbol (t.windowStartMs windowMs) with _ | y
    · rfl
    · exact (h _ _ _ hf).1
  · exact h s w x hx

/-! ### What an extraction takes and what it leaves -/

/-- The list `l` holds each window of `ws` that starts where `p` says, once, and `rest` holds
the others. -/
structure Extracts (p : UInt64 → Prop) [DecidablePred p] (ws : Windows) (l : List WindowStats)
    (rest : Windows) : Prop where
  mem : ∀ x, x ∈ l ↔ ws.find x.symbol x.windowStartMs = some x ∧ p x.windowStartMs
  nodup : (l.map WindowStats.bucket).Nodup
  find : ∀ s w, rest.find s w = if p w then none else ws.find s w

/-- No key is visited twice. -/
lemma nodup_keys_toList {K V : Type} [Ord K] [Std.TransOrd K] [LawfulEqOrd K]
    (m : ExtTreeMap K V) : (m.toList.map (·.1)).Nodup := by
  rw [List.Nodup, List.pairwise_map]
  exact ExtTreeMap.distinct_keys_toList.imp (fun h he => h (LawfulEqOrd.compare_eq_iff_eq.mpr he))

variable {windowMs : UInt64} {ws : Windows}

/-- The windows starting where `p` says, in the order the loops visit them. -/
def listed (p : UInt64 → Prop) [DecidablePred p] (ws : Windows) : List WindowStats :=
  ws.toList.flatMap fun e => (e.2.toList.filter (p ·.1)).map (·.2)

lemma mem_listed (h : ws.Keyed windowMs) (p : UInt64 → Prop) [DecidablePred p] (x : WindowStats) :
    x ∈ ws.listed p ↔ ws.find x.symbol x.windowStartMs = some x ∧ p x.windowStartMs := by
  simp only [listed, List.mem_flatMap, List.mem_map, List.mem_filter, decide_eq_true_eq]
  constructor
  · rintro ⟨⟨s, sw⟩, hs, ⟨w, y⟩, ⟨hw, hp⟩, rfl⟩
    rw [ExtTreeMap.mem_toList_iff_getElem?_eq_some] at hs hw
    have hf : ws.find s w = some y := by simp [find_eq_bind, hs, hw]
    obtain ⟨rfl, rfl⟩ := Prod.mk.inj (h s w y hf).1
    exact ⟨hf, hp⟩
  · rintro ⟨hf, hp⟩
    rw [find_eq_bind, Option.bind_eq_some_iff] at hf
    obtain ⟨sw, hs, hw⟩ := hf
    exact ⟨(x.symbol, sw), ExtTreeMap.mem_toList_iff_getElem?_eq_some.mpr hs,
      (x.windowStartMs, x), ⟨ExtTreeMap.mem_toList_iff_getElem?_eq_some.mpr hw, hp⟩, rfl⟩

lemma nodup_listed (h : ws.Keyed windowMs) (p : UInt64 → Prop) [DecidablePred p] :
    ((ws.listed p).map WindowStats.bucket).Nodup := by
  -- the buckets, read off the keys rather than off the windows
  have hkeys : (ws.listed p).map WindowStats.bucket =
      ws.toList.flatMap fun e => (e.2.toList.filter (p ·.1)).map fun f => (e.1, f.1) := by
    rw [listed, List.map_flatMap]
    refine List.flatMap_congr fun e he => ?_
    rw [List.map_map]
    refine List.map_congr_left fun f hf => ?_
    have hs := ExtTreeMap.mem_toList_iff_getElem?_eq_some.mp he
    have hw := ExtTreeMap.mem_toList_iff_getElem?_eq_some.mp (List.mem_filter.mp hf).1
    exact (h e.1 f.1 f.2 (by simp [find_eq_bind, hs, hw])).1
  rw [hkeys, List.nodup_flatMap]
  constructor
  · intro e _
    have hsub : ((e.2.toList.filter (p ·.1)).map (·.1)).Nodup :=
      (nodup_keys_toList e.2).sublist (List.filter_sublist.map _)
    have hpair := hsub.map (f := fun w => (e.1, w)) fun _ _ h => (Prod.mk.inj h).2
    rwa [List.map_map] at hpair
  · refine (List.pairwise_map.mp (nodup_keys_toList ws)).imp fun hne => ?_
    refine List.disjoint_left.mpr ?_
    intro b hb hb'
    obtain ⟨_, _, rfl⟩ := List.mem_map.mp hb
    obtain ⟨_, _, he⟩ := List.mem_map.mp hb'
    exact hne (Prod.mk.inj he).1.symm

/-- `extract_completed_windows` takes the windows that start strictly before the watermark. -/
lemma extracts_completed (h : ws.Keyed windowMs) (cur : UInt64) :
    Extracts (· < cur) ws (ws.extractCompleted cur).1 (ws.extractCompleted cur).2 := by
  obtain ⟨h1, h2⟩ := foldl_sweepSymbol cur ws.toList ([], ws) (nodup_keys_toList ws)
    fun e he => ExtTreeMap.mem_toList_iff_getElem?_eq_some.mp he
  have hl : (ws.extractCompleted cur).1 = ws.listed (· < cur) := by
    simpa [extractCompleted, listed] using h1
  refine ⟨fun x => by rw [hl]; exact mem_listed h _ x, by rw [hl]; exact nodup_listed h _,
    fun s w => ?_⟩
  rw [extractCompleted, h2]
  by_cases hw : w < cur
  · by_cases hm : s ∈ ws.toList.map (·.1)
    · simp only [hw, hm, and_self, if_true]
    · have hn : ws.find s w = none := by
        rw [find_eq_bind, Option.bind_eq_none_iff]
        intro sw hs
        exact absurd (List.mem_map_of_mem (ExtTreeMap.mem_toList_iff_getElem?_eq_some.mpr hs)) hm
      simp only [hn, ite_self]
  · simp only [hw, false_and, if_false]

/-- `extract_all_windows` takes every window. -/
lemma extracts_all (h : ws.Keyed windowMs) : Extracts (fun _ => True) ws ws.allWindows ∅ := by
  have hl : ws.allWindows = ws.listed fun _ => True := by simp [allWindows, listed]
  exact ⟨fun x => by rw [hl]; exact mem_listed h _ x, by rw [hl]; exact nodup_listed h _,
    fun s w => by simp⟩

lemma Extracts.keyed {p : UInt64 → Prop} [DecidablePred p] {l : List WindowStats} {rest : Windows}
    (he : Extracts p ws l rest) (h : ws.Keyed windowMs) : rest.Keyed windowMs := by
  intro s w x hx
  rw [he.find] at hx
  split at hx
  · cases hx
  · exact h s w x hx

/-! ### The table -/

/-- What the windows say of a bucket. -/
def table (ws : Windows) (b : Bucket) : WithZero Summary :=
  (ws.find b.1 b.2).elim 0 fun x => (x.summary : WithZero Summary)

@[simp] lemma table_empty : (∅ : Windows).table = 0 := by
  funext b
  simp [table]

lemma table_of_find {s : Str} {w : UInt64} {x : WindowStats} (h : ws.find s w = some x) :
    ws.table (s, w) = x.summary := by
  simp [table, h]

lemma table_eq_zero_iff {b : Bucket} : ws.table b = 0 ↔ ws.find b.1 b.2 = none := by
  unfold table
  rcases ws.find b.1 b.2 with _ | x <;> simp

/-- What a bucket holds is what its table entry says. -/
lemma find_eq_toWindow? (h : ws.Keyed windowMs) (b : Bucket) :
    ws.find b.1 b.2 = toWindow? b (ws.table b) := by
  rcases hf : ws.find b.1 b.2 with _ | x
  · rw [table_eq_zero_iff.mpr hf, toWindow?_zero]
  · have hb : x.bucket = b := (h _ _ _ hf).1
    rw [show ws.table b = x.summary from table_of_find hf, toWindow?_coe, ← hb,
      WindowStats.toWindow_summary]

lemma summary_first (t : TradeEvent) (w : UInt64) :
    (countTrade t (admitPrice t w none)).summary = t.summary := by
  have hv : ({} : Decimal) + t.price * t.quantity = t.price * t.quantity := zero_add _
  cases h : t.buyerIsMaker <;>
    simp [countTrade, admitPrice, WindowStats.summary, TradeEvent.summary, h, hv]

lemma summary_later (t : TradeEvent) (w : UInt64) (x : WindowStats) :
    (countTrade t (admitPrice t w (some x))).summary = x.summary + t.summary := by
  have hmin : (if t.price < x.minPrice then t.price else x.minPrice) = min x.minPrice t.price := by
    split
    · next h => exact (min_eq_right h.le).symm
    · next h => exact (min_eq_left (not_lt.mp h)).symm
  have hmax : (if x.maxPrice < t.price then t.price else x.maxPrice) = max x.maxPrice t.price := by
    split
    · next h => exact (max_eq_right h.le).symm
    · next h => exact (max_eq_left (not_lt.mp h)).symm
  cases h : t.buyerIsMaker <;>
    simp [countTrade, admitPrice, WindowStats.summary, TradeEvent.summary, Summary.add_def, h,
      hmin, hmax]

/-- **Adding a trade** adds its summary to its bucket. -/
theorem table_addTrade (windowMs : UInt64) (ws : Windows) (t : TradeEvent) :
    (ws.addTrade windowMs t).table = ws.table + tradeTally windowMs [t] := by
  funext b
  have htally : tradeTally windowMs [t] b =
      if t.bucket windowMs = b then (t.summary : WithZero Summary) else 0 := by
    simp [tradeTally, tally_cons]
  rw [Pi.add_apply, htally, table, table, find_addTrade]
  by_cases hb : t.bucket windowMs = b
  · rcases hf : ws.find b.1 b.2 with _ | x
    · simp [hb, summary_first]
    · simp [hb, summary_later]
  · simp [hb]

variable {p : UInt64 → Prop} [DecidablePred p] {l : List WindowStats} {rest : Windows}

lemma Extracts.tally (he : Extracts p ws l rest) (h : ws.Keyed windowMs) (b : Bucket) :
    windowTally l b = if p b.2 then ws.table b else 0 := by
  by_cases hex : p b.2 ∧ ∃ x, ws.find b.1 b.2 = some x
  · obtain ⟨hp, x, hx⟩ := hex
    have hb : x.bucket = b := (h _ _ _ hx).1
    obtain ⟨h1, h2⟩ := Prod.mk.inj hb
    have hmem : x ∈ l := (he.mem x).mpr (by rw [h1, h2]; exact ⟨hx, hp⟩)
    rw [if_pos hp, show ws.table b = x.summary from table_of_find hx, ← hb]
    exact tally_of_mem _ _ he.nodup hmem
  · have hz : windowTally l b = 0 := by
      rw [windowTally, tally_eq_zero_iff]
      rintro x hx rfl
      have hx := (he.mem x).mp hx
      exact hex ⟨hx.2, x, hx.1⟩
    rw [hz]
    split
    · next hp =>
      symm
      rw [table_eq_zero_iff]
      rcases hf : ws.find b.1 b.2 with _ | x
      · rfl
      · exact absurd ⟨hp, x, hf⟩ hex
    · rfl

lemma Extracts.table (he : Extracts p ws l rest) (b : Bucket) :
    rest.table b = if p b.2 then 0 else ws.table b := by
  unfold Windows.table
  rw [he.find]
  split <;> rfl

/-- **An extraction splits the table** between what it returns and what it leaves. -/
theorem Extracts.split (he : Extracts p ws l rest) (h : ws.Keyed windowMs) :
    windowTally l + rest.table = ws.table := by
  funext b
  rw [Pi.add_apply, he.tally h, he.table]
  split <;> simp

end Windows

/-! ### The operations of an aggregator -/

namespace MarketDataAggregator

open Windows

def windowStats (a : MarketDataAggregator) (symbol : Str) (windowStartMs : UInt64) :
    Option WindowStats :=
  a.windows.find symbol windowStartMs

def addTrade (a : MarketDataAggregator) (t : TradeEvent) : MarketDataAggregator :=
  ⟨a.windowMs, a.windows.addTrade a.windowMs t, keyed_addTrade a.keyed t⟩

def extractAllWindows (a : MarketDataAggregator) : List WindowStats × MarketDataAggregator :=
  (a.windows.allWindows, ⟨a.windowMs, ∅, (extracts_all a.keyed).keyed a.keyed⟩)

def extractCompletedWindows (a : MarketDataAggregator) (currentWindowStartMs : UInt64) :
    List WindowStats × MarketDataAggregator :=
  ((a.windows.extractCompleted currentWindowStartMs).1,
    ⟨a.windowMs, (a.windows.extractCompleted currentWindowStartMs).2,
      (extracts_completed a.keyed currentWindowStartMs).keyed a.keyed⟩)

/-- Which of the two extractions a caller makes: up to a watermark, or of everything. -/
inductive Cut
  | completed (currentWindowStartMs : UInt64)
  | all
  deriving DecidableEq

/-- The window starts that an extraction takes. -/
def Cut.Takes : Cut → UInt64 → Prop
  | .completed currentWindowStartMs, w => w < currentWindowStartMs
  | .all, _ => True

instance (c : Cut) : DecidablePred c.Takes := fun w =>
  match c with
  | .completed cur => inferInstanceAs (Decidable (w < cur))
  | .all => inferInstanceAs (Decidable True)

def extract (a : MarketDataAggregator) : Cut → List WindowStats × MarketDataAggregator
  | .completed currentWindowStartMs => a.extractCompletedWindows currentWindowStartMs
  | .all => a.extractAllWindows

def table (a : MarketDataAggregator) : Bucket → WithZero Summary := a.windows.table

@[simp] lemma table_ofWindowMs (windowMs : UInt64) : (ofWindowMs windowMs).table = 0 :=
  Windows.table_empty

lemma addTrade_windowMs (a : MarketDataAggregator) (t : TradeEvent) :
    (a.addTrade t).windowMs = a.windowMs := rfl

@[simp] lemma extract_windowMs (a : MarketDataAggregator) (c : Cut) :
    (a.extract c).2.windowMs = a.windowMs := by
  cases c <;> rfl

lemma table_addTrade (a : MarketDataAggregator) (t : TradeEvent) :
    (a.addTrade t).table = a.table + tradeTally a.windowMs [t] :=
  Windows.table_addTrade a.windowMs a.windows t

/-- Adding trades one after another adds their tally. -/
lemma foldl_addTrade (a : MarketDataAggregator) (ts : List TradeEvent) :
    (ts.foldl addTrade a).windowMs = a.windowMs ∧
      (ts.foldl addTrade a).table = a.table + tradeTally a.windowMs ts := by
  induction ts generalizing a with
  | nil => simp
  | cons t ts ih =>
      obtain ⟨h1, h2⟩ := ih (a.addTrade t)
      rw [List.foldl_cons]
      refine ⟨h1, ?_⟩
      rw [h2, table_addTrade, addTrade_windowMs, add_assoc, ← tradeTally_append,
        List.singleton_append]

lemma windowStats_eq (a : MarketDataAggregator) (b : Bucket) :
    a.windowStats b.1 b.2 = toWindow? b (a.table b) :=
  find_eq_toWindow? a.keyed b

/-- **Both extractions** return the windows they take, each once, and leave the others. -/
theorem extract_spec (a : MarketDataAggregator) (c : Cut) :
    Extracts c.Takes a.windows (a.extract c).1 (a.extract c).2.windows := by
  cases c with
  | completed cur => exact extracts_completed a.keyed cur
  | all => exact extracts_all a.keyed

/-- What an extraction leaves, bucket by bucket. -/
lemma table_extract (a : MarketDataAggregator) (c : Cut) (b : Bucket) :
    (a.extract c).2.table b = if c.Takes b.2 then 0 else a.table b :=
  (a.extract_spec c).table b

/-- What an extraction returns, bucket by bucket. -/
lemma windowTally_extract (a : MarketDataAggregator) (c : Cut) (b : Bucket) :
    windowTally (a.extract c).1 b = if c.Takes b.2 then a.table b else 0 :=
  (a.extract_spec c).tally a.keyed b

lemma extract_split (a : MarketDataAggregator) (c : Cut) :
    windowTally (a.extract c).1 + (a.extract c).2.table = a.table :=
  (a.extract_spec c).split a.keyed

end MarketDataAggregator

end BinanceAggregator
