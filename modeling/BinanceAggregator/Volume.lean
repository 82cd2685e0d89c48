import Mathlib.Algebra.Order.BigOperators.Group.List
import Mathlib.Data.Int.Basic
import Mathlib.Data.Rat.Cast.Order
import Mathlib.Tactic.Linarith
import Mathlib.Tactic.NormNum
import BinanceAggregator.AggregatorTable

/-!
When the volume of a window is exact.

The volume is a sum of truncated products, taken modulo `2 ^ 64`. For prices and quantities
that are not negative nothing is lost on the way exactly as long as the sum itself fits. What the
truncation of the products takes off the notional value is less than one raw unit per trade.
-/

namespace BinanceAggregator.Volume

open MarketDataAggregator Decimal

/-- The notional value of a trade in raw units, rounded down, without any bound. -/
def notional (t : TradeEvent) : ℤ := t.price.raw.toInt * t.quantity.raw.toInt / kScaleFactor

/-- The volume of a list of trades as the code adds it up. -/
def volume (ts : List TradeEvent) : Decimal := (ts.map fun t => t.price * t.quantity).sum

/-- The aggregator that has been given the trades `ts` and nothing else. -/
def given (windowMs : UInt64) (ts : List TradeEvent) : MarketDataAggregator :=
  ts.foldl addTrade (.ofWindowMs windowMs)

/-- The bucket is held, if there is a trade at all, with the exact sum as its volume. The narrowing
of each product keeps its value, and so does each addition to the volume so far. -/
def Exact (windowMs : UInt64) (b : Bucket) (ts : List TradeEvent) : Prop :=
  (ts ≠ [] → ∃ x, (given windowMs ts).windowStats b.1 b.2 = some x ∧
    x.totalVolume.raw.toInt = (ts.map notional).sum) ∧
  (∀ t ∈ ts, (t.price * t.quantity).raw.toInt = notional t) ∧
  ∀ pre t post, ts = pre ++ t :: post → (volume pre + t.price * t.quantity).raw.toInt =
    (volume pre).raw.toInt + (t.price * t.quantity).raw.toInt

/-! ### Sums modulo `2 ^ 64` -/

lemma sum_raw (l : List Decimal) :
    l.sum.raw.toInt = (l.map fun d : Decimal => d.raw.toInt).sum.bmod (2 ^ 64) := by
  induction l with
  | nil => rfl
  | cons d l ih =>
      rw [List.sum_cons, List.map_cons, List.sum_cons, add_raw, Int64.toInt_add, ih,
        Int.add_bmod_bmod]

/-- A product of two values that are not negative is narrowed from its notional value. -/
lemma mul_toInt {t : TradeEvent} (hp : 0 ≤ t.price.raw.toInt) (hq : 0 ≤ t.quantity.raw.toInt) :
    (t.price * t.quantity).raw.toInt = (notional t).bmod (2 ^ 64) := by
  rw [mul_raw, Int64.toInt_ofInt, Int.tdiv_eq_ediv_of_nonneg (mul_nonneg hp hq)]
  rfl

lemma notional_nonneg {t : TradeEvent} (hp : 0 ≤ t.price.raw.toInt)
    (hq : 0 ≤ t.quantity.raw.toInt) : 0 ≤ notional t :=
  Int.ediv_nonneg (mul_nonneg hp hq) (by decide)

/-- Prices and quantities are not negative. -/
def Nonneg (ts : List TradeEvent) : Prop :=
  ∀ t ∈ ts, 0 ≤ t.price.raw.toInt ∧ 0 ≤ t.quantity.raw.toInt

variable {ts : List TradeEvent}

lemma volume_toInt (h : Nonneg ts) :
    (volume ts).raw.toInt = (ts.map notional).sum.bmod (2 ^ 64) := by
  rw [volume, sum_raw]
  induction ts with
  | nil => rfl
  | cons t ts ih =>
      have ht := h t List.mem_cons_self
      have ih := ih fun u hu => h u (List.mem_cons_of_mem _ hu)
      simp only [List.map_cons, List.sum_cons] at ih ⊢
      rw [mul_toInt ht.1 ht.2, Int.bmod_add_bmod, Int.add_bmod, ih, ← Int.add_bmod]

lemma sum_nonneg (h : Nonneg ts) : 0 ≤ (ts.map notional).sum := by
  refine List.sum_nonneg fun x hx => ?_
  obtain ⟨t, ht, rfl⟩ := List.mem_map.mp hx
  exact notional_nonneg (h t ht).1 (h t ht).2

lemma bmod_of_fits {n : ℤ} (h0 : 0 ≤ n) (h : n ≤ 2 ^ 63 - 1) : n.bmod (2 ^ 64) = n :=
  Int.bmod_eq_of_le (by omega) (by omega)

/-- If the whole sum fits, so does the sum of any part of the list. -/
lemma volume_of_fits (h : Nonneg ts) (hfit : (ts.map notional).sum ≤ 2 ^ 63 - 1) :
    (volume ts).raw.toInt = (ts.map notional).sum := by
  rw [volume_toInt h, bmod_of_fits (sum_nonneg h) hfit]

lemma given_windowStats {windowMs : UInt64} {b : Bucket} (hb : ∀ t ∈ ts, t.bucket windowMs = b) :
    (given windowMs ts).windowStats b.1 b.2 = statsOf b.1 b.2 ts := by
  have hfilter : ts.filter (fun t => t.bucket windowMs = b) = ts :=
    List.filter_eq_self.mpr fun t ht => by simpa using hb t ht
  obtain ⟨-, htable⟩ := foldl_addTrade (ofWindowMs windowMs) ts
  have hstats := statsOf_filter windowMs ts b
  rw [hfilter] at hstats
  rw [hstats, windowStats_eq, given, htable, table_ofWindowMs, zero_add]
  rfl

/-- The bucket of a list of trades that is not empty is held with their volume. -/
lemma exists_given_volume {windowMs : UInt64} {b : Bucket} (hb : ∀ t ∈ ts, t.bucket windowMs = b)
    (hne : ts ≠ []) :
    ∃ x, (given windowMs ts).windowStats b.1 b.2 = some x ∧ x.totalVolume = volume ts := by
  rw [given_windowStats hb]
  cases ts with
  | nil => exact absurd rfl hne
  | cons t ts => exact ⟨_, rfl, rfl⟩

/-- Every part of a list whose sum fits has a sum that fits. -/
lemma fits_of_append {pre mid post : List TradeEvent} (hn : Nonneg (pre ++ mid ++ post))
    (hfit : ((pre ++ mid ++ post).map notional).sum ≤ 2 ^ 63 - 1) :
    Nonneg mid ∧ (mid.map notional).sum ≤ 2 ^ 63 - 1 := by
  have hsub : ∀ l : List TradeEvent, l ⊆ pre ++ mid ++ post → Nonneg l :=
    fun l hl t ht => hn t (hl ht)
  have hpre := sum_nonneg (hsub pre (by simp))
  have hpost := sum_nonneg (hsub post (by simp))
  have hmid : mid ⊆ pre ++ mid ++ post := by
    intro t ht
    simp [ht]
  refine ⟨hsub mid hmid, ?_⟩
  simp only [List.map_append, List.sum_append] at hfit
  omega

/-- If the sum fits, nothing is lost on the way. -/
lemma exact_of_fits {windowMs : UInt64} {b : Bucket} (hb : ∀ t ∈ ts, t.bucket windowMs = b)
    (hn : Nonneg ts) (hfit : (ts.map notional).sum ≤ 2 ^ 63 - 1) : Exact windowMs b ts := by
  have hpart : ∀ pre mid post, ts = pre ++ mid ++ post →
      Nonneg mid ∧ (mid.map notional).sum ≤ 2 ^ 63 - 1 := by
    rintro pre mid post rfl
    exact fits_of_append hn hfit
  have hmul : ∀ t ∈ ts, (t.price * t.quantity).raw.toInt = notional t := by
    intro t ht
    obtain ⟨pre, post, rfl⟩ := List.append_of_mem ht
    obtain ⟨h1, h2⟩ := hpart pre [t] post (by simp)
    simpa [volume] using volume_of_fits h1 h2
  refine ⟨fun hne => ?_, hmul, fun pre t post he => ?_⟩
  · obtain ⟨x, hx, hvolume⟩ := exists_given_volume hb hne
    exact ⟨x, hx, by rw [hvolume, volume_of_fits hn hfit]⟩
  · obtain ⟨h1, h2⟩ := hpart [] pre (t :: post) (by simpa using he)
    obtain ⟨h3, h4⟩ := hpart [] (pre ++ [t]) post (by simpa using he)
    have hsum : volume pre + t.price * t.quantity = volume (pre ++ [t]) := by simp [volume]
    rw [hsum, volume_of_fits h3 h4, volume_of_fits h1 h2, hmul t (by simp [he])]
    simp

/-- **The volume of a window is exact if and only if the sum fits** in a signed 64-bit value. -/
theorem exact_iff (windowMs : UInt64) (b : Bucket) (ts : List TradeEvent)
    (hb : ∀ t ∈ ts, t.bucket windowMs = b) (hn : Nonneg ts) :
    Exact windowMs b ts ↔ (ts.map notional).sum ≤ 2 ^ 63 - 1 := by
  constructor
  · rintro ⟨hheld, -, -⟩
    rcases eq_or_ne ts [] with rfl | hne
    · decide
    · obtain ⟨x, -, hx⟩ := hheld hne
      have := x.totalVolume.raw.toInt_lt
      omega
  · exact exact_of_fits hb hn

/-- A million units at a price of a hundred thousand. -/
def largeTrade : TradeEvent :=
  { symbol := ascii "BTCUSDT", tradeId := 1, price := ⟨10000000000000⟩,
    quantity := ⟨100000000000000⟩, tradeTimeMs := 1200 }

/-- Two trades, of one unit and of two, fit at that price, and the volume of both is exact. -/
theorem exact_two_trades :
    Exact 1000 (ascii "BTCUSDT", 1000)
      [{ largeTrade with quantity := ⟨100000000⟩ }, { largeTrade with quantity := ⟨200000000⟩ }] :=
  (exact_iff 1000 _ _ (by decide) (by unfold Nonneg; decide)).mpr (by decide)

/-- The volume of a single large trade that both decimals can hold is wrong, and negative. -/
theorem largeTrade_not_exact :
    Decimal.parse (ascii "100000") = .ok largeTrade.price ∧
    Decimal.parse (ascii "1000000") = .ok largeTrade.quantity ∧
    Nonneg [largeTrade] ∧ largeTrade.bucket 1000 = (ascii "BTCUSDT", 1000) ∧
    (((given 1000 [largeTrade]).windowStats (ascii "BTCUSDT") 1000).map
      fun x => x.totalVolume.raw) = some (-8446744073709551616) ∧
    notional largeTrade = 10000000000000000000 ∧
    ¬ Exact 1000 (ascii "BTCUSDT", 1000) [largeTrade] := by
  refine ⟨by decide, by decide, by unfold Nonneg; decide, by decide, by decide, by decide, ?_⟩
  rintro ⟨-, h, -⟩
  exact absurd (h largeTrade List.mem_cons_self) (by decide)

/-! ### What the truncation loses -/

/-- The notional value of a list of trades in raw units, not rounded. -/
def exactVolume (ts : List TradeEvent) : ℚ :=
  (ts.map fun t => (t.price.raw.toInt * t.quantity.raw.toInt : ℚ) / kScaleFactor).sum

/-- A trade loses less than one raw unit. -/
lemma notional_bounds (t : TradeEvent) :
    (notional t : ℚ) ≤ (t.price.raw.toInt * t.quantity.raw.toInt : ℚ) / kScaleFactor ∧
    (t.price.raw.toInt * t.quantity.raw.toInt : ℚ) / kScaleFactor < notional t + 1 := by
  have hscale : (0 : ℚ) < (kScaleFactor : ℚ) := by
    rw [kScaleFactor]
    norm_num
  have hfloor := Int.ediv_mul_le (t.price.raw.toInt * t.quantity.raw.toInt)
    (show kScaleFactor ≠ 0 by decide)
  have hnext := Int.lt_ediv_add_one_mul_self (t.price.raw.toInt * t.quantity.raw.toInt)
    (show 0 < kScaleFactor by decide)
  rw [le_div_iff₀ hscale, div_lt_iff₀ hscale]
  unfold notional
  exact ⟨by exact_mod_cast hfloor, by exact_mod_cast hnext⟩

/-- A list loses less than one raw unit for each trade. -/
lemma sum_bounds (ts : List TradeEvent) :
    ((ts.map notional).sum : ℚ) ≤ exactVolume ts ∧
    (ts ≠ [] → exactVolume ts < (ts.map notional).sum + ts.length) := by
  induction ts with
  | nil => exact ⟨by simp [exactVolume], fun h => absurd rfl h⟩
  | cons t ts ih =>
      obtain ⟨hlow, hhigh⟩ := notional_bounds t
      have hcons : exactVolume (t :: ts) =
          (t.price.raw.toInt * t.quantity.raw.toInt : ℚ) / kScaleFactor + exactVolume ts := by
        simp [exactVolume]
      rw [hcons, List.map_cons, List.sum_cons, List.length_cons, Int.cast_add, Nat.cast_add,
        Nat.cast_one]
      refine ⟨by linarith [ih.1], fun _ => ?_⟩
      by_cases hts : ts = []
      · subst hts
        simp only [exactVolume, List.map_nil, List.sum_nil, List.length_nil, Int.cast_zero,
          Nat.cast_zero]
        linarith
      · linarith [ih.2 hts]

/-- **The truncation error of a volume is bounded.** For trades of one window whose exact notional
value fits, the volume held is at most that value and less than one raw unit per trade below it.
No product leaves 128 bits, and neither the narrowing of a product nor an addition to the volume
so far changes a value. -/
theorem truncation_bounded (windowMs : UInt64) (b : Bucket) (ts : List TradeEvent) (hne : ts ≠ [])
    (hb : ∀ t ∈ ts, t.bucket windowMs = b) (hn : Nonneg ts)
    (hfit : exactVolume ts ≤ 2 ^ 63 - 1) :
    (∃ x, (given windowMs ts).windowStats b.1 b.2 = some x ∧
      (x.totalVolume.raw.toInt : ℚ) ≤ exactVolume ts ∧
      exactVolume ts - x.totalVolume.raw.toInt < ts.length) ∧
    (∀ t ∈ ts, -2 ^ 127 ≤ t.price.raw.toInt * t.quantity.raw.toInt ∧
      t.price.raw.toInt * t.quantity.raw.toInt < 2 ^ 127) ∧
    Exact windowMs b ts := by
  obtain ⟨hlow, hhigh⟩ := sum_bounds ts
  have hfits : (ts.map notional).sum ≤ 2 ^ 63 - 1 := by
    exact_mod_cast hlow.trans hfit
  have hexact := exact_of_fits hb hn hfits
  obtain ⟨x, hx, hsum⟩ := hexact.1 hne
  refine ⟨⟨x, hx, ?_, ?_⟩, fun t _ => product_in_range _ _, hexact⟩
  · rw [hsum]
    exact hlow
  · rw [hsum]
    linarith [hhigh hne]

/-- Trades of `1.5`, `2.5` and `0.9` raw units. -/
def smallTrades : List TradeEvent :=
  [{ largeTrade with price := ⟨15000⟩, quantity := ⟨10000⟩ },
    { largeTrade with price := ⟨25000⟩, quantity := ⟨10000⟩ },
    { largeTrade with price := ⟨9000⟩, quantity := ⟨10000⟩ }]

/-- Of their `4.9` raw units `3` are held. -/
theorem truncation_bounded_smallTrades : ∃ x,
    (given 1000 smallTrades).windowStats (ascii "BTCUSDT") 1000 = some x ∧
    x.totalVolume.raw.toInt = 3 ∧ exactVolume smallTrades = 49 / 10 ∧
    exactVolume smallTrades - x.totalVolume.raw.toInt < 3 ∧
    Exact 1000 (ascii "BTCUSDT", 1000) smallTrades := by
  have hvalue : exactVolume smallTrades = 49 / 10 := by
    have hp : (15000 : Int64).toInt = 15000 ∧ (25000 : Int64).toInt = 25000 ∧
        (9000 : Int64).toInt = 9000 ∧ (10000 : Int64).toInt = 10000 := by decide
    simp only [exactVolume, smallTrades, List.map_cons, List.map_nil, List.sum_cons, List.sum_nil,
      hp.1, hp.2.1, hp.2.2.1, hp.2.2.2, kScaleFactor]
    norm_num
  obtain ⟨⟨x, hx, -, hlost⟩, -, hexact⟩ := truncation_bounded 1000 (ascii "BTCUSDT", 1000)
    smallTrades (by simp [smallTrades]) (by decide) (by unfold Nonneg; decide)
    (by rw [hvalue]; norm_num)
  obtain ⟨y, hy, hsum⟩ := hexact.1 (by simp [smallTrades])
  obtain rfl := Option.some.inj (hx.symm.trans hy)
  exact ⟨x, hx, hsum.trans (by decide), hvalue, by simpa [smallTrades] using hlost, hexact⟩

end BinanceAggregator.Volume
