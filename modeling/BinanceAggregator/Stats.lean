import Mathlib.Data.List.MinMax
import BinanceAggregator.Tally
import BinanceAggregator.Decimal

/-!
Trades, the statistics of a window, and what the statistics are for: every window holds the
summary of a nonempty bag of trades, and summaries of two bags add up to the summary of both.
-/

namespace BinanceAggregator

open Tally

/-- `agg::model::TradeEvent`. -/
structure TradeEvent where
  symbol : Str := []
  tradeId : UInt64 := 0
  price : Decimal := {}
  quantity : Decimal := {}
  tradeTimeMs : UInt64 := 0
  /-- Whether the trade was seller-initiated. -/
  buyerIsMaker : Bool := false
  deriving DecidableEq, Repr

/-- `agg::aggregation::WindowStats`. -/
structure WindowStats where
  symbol : Str := []
  windowStartMs : UInt64 := 0
  tradeCount : UInt64 := 0
  totalVolume : Decimal := {}
  minPrice : Decimal := {}
  maxPrice : Decimal := {}
  buyerInitiatedCount : UInt64 := 0
  sellerInitiatedCount : UInt64 := 0
  deriving DecidableEq, Repr

/-- A bucket: a symbol and a window start. -/
abbrev Bucket := Str × UInt64

/-- The window a trade belongs to, by its own exchange time. -/
def TradeEvent.windowStartMs (windowMs : UInt64) (t : TradeEvent) : UInt64 :=
  t.tradeTimeMs - t.tradeTimeMs % windowMs

def TradeEvent.bucket (windowMs : UInt64) (t : TradeEvent) : Bucket :=
  (t.symbol, t.windowStartMs windowMs)

def WindowStats.bucket (x : WindowStats) : Bucket := (x.symbol, x.windowStartMs)

/-! ### The statistics of a list of trades -/

/-- What a window of `symbol` starting at `windowStartMs` says about the trades `ts`; nothing is
said about no trades. -/
def statsOf (symbol : Str) (windowStartMs : UInt64) : List TradeEvent → Option WindowStats
  | [] => none
  | t :: ts => some {
      symbol
      windowStartMs
      tradeCount := UInt64.ofNat (t :: ts).length
      totalVolume := ((t :: ts).map fun t => t.price * t.quantity).sum
      minPrice := (ts.map (·.price)).foldl min t.price
      maxPrice := (ts.map (·.price)).foldl max t.price
      buyerInitiatedCount := UInt64.ofNat ((t :: ts).countP fun t => !t.buyerIsMaker)
      sellerInitiatedCount := UInt64.ofNat ((t :: ts).countP fun t => t.buyerIsMaker) }

/-- Two partial windows of one bucket, put together. -/
def WindowStats.merge (x y : WindowStats) : WindowStats :=
  { x with
    tradeCount := x.tradeCount + y.tradeCount
    totalVolume := x.totalVolume + y.totalVolume
    minPrice := min x.minPrice y.minPrice
    maxPrice := max x.maxPrice y.maxPrice
    buyerInitiatedCount := x.buyerInitiatedCount + y.buyerInitiatedCount
    sellerInitiatedCount := x.sellerInitiatedCount + y.sellerInitiatedCount }

/-- All partial windows of one bucket, put together. -/
def mergeAll : List WindowStats → Option WindowStats
  | [] => none
  | x :: xs => some (xs.foldl WindowStats.merge x)

/-! ### Summaries -/

/-- The part of the statistics that adds up. -/
@[ext]
structure Summary where
  count : UInt64
  volume : Decimal
  low : Decimal
  high : Decimal
  buys : UInt64
  sells : UInt64
  deriving DecidableEq

namespace Summary

instance : Add Summary where
  add x y := ⟨x.count + y.count, x.volume + y.volume, min x.low y.low, max x.high y.high,
    x.buys + y.buys, x.sells + y.sells⟩

lemma add_def (x y : Summary) : x + y = ⟨x.count + y.count, x.volume + y.volume,
    min x.low y.low, max x.high y.high, x.buys + y.buys, x.sells + y.sells⟩ := rfl

instance : AddCommSemigroup Summary where
  add_assoc x y z := by
    ext1
    · exact UInt64.add_assoc x.count y.count z.count
    · exact add_assoc x.volume y.volume z.volume
    · exact min_assoc x.low y.low z.low
    · exact max_assoc x.high y.high z.high
    · exact UInt64.add_assoc x.buys y.buys z.buys
    · exact UInt64.add_assoc x.sells y.sells z.sells
  add_comm x y := by
    ext1
    · exact UInt64.add_comm x.count y.count
    · exact add_comm x.volume y.volume
    · exact min_comm x.low y.low
    · exact max_comm x.high y.high
    · exact UInt64.add_comm x.buys y.buys
    · exact UInt64.add_comm x.sells y.sells

end Summary

/-- The summary of a single trade. -/
def TradeEvent.summary (t : TradeEvent) : Summary :=
  ⟨1, t.price * t.quantity, t.price, t.price, if t.buyerIsMaker then 0 else 1,
    if t.buyerIsMaker then 1 else 0⟩

def WindowStats.summary (x : WindowStats) : Summary :=
  ⟨x.tradeCount, x.totalVolume, x.minPrice, x.maxPrice, x.buyerInitiatedCount,
    x.sellerInitiatedCount⟩

/-- The window of a bucket with a given summary. -/
def Summary.toWindow (b : Bucket) (x : Summary) : WindowStats :=
  ⟨b.1, b.2, x.count, x.volume, x.low, x.high, x.buys, x.sells⟩

@[simp] lemma WindowStats.toWindow_summary (x : WindowStats) :
    x.summary.toWindow x.bucket = x := rfl

@[simp] lemma Summary.summary_toWindow (b : Bucket) (x : Summary) :
    (x.toWindow b).summary = x := rfl

lemma WindowStats.ext_bucket {x y : WindowStats} (hb : x.bucket = y.bucket)
    (hs : x.summary = y.summary) : x = y := by
  rw [← x.toWindow_summary, hb, hs, y.toWindow_summary]

/-- A window, or nothing, from what a bucket tallies. -/
def toWindow? (b : Bucket) : WithZero Summary → Option WindowStats :=
  Option.map (Summary.toWindow b)

@[simp] lemma toWindow?_zero (b : Bucket) : toWindow? b 0 = none := rfl

@[simp] lemma toWindow?_coe (b : Bucket) (x : Summary) :
    toWindow? b (x : WithZero Summary) = some (x.toWindow b) := rfl

/-- What a list of trades tallies, bucket by bucket. -/
def tradeTally (windowMs : UInt64) : List TradeEvent → Bucket → WithZero Summary :=
  tally (TradeEvent.bucket windowMs) TradeEvent.summary

/-- What a list of windows tallies, bucket by bucket. -/
def windowTally : List WindowStats → Bucket → WithZero Summary :=
  tally WindowStats.bucket WindowStats.summary

@[simp] lemma tradeTally_nil (w : UInt64) : tradeTally w [] = 0 := rfl

@[simp] lemma windowTally_nil : windowTally [] = 0 := rfl

@[simp] lemma tradeTally_append (w : UInt64) (l m : List TradeEvent) :
    tradeTally w (l ++ m) = tradeTally w l + tradeTally w m := tally_append _ _ l m

@[simp] lemma windowTally_append (l m : List WindowStats) :
    windowTally (l ++ m) = windowTally l + windowTally m := tally_append _ _ l m

/-- Merging adds summaries and keeps the bucket of the first window. -/
lemma foldl_merge (x : WindowStats) (xs : List WindowStats) :
    ((xs.foldl WindowStats.merge x).summary : WithZero Summary) =
      x.summary + (xs.map fun y => (y.summary : WithZero Summary)).sum ∧
    (xs.foldl WindowStats.merge x).bucket = x.bucket := by
  induction xs generalizing x with
  | nil => simp
  | cons y ys ih =>
      obtain ⟨h1, h2⟩ := ih (x.merge y)
      refine ⟨?_, h2⟩
      rw [List.foldl_cons, h1, List.map_cons, List.sum_cons, ← add_assoc]
      rfl

/-- **Merging is tallying**: the windows of one bucket merge to what the bucket tallies. -/
theorem mergeAll_filter (l : List WindowStats) (b : Bucket) :
    mergeAll (l.filter fun x => x.bucket = b) = toWindow? b (windowTally l b) := by
  unfold windowTally tally
  rcases hl : l.filter (fun x => x.bucket = b) with _ | ⟨x, xs⟩
  · rw [hl]
    rfl
  · have hx : x.bucket = b := by
      have : x ∈ l.filter (fun x => x.bucket = b) := hl ▸ List.mem_cons_self
      simpa using (List.mem_filter.mp this).2
    obtain ⟨h1, h2⟩ := foldl_merge x xs
    rw [hl, List.map_cons, List.sum_cons, ← h1, toWindow?_coe, ← hx, ← h2]
    rfl

/-- The summary that the statistics of a nonempty list of trades consist of. -/
def summaryOf (t : TradeEvent) (ts : List TradeEvent) : Summary :=
  ⟨UInt64.ofNat (t :: ts).length, ((t :: ts).map fun t => t.price * t.quantity).sum,
    (ts.map (·.price)).foldl min t.price, (ts.map (·.price)).foldl max t.price,
    UInt64.ofNat ((t :: ts).countP fun t => !t.buyerIsMaker),
    UInt64.ofNat ((t :: ts).countP fun t => t.buyerIsMaker)⟩

lemma summaryOf_nil (t : TradeEvent) : summaryOf t [] = t.summary := by
  cases h : t.buyerIsMaker <;> simp [summaryOf, TradeEvent.summary, h]

lemma summaryOf_cons (t u : TradeEvent) (us : List TradeEvent) :
    summaryOf t (u :: us) = t.summary + summaryOf u us := by
  have hlow : (us.map (·.price)).foldl min (min t.price u.price) =
      min t.price ((us.map (·.price)).foldl min u.price) := List.foldl_assoc
  have hhigh : (us.map (·.price)).foldl max (max t.price u.price) =
      max t.price ((us.map (·.price)).foldl max u.price) := List.foldl_assoc
  -- the counts of a list are those of its tail, and one more for the head
  cases h : t.buyerIsMaker <;>
    simp [summaryOf, TradeEvent.summary, Summary.add_def, h, hlow, hhigh, List.countP_cons,
      UInt64.ofNat_add, UInt64.add_comm]

lemma sum_summary (t : TradeEvent) (ts : List TradeEvent) :
    ((t :: ts).map fun t => (t.summary : WithZero Summary)).sum = summaryOf t ts := by
  induction ts generalizing t with
  | nil => simp [summaryOf_nil]
  | cons u us ih => rw [List.map_cons, List.sum_cons, ih u, summaryOf_cons, WithZero.coe_add]

/-- **Statistics are tallying**: the statistics of the trades of one bucket are what the bucket
tallies. -/
theorem statsOf_filter (w : UInt64) (ts : List TradeEvent) (b : Bucket) :
    statsOf b.1 b.2 (ts.filter fun t => t.bucket w = b) = toWindow? b (tradeTally w ts b) := by
  unfold tradeTally tally
  rcases hts : ts.filter (fun t => t.bucket w = b) with _ | ⟨u, us⟩
  · rw [hts]
    rfl
  · rw [hts, sum_summary]
    rfl

end BinanceAggregator
