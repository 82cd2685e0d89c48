import BinanceAggregator.AggregatorTable
import Mathlib.Data.List.Induction

/-!
What an aggregator holds and returns, as a function of everything that was done to it.
-/

namespace BinanceAggregator.AggregatorHistory

open Tally MarketDataAggregator

/-- The operations that change an aggregator. -/
inductive Op
  | addTrade (t : TradeEvent)
  | extract (c : Cut)

def apply (a : MarketDataAggregator) : Op → MarketDataAggregator
  | .addTrade t => a.addTrade t
  | .extract c => (a.extract c).2

/-- The aggregator after the operations `ops`, from the empty one. -/
def after (windowMs : UInt64) (ops : List Op) : MarketDataAggregator :=
  ops.foldl apply (.ofWindowMs windowMs)

/-- The trades of the bucket `b` that were added since the last extraction that took it. -/
def live (windowMs : UInt64) (b : Bucket) (ops : List Op) : List TradeEvent :=
  ops.foldl (fun ts op => match op with
    | .addTrade t => if t.bucket windowMs = b then ts ++ [t] else ts
    | .extract c => if c.Takes b.2 then [] else ts) []

/-- The places among the operations at which these trades were added. Equal trades have different
places. -/
def places (windowMs : UInt64) (b : Bucket) (ops : List Op) : List ℕ :=
  ops.zipIdx.foldl (fun ns op => match op.1 with
    | .addTrade t => if t.bucket windowMs = b then ns ++ [op.2] else ns
    | .extract c => if c.Takes b.2 then [] else ns) []

/-- The trade that an operation adds. -/
def Op.trade : Op → Option TradeEvent
  | .addTrade t => some t
  | .extract _ => none

/-- The trades that were added at the places `ns`. -/
def tradesAt (ops : List Op) (ns : List ℕ) : List TradeEvent :=
  ns.filterMap fun n => ops[n]?.bind Op.trade

variable (windowMs : UInt64)

lemma after_snoc (ops : List Op) (op : Op) :
    after windowMs (ops ++ [op]) = apply (after windowMs ops) op := by
  simp [after]

lemma live_snoc (b : Bucket) (ops : List Op) (op : Op) :
    live windowMs b (ops ++ [op]) = match op with
      | .addTrade t => if t.bucket windowMs = b then live windowMs b ops ++ [t]
          else live windowMs b ops
      | .extract c => if c.Takes b.2 then [] else live windowMs b ops := by
  simp only [live, List.foldl_append, List.foldl_cons, List.foldl_nil]

lemma after_windowMs (ops : List Op) : (after windowMs ops).windowMs = windowMs := by
  induction ops using List.reverseRecOn with
  | nil => rfl
  | append_singleton ops op ih =>
      rw [after_snoc]
      cases op with
      | addTrade t => exact ih
      | extract c => exact (extract_windowMs _ c).trans ih

lemma live_bucket (b : Bucket) (ops : List Op) : ∀ t ∈ live windowMs b ops, t.bucket windowMs = b := by
  induction ops using List.reverseRecOn with
  | nil => simp [live]
  | append_singleton ops op ih =>
      intro t ht
      rw [live_snoc] at ht
      cases op with
      | addTrade u =>
          simp only at ht
          split at ht
          · next hu =>
            rcases List.mem_append.mp ht with ht | ht
            · exact ih t ht
            · rw [List.mem_singleton.mp ht]
              exact hu
          · exact ih t ht
      | extract c =>
          simp only at ht
          split at ht
          · simp at ht
          · exact ih t ht

/-! ### Trades by their places -/

lemma places_snoc (b : Bucket) (ops : List Op) (op : Op) :
    places windowMs b (ops ++ [op]) = match op with
      | .addTrade t => if t.bucket windowMs = b then places windowMs b ops ++ [ops.length]
          else places windowMs b ops
      | .extract c => if c.Takes b.2 then [] else places windowMs b ops := by
  simp only [places, List.zipIdx_append, List.zipIdx_singleton, List.foldl_append, List.foldl_cons,
    List.foldl_nil, Nat.zero_add]

/-- Only the place of the last operation can be new. -/
lemma mem_places_snoc {b : Bucket} {ops : List Op} {op : Op} {n : ℕ}
    (h : n ∈ places windowMs b (ops ++ [op])) : n ∈ places windowMs b ops ∨ n = ops.length := by
  rw [places_snoc] at h
  cases op with
  | addTrade t =>
      simp only at h
      split_ifs at h
      · exact (List.mem_append.mp h).imp_right List.mem_singleton.mp
      · exact .inl h
  | extract c =>
      simp only at h
      split_ifs at h
      · cases h
      · exact .inl h

lemma lt_of_mem_places {b : Bucket} {ops : List Op} {n : ℕ} (h : n ∈ places windowMs b ops) :
    n < ops.length := by
  induction ops using List.reverseRecOn with
  | nil => cases h
  | append_singleton ops op ih =>
      rw [List.length_append, List.length_singleton]
      rcases mem_places_snoc windowMs h with h | rfl
      · exact Nat.lt_succ_of_lt (ih h)
      · exact Nat.lt_succ_self _

/-- What an extraction has taken is no longer there: what is there was added later. -/
lemma le_of_mem_places {b : Bucket} {u v : List Op} {c : Cut} (hc : c.Takes b.2) {n : ℕ}
    (h : n ∈ places windowMs b (u ++ .extract c :: v)) : u.length ≤ n := by
  induction v using List.reverseRecOn with
  | nil =>
      rw [places_snoc] at h
      simp [hc] at h
  | append_singleton v op ih =>
      rw [← List.cons_append, ← List.append_assoc] at h
      rcases mem_places_snoc windowMs h with h | rfl
      · exact ih h
      · rw [List.length_append]
        exact Nat.le_add_right _ _

lemma tradesAt_append_left {ops : List Op} {ns : List ℕ} (h : ∀ n ∈ ns, n < ops.length)
    (v : List Op) : tradesAt (ops ++ v) ns = tradesAt ops ns :=
  List.filterMap_congr fun n hn => by rw [List.getElem?_append_left (h n hn)]

lemma live_eq_tradesAt (b : Bucket) (ops : List Op) :
    live windowMs b ops = tradesAt ops (places windowMs b ops) := by
  induction ops using List.reverseRecOn with
  | nil => rfl
  | append_singleton ops op ih =>
      have hleft : tradesAt (ops ++ [op]) (places windowMs b ops) =
          tradesAt ops (places windowMs b ops) :=
        tradesAt_append_left (fun n hn => lt_of_mem_places windowMs hn) [op]
      rw [live_snoc, places_snoc]
      cases op with
      | addTrade t =>
          simp only
          split
          · have hlast : tradesAt (ops ++ [.addTrade t]) [ops.length] = [t] := by
              simp [tradesAt, Op.trade]
            rw [tradesAt, List.filterMap_append, ← tradesAt, ← tradesAt, hleft, hlast, ih]
          · rw [hleft, ih]
      | extract c =>
          simp only
          split
          · rfl
          · rw [hleft, ih]

/-! ### What an aggregator holds -/

/-- The table holds the tally of the live trades, bucket by bucket. -/
lemma table_after (ops : List Op) (b : Bucket) :
    (after windowMs ops).table b = tradeTally windowMs (live windowMs b ops) b := by
  induction ops using List.reverseRecOn with
  | nil => simp [after, live]
  | append_singleton ops op ih =>
      rw [after_snoc, live_snoc]
      cases op with
      | addTrade t =>
          rw [apply, table_addTrade, Pi.add_apply, after_windowMs, ih]
          by_cases hb : t.bucket windowMs = b
          · simp [hb]
          · have hz : tradeTally windowMs [t] b = 0 := by simp [tradeTally, tally_cons, hb]
            simp [hb, hz]
      | extract c =>
          rw [apply, table_extract]
          by_cases hc : c.Takes b.2
          · simp [hc]
          · simp only [hc, if_false]
            exact ih

lemma windowStats_after (ops : List Op) (s : Str) (w : UInt64) :
    (after windowMs ops).windowStats s w = statsOf s w (live windowMs (s, w) ops) := by
  have hfilter : (live windowMs (s, w) ops).filter (fun t => t.bucket windowMs = (s, w)) =
      live windowMs (s, w) ops :=
    List.filter_eq_self.mpr fun t ht => by simpa using live_bucket windowMs (s, w) ops t ht
  have hstats := statsOf_filter windowMs (live windowMs (s, w) ops) (s, w)
  rw [hfilter, ← table_after] at hstats
  rw [hstats]
  exact windowStats_eq _ (s, w)

lemma statsOf_eq_none_iff (s : Str) (w : UInt64) (ts : List TradeEvent) :
    statsOf s w ts = none ↔ ts = [] := by
  cases ts <;> simp [statsOf]

lemma statsOf_bucket {s : Str} {w : UInt64} {ts : List TradeEvent} {x : WindowStats}
    (h : statsOf s w ts = some x) : x.bucket = (s, w) := by
  cases ts with
  | nil => cases h
  | cons t ts => rw [← Option.some.inj h]; rfl

/-- What an extraction of the window starts `p` after `ops` has to return and to leave: the
buckets it takes, each once and with the statistics of its live trades, and the other buckets
as they were. -/
structure Extraction (p : UInt64 → Prop) [DecidablePred p] (ops : List Op)
    (r : List WindowStats × MarketDataAggregator) : Prop where
  mem : ∀ x, x ∈ r.1 ↔ ∃ s w, p w ∧ statsOf s w (live windowMs (s, w) ops) = some x
  once : (r.1.map WindowStats.bucket).Nodup
  rest : ∀ s w, r.2.windowStats s w = if p w then none else (after windowMs ops).windowStats s w

lemma extract_after (ops : List Op) (c : Cut) :
    Extraction windowMs c.Takes ops ((after windowMs ops).extract c) := by
  have he := (after windowMs ops).extract_spec c
  refine ⟨fun x => ?_, he.nodup, he.find⟩
  rw [he.mem]
  constructor
  · rintro ⟨hf, hc⟩
    exact ⟨_, _, hc, by rw [← windowStats_after]; exact hf⟩
  · rintro ⟨s, w, hc, hx⟩
    obtain ⟨rfl, rfl⟩ := Prod.mk.inj (statsOf_bucket hx)
    rw [← windowStats_after] at hx
    exact ⟨hx, hc⟩

/-- **The history of an aggregator determines what it holds and what it returns.** A bucket
holds the statistics of its trades since it was last taken, and nothing if there are none; and
both extractions return what they take, with these statistics. -/
theorem after_spec (ops : List Op) :
    (∀ s w, ((after windowMs ops).windowStats s w = none ↔ live windowMs (s, w) ops = []) ∧
      (after windowMs ops).windowStats s w = statsOf s w (live windowMs (s, w) ops)) ∧
    (∀ cur, Extraction windowMs (· < cur) ops
      ((after windowMs ops).extractCompletedWindows cur)) ∧
    Extraction windowMs (fun _ => True) ops (after windowMs ops).extractAllWindows := by
  refine ⟨fun s w => ⟨?_, windowStats_after windowMs ops s w⟩,
    fun cur => extract_after windowMs ops (.completed cur), extract_after windowMs ops .all⟩
  rw [windowStats_after, statsOf_eq_none_iff]

end BinanceAggregator.AggregatorHistory
