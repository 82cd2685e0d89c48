import Mathlib.Data.List.Sort
import BinanceAggregator.AggregatorTable

/-!
Snapshots: the windows of one start, and the text written for them.

The writer groups the windows it has collected by their start, sorts each group by symbol and
writes one block of text for each group, in the order of the starts. The blocks hold the
windows collected, each once. Where no bucket occurs twice they depend only on which windows
were collected, not on the order in which the shards gave them.
-/

namespace BinanceAggregator

open Std (ExtTreeMap LawfulEqOrd TransOrd)
open Tally

/-- `agg::output::StatsSnapshot`. -/
structure StatsSnapshot where
  windowStartMs : UInt64 := 0
  windows : List WindowStats := []
  deriving DecidableEq, Repr

/-! ### The text of a snapshot -/

namespace StatsSerializer

/-- The line of one window. -/
def windowLine (x : WindowStats) : Str :=
  ascii "symbol=" ++ x.symbol
    ++ ascii " trades=" ++ natText x.tradeCount.toNat
    ++ ascii " volume=" ++ x.totalVolume.toText
    ++ ascii " min=" ++ x.minPrice.toText
    ++ ascii " max=" ++ x.maxPrice.toText
    ++ ascii " buy=" ++ natText x.buyerInitiatedCount.toNat
    ++ ascii " sell=" ++ natText x.sellerInitiatedCount.toNat
    ++ ascii "\n"

/-- The header of a block; `formatSeconds` is what `std::gmtime` and `std::strftime` make of a
whole number of seconds. -/
def timestampLine (formatSeconds : UInt64 → Str) (windowStartMs : UInt64) : Str :=
  ascii "timestamp=" ++ formatSeconds (windowStartMs / 1000) ++ ascii "\n"

def serialize (formatSeconds : UInt64 → Str) (snapshot : StatsSnapshot) : Str :=
  match snapshot.windows with
  | [] => []
  | windows =>
    timestampLine formatSeconds snapshot.windowStartMs ++ windows.flatMap windowLine ++ ascii "\n"

lemma serialize_eq_nil_iff (formatSeconds : UInt64 → Str) (snapshot : StatsSnapshot) :
    serialize formatSeconds snapshot = [] ↔ snapshot.windows = [] := by
  obtain ⟨start, _ | ⟨x, xs⟩⟩ := snapshot
  · simp [serialize]
  · simp [serialize, timestampLine, ascii]

end StatsSerializer

/-! ### Grouping and sorting -/

/-- `std::sort` by symbol: some rearrangement in which no window comes after one with a larger
symbol. Which one, where symbols are equal, is not said. -/
structure SymbolSort where
  sort : List WindowStats → List WindowStats
  perm : ∀ l, (sort l).Perm l
  sorted : ∀ l, (sort l).Pairwise fun x y => compare y.symbol x.symbol ≠ .lt

/-- Sorting by insertion is such a sorting. -/
def SymbolSort.insertion : SymbolSort where
  sort := List.insertionSort fun x y => (compare x.symbol y.symbol).isLE
  perm := List.perm_insertionSort _
  sorted l := by
    have htotal : Std.Total fun x y : WindowStats => (compare x.symbol y.symbol).isLE = true :=
      ⟨fun x y => by
        rw [Std.OrientedOrd.eq_swap (a := y.symbol)]
        cases compare x.symbol y.symbol <;> simp⟩
    have htrans : IsTrans WindowStats fun x y => (compare x.symbol y.symbol).isLE = true :=
      ⟨fun x y z => TransOrd.isLE_trans⟩
    refine (List.pairwise_insertionSort _ l).imp fun {x y} hxy => ?_
    rw [Std.OrientedOrd.eq_swap (a := y.symbol)]
    cases hc : compare x.symbol y.symbol <;> simp_all

/-- One turn of the grouping loop of `write_windows`. -/
def addWindow (snapshotsByWindow : ExtTreeMap UInt64 StatsSnapshot) (window : WindowStats) :
    ExtTreeMap UInt64 StatsSnapshot :=
  let snapshot := snapshotsByWindow.getD window.windowStartMs {}
  snapshotsByWindow.insert window.windowStartMs
    { windowStartMs := window.windowStartMs, windows := snapshot.windows ++ [window] }

def snapshotsByWindow (windows : List WindowStats) : ExtTreeMap UInt64 StatsSnapshot :=
  windows.foldl addWindow ∅

/-- The snapshots that `write_windows` serializes, in its order. -/
def snapshots (sort : SymbolSort) (windows : List WindowStats) : List StatsSnapshot :=
  if windows.isEmpty then []
  else (snapshotsByWindow windows).toList.map fun e => { e.2 with windows := sort.sort e.2.windows }

/-- The windows of one start, in the order in which they were collected. -/
def ofStart (k : UInt64) (l : List WindowStats) : List WindowStats :=
  l.filter fun x => x.windowStartMs = k

lemma snapshotsByWindow_getElem? (l : List WindowStats) (k : UInt64) :
    (snapshotsByWindow l)[k]? = if ofStart k l = [] then none else some ⟨k, ofStart k l⟩ := by
  induction l using List.reverseRecOn with
  | nil => simp [snapshotsByWindow, ofStart]
  | append_singleton l x ih =>
      rw [snapshotsByWindow, List.foldl_concat, ← snapshotsByWindow]
      unfold addWindow
      rw [ExtTreeMap.getElem?_insert]
      by_cases hk : x.windowStartMs = k
      · subst hk
        have hsplit : ofStart x.windowStartMs (l ++ [x]) = ofStart x.windowStartMs l ++ [x] := by
          simp [ofStart]
        rw [hsplit, ExtTreeMap.getD_eq_getD_getElem?, ih]
        by_cases hl : ofStart x.windowStartMs l = [] <;> simp [hl]
      · have hsplit : ofStart k (l ++ [x]) = ofStart k l := by simp [ofStart, hk]
        rw [hsplit, ih, if_neg (by simpa using hk)]

/-- The starts of the collected windows, in increasing order. -/
def starts (l : List WindowStats) : List UInt64 := (snapshotsByWindow l).toList.map (·.1)

lemma starts_ordered (l : List WindowStats) : (starts l).Pairwise fun a b => compare a b = .lt := by
  rw [starts, List.pairwise_map]
  exact ExtTreeMap.ordered_keys_toList

lemma mem_starts {l : List WindowStats} {k : UInt64} :
    k ∈ starts l ↔ ∃ x ∈ l, x.windowStartMs = k := by
  have hne : ofStart k l ≠ [] ↔ ∃ x ∈ l, x.windowStartMs = k := by
    simp [ofStart, List.filter_eq_nil_iff]
  rw [← hne, starts, List.mem_map]
  constructor
  · rintro ⟨⟨k, s⟩, hks, rfl⟩ hnil
    rw [ExtTreeMap.mem_toList_iff_getElem?_eq_some, snapshotsByWindow_getElem?, if_pos hnil] at hks
    cases hks
  · intro h
    refine ⟨(k, ⟨k, ofStart k l⟩), ?_, rfl⟩
    rw [ExtTreeMap.mem_toList_iff_getElem?_eq_some, snapshotsByWindow_getElem?, if_neg h]

lemma starts_nodup (l : List WindowStats) : (starts l).Nodup := by
  refine (starts_ordered l).imp ?_
  rintro a b hab rfl
  simp at hab

/-- **What is written**: one snapshot for each start, holding the windows of that start. -/
theorem snapshots_eq (sort : SymbolSort) (l : List WindowStats) :
    snapshots sort l = (starts l).map fun k => ⟨k, sort.sort (ofStart k l)⟩ := by
  have hmap : (snapshotsByWindow l).toList.map
      (fun e => ({ e.2 with windows := sort.sort e.2.windows } : StatsSnapshot)) =
      (starts l).map fun k => ⟨k, sort.sort (ofStart k l)⟩ := by
    rw [starts, List.map_map]
    refine List.map_congr_left fun e he => ?_
    obtain ⟨k, s⟩ := e
    rw [ExtTreeMap.mem_toList_iff_getElem?_eq_some, snapshotsByWindow_getElem?] at he
    split at he
    · cases he
    · cases he
      rfl
  rw [snapshots, ← hmap]
  cases l <;> simp [snapshotsByWindow]

variable (sort : SymbolSort)

lemma mem_of_mem_snapshots {l : List WindowStats} {s : StatsSnapshot} (hs : s ∈ snapshots sort l)
    {x : WindowStats} (hx : x ∈ s.windows) : x ∈ l ∧ x.windowStartMs = s.windowStartMs := by
  rw [snapshots_eq, List.mem_map] at hs
  obtain ⟨k, -, rfl⟩ := hs
  simpa [ofStart] using (sort.perm _).mem_iff.mp hx

/-- No snapshot is empty, so none is left out of the output. -/
lemma snapshot_ne_nil {l : List WindowStats} {s : StatsSnapshot} (hs : s ∈ snapshots sort l) :
    s.windows ≠ [] := by
  rw [snapshots_eq, List.mem_map] at hs
  obtain ⟨k, hk, rfl⟩ := hs
  obtain ⟨x, hx, rfl⟩ := mem_starts.mp hk
  have hmem : x ∈ sort.sort (ofStart x.windowStartMs l) :=
    (sort.perm _).mem_iff.mpr (by simpa [ofStart] using hx)
  exact List.ne_nil_of_mem hmem

lemma snapshots_ordered (l : List WindowStats) :
    (snapshots sort l).Pairwise fun a b => compare a.windowStartMs b.windowStartMs = .lt := by
  rw [snapshots_eq, List.pairwise_map]
  exact starts_ordered l

/-- The snapshots hold the windows collected, each once. -/
theorem snapshots_perm (l : List WindowStats) : ((snapshots sort l).flatMap (·.windows)).Perm l := by
  rw [snapshots_eq, List.flatMap_map]
  refine (List.Perm.flatMap_left _ fun k _ => sort.perm (ofStart k l)).trans ?_
  refine (flatMap_filter_perm WindowStats.windowStartMs (starts_nodup l) l).trans (.of_eq ?_)
  rw [List.filter_eq_self]
  intro x hx
  simpa using mem_starts.mpr ⟨x, hx, rfl⟩

/-! ### The order of collection does not matter -/

/-- Two strictly increasing lists with the same members are equal. -/
lemma ordered_ext {α β : Type*} [Ord β] [TransOrd β] (f : α → β) {l m : List α}
    (hl : l.Pairwise fun x y => compare (f x) (f y) = .lt)
    (hm : m.Pairwise fun x y => compare (f x) (f y) = .lt) (h : ∀ x, x ∈ l ↔ x ∈ m) : l = m := by
  have hnodup : ∀ {n : List α}, (n.Pairwise fun x y => compare (f x) (f y) = .lt) → n.Nodup := by
    intro n hn
    refine hn.imp ?_
    rintro x y hxy rfl
    simp at hxy
  have hperm : l.Perm m := (List.perm_ext_iff_of_nodup (hnodup hl) (hnodup hm)).mpr h
  refine hperm.eq_of_pairwise ?_ hl hm
  intro x y _ _ hxy hyx
  rw [Std.OrientedOrd.eq_swap (a := f y), hxy] at hyx
  cases hyx

/-- In a list in which no bucket occurs twice, the windows of one start are sorted strictly. -/
lemma sort_ofStart_lt {l : List WindowStats} (hl : (l.map (·.bucket)).Nodup) (k : UInt64) :
    (sort.sort (ofStart k l)).Pairwise fun x y => compare x.symbol y.symbol = .lt := by
  have hnodup : ((sort.sort (ofStart k l)).map (·.bucket)).Nodup := by
    refine ((sort.perm _).map _).nodup_iff.mpr ?_
    exact hl.sublist (List.filter_sublist.map _)
  have hstart : ∀ x ∈ sort.sort (ofStart k l), x.windowStartMs = k := by
    intro x hx
    have hmem : x ∈ ofStart k l := (sort.perm _).mem_iff.mp hx
    simpa using (List.mem_filter.mp hmem).2
  refine List.Pairwise.imp_of_mem ?_
    ((sort.sorted (ofStart k l)).and (List.pairwise_map.mp hnodup))
  rintro x y hx hy ⟨hle, hne⟩
  rw [Std.OrientedOrd.eq_swap (a := y.symbol)] at hle
  cases hc : compare x.symbol y.symbol with
  | lt => rfl
  | gt => simp [hc] at hle
  | eq =>
      have hsymbol := LawfulEqOrd.eq_of_compare hc
      exact absurd (Prod.ext hsymbol ((hstart x hx).trans (hstart y hy).symm)) hne

/-- Two windows of one start in one order of the symbols are equal, where no bucket occurs
twice. -/
lemma sort_eq_of_perm (sort' : SymbolSort) {l m : List WindowStats} (h : l.Perm m)
    (hl : (l.map (·.bucket)).Nodup) (k : UInt64) :
    sort.sort (ofStart k l) = sort'.sort (ofStart k m) := by
  have hperm : (sort.sort (ofStart k l)).Perm (sort'.sort (ofStart k m)) :=
    ((sort.perm _).trans (h.filter _)).trans (sort'.perm _).symm
  exact ordered_ext (·.symbol) (sort_ofStart_lt sort hl k)
    (sort_ofStart_lt sort' ((h.map _).nodup_iff.mp hl) k) fun _ => hperm.mem_iff

/-- **Order of collection**: the same windows, collected in any order and no bucket twice, are
written alike, however a sorting treats equal symbols. -/
theorem snapshots_eq_of_perm (sort' : SymbolSort) {l m : List WindowStats} (h : l.Perm m)
    (hl : (l.map (·.bucket)).Nodup) : snapshots sort l = snapshots sort' m := by
  have hstarts : starts l = starts m := by
    refine ordered_ext id (starts_ordered l) (starts_ordered m) fun k => ?_
    simp only [mem_starts, h.mem_iff]
  rw [snapshots_eq, snapshots_eq, hstarts]
  exact List.map_congr_left fun k _ => by rw [sort_eq_of_perm sort sort' h hl k]

end BinanceAggregator
