import BinanceAggregator.PipelineFlush

/-!
The headers of the blocks written in a run.

A flush collects the windows of a start from every shard before it writes their block. If no
trade comes after an extraction that has passed its window, no later flush finds a window of
that start, so no start is written twice. The header shows only the whole second of a start:
starts that lie a second or more apart have different headers, starts within a second do not.
-/

namespace BinanceAggregator.Pipeline

open Runs MarketDataAggregator StatsSerializer

variable {C : Config} {E : Env} {s s' : St C} {a : Act C} {tr : List (Act C)} {who : Flusher}
  {f f' : Flush C}

/-- The starts of the blocks written, in order. -/
def blockStarts (tr : List (Act C)) : List UInt64 := (written tr).map (·.windowStartMs)

lemma blockStarts_append (u v : List (Act C)) :
    blockStarts (u ++ v) = blockStarts u ++ blockStarts v := by
  simp [blockStarts, written_append]

lemma blockStarts_snoc (h : written [a] = []) : blockStarts (tr ++ [a]) = blockStarts tr := by
  rw [blockStarts, written_append, h, List.append_nil, blockStarts]

/-- The start of a window that every shard has been extracted past. -/
structure Passed (tr : List (Act C)) (k : UInt64) : Prop where
  mod : k % C.windowMs = 0
  shards : ∀ i, ∃ who c l, .extract who i c l ∈ tr ∧ c.Takes k

lemma Passed.append {k : UInt64} (h : Passed tr k) (v : List (Act C)) : Passed (tr ++ v) k := by
  refine ⟨h.mod, fun i => ?_⟩
  obtain ⟨who, c, l, hl, hc⟩ := h.shards i
  exact ⟨who, c, l, List.mem_append_left _ hl, hc⟩

/-- What a flush holds has not been written: neither what it has collected nor what it is going
to write. -/
def Clear (tr : List (Act C)) (cut : Cut) : FlushPc C → Prop
  | .collecting _ ws => ∀ x ∈ ws, cut.Takes x.windowStartMs ∧ x.windowStartMs % C.windowMs = 0 ∧
      x.windowStartMs ∉ blockStarts tr
  | .extracting _ _ ws => ∀ x ∈ ws, cut.Takes x.windowStartMs ∧
      x.windowStartMs % C.windowMs = 0 ∧ x.windowStartMs ∉ blockStarts tr
  | .writing todo => (todo.map (·.windowStartMs)).Nodup ∧
      ∀ y ∈ todo, (y.windows ≠ [] ∧ Passed tr y.windowStartMs) ∧ y.windowStartMs ∉ blockStarts tr

/-- A step that writes nothing leaves what a flush holds unwritten. -/
lemma Clear.snoc {cut : Cut} {pc : FlushPc C} (h : Clear tr cut pc) (hw : written [a] = []) :
    Clear (tr ++ [a]) cut pc := by
  unfold Clear at h ⊢
  rw [blockStarts_snoc hw]
  split at h
  · exact h
  · exact h
  · refine ⟨h.1, fun y hy => ?_⟩
    obtain ⟨⟨hne, hpassed⟩, hnot⟩ := h.2 y hy
    exact ⟨⟨hne, hpassed.append _⟩, hnot⟩

/-- The starts written are different, and no window of theirs is left. -/
structure Stamped (tr : List (Act C)) (s : St C) : Prop where
  nodup : (blockStarts tr).Nodup
  blocks : ∀ y ∈ written tr, y.windows ≠ [] ∧ Passed tr y.windowStartMs
  reached : ∀ who f, s.flushOf who = some f → ∀ i, i ∉ f.pc.remaining →
    ∃ who l, .extract who i f.cut l ∈ tr
  clear : ∀ who f, s.flushOf who = some f → Clear tr f.cut f.pc

lemma stamped_start : Stamped [] (start C) where
  nodup := List.nodup_nil
  blocks := by simp [written]
  reached who f h := by cases who <;> cases h
  clear who f h := by cases who <;> cases h

/-- A window that a shard still holds is of a start not written before. -/
lemma not_mem_blockStarts (hs : Stamped tr s) (hfresh : Fresh tr s) {i : Index C} {x : WindowStats}
    (hx : (s.shards i).aggregator.table x.bucket ≠ 0) : x.windowStartMs ∉ blockStarts tr := by
  intro hmem
  obtain ⟨y, hy, hyx⟩ := List.mem_map.mp hmem
  obtain ⟨who, c, l, hl, hc⟩ := (hs.blocks y hy).2.shards i
  exact hfresh who i c l hl x.bucket hx (show c.Takes x.windowStartMs from hyx ▸ hc)

/-- Collecting goes on, and then the blocks are made. -/
lemma clear_advance (hb : Built s) (hs : Stamped tr s) (hfresh : Fresh tr s)
    (hf : s.flushOf who = some f) (ha : Advance E s who a f f') :
    Clear (tr ++ [a]) f'.cut f'.pc := by
  have hclear := hs.clear who f hf
  have hreached := hs.reached who f hf
  cases ha with
  | lock =>
      refine Clear.snoc ?_ rfl
      exact hclear
  | @extract cut i todo ws =>
      intro x hx
      rw [blockStarts_snoc rfl]
      rcases List.mem_append.mp hx with hx | hx
      · exact hclear x hx
      · obtain ⟨htakes, hne⟩ := takes_of_mem_extract hx
        refine ⟨htakes, ?_, not_mem_blockStarts hs hfresh hne⟩
        rw [← (hb.shards i).2]
        exact mod_of_mem_extract hx
  | @merge cut ws =>
      change ((writeWindows E ws).map _).Nodup ∧ _
      rw [writeWindows_eq]
      refine ⟨?_, fun y hy => ?_⟩
      · refine List.pairwise_map.mpr ((snapshots_ordered E.symbolSort ws).imp fun hlt heq => ?_)
        rw [heq] at hlt
        simp at hlt
      · -- a block holds a window, and every shard has been asked for the windows of its start
        obtain ⟨x, hx⟩ := List.exists_mem_of_ne_nil _ (snapshot_ne_nil _ hy)
        obtain ⟨hxws, hxy⟩ := mem_of_mem_snapshots _ hy hx
        obtain ⟨htakes, hmod, hnot⟩ := hclear x hxws
        rw [← hxy, blockStarts_snoc rfl]
        refine ⟨⟨snapshot_ne_nil _ hy, Passed.append ⟨hmod, fun i => ?_⟩ _⟩, hnot⟩
        obtain ⟨who', l, hl⟩ := hreached i List.not_mem_nil
        exact ⟨who', cut, l, hl, htakes⟩
  | @write cut y todo =>
      have hstarts : blockStarts (tr ++ [.write who y]) = blockStarts tr ++ [y.windowStartMs] :=
        blockStarts_append tr [.write who y]
      obtain ⟨hnodup, htodo⟩ := hclear
      rw [List.map_cons, List.nodup_cons] at hnodup
      refine ⟨hnodup.2, fun z hz => ?_⟩
      obtain ⟨⟨hne, hpassed⟩, hnot⟩ := htodo z (List.mem_cons_of_mem _ hz)
      refine ⟨⟨hne, hpassed.append _⟩, ?_⟩
      rw [hstarts, List.mem_append, List.mem_singleton]
      rintro (hmem | heq)
      · exact hnot hmem
      · exact hnodup.1 (heq ▸ List.mem_map_of_mem hz)

lemma reached_advance (hs : Stamped tr s) (hf : s.flushOf who = some f)
    (ha : Advance E s who a f f') (i : Index C) (hi : i ∉ f'.pc.remaining) :
    ∃ who l, .extract who i f'.cut l ∈ tr ++ [a] := by
  have hold : i ∉ f.pc.remaining → ∃ who l, .extract who i f.cut l ∈ tr ++ [a] := fun hi => by
    obtain ⟨who, l, hl⟩ := hs.reached _ f hf i hi
    exact ⟨who, l, List.mem_append_left _ hl⟩
  cases ha with
  | lock | merge | write => exact hold hi
  | @extract cut j todo ws =>
      by_cases hij : i = j
      · subst hij
        exact ⟨who, _, List.mem_append_right _ (List.mem_singleton_self _)⟩
      · exact hold (by simpa [FlushPc.remaining, hij] using hi)

/-- A block that is written was held by the flush that writes it. -/
lemma blocks_step (hs : Stamped tr s) (h : Step E s a s') :
    (blockStarts (tr ++ [a])).Nodup ∧
      ∀ z ∈ written (tr ++ [a]), z.windows ≠ [] ∧ Passed (tr ++ [a]) z.windowStartMs := by
  have hold : ∀ z ∈ written tr, z.windows ≠ [] ∧ Passed (tr ++ [a]) z.windowStartMs :=
    fun z hz => ⟨(hs.blocks z hz).1, (hs.blocks z hz).2.append _⟩
  rcases step_written h with hw | ⟨who, cut, y, todo, rfl, hf⟩
  · rw [blockStarts_snoc hw, written_append, hw, List.append_nil]
    exact ⟨hs.nodup, hold⟩
  · obtain ⟨-, htodo⟩ := hs.clear who _ hf
    obtain ⟨⟨hne, hpassed⟩, hnot⟩ := htodo y List.mem_cons_self
    constructor
    · rw [blockStarts_append]
      exact hs.nodup.append (List.nodup_singleton _) (List.disjoint_singleton.mpr hnot)
    · intro z hz
      rw [written_append, List.mem_append] at hz
      rcases hz with hz | hz
      · exact hold z hz
      · obtain rfl : z = y := by simpa [written] using hz
        exact ⟨hne, hpassed.append _⟩

lemma reached_step (hx : Exclusive s) (hs : Stamped tr s) (h : Step E s a s')
    (hf' : s'.flushOf who = some f') (i : Index C) (hi : i ∉ f'.pc.remaining) :
    ∃ who l, .extract who i f'.cut l ∈ tr ++ [a] := by
  cases step_flush hx h hf' with
  | same hf _ =>
      obtain ⟨who', l, hl⟩ := hs.reached who f' hf i hi
      exact ⟨who', l, List.mem_append_left _ hl⟩
  | begun cut hf =>
      subst hf
      exact absurd (List.mem_finRange i) hi
  | advanced f hf hadv => exact reached_advance hs hf hadv i hi

lemma clear_step (hx : Exclusive s) (hb : Built s) (hs : Stamped tr s) (hfresh : Fresh tr s)
    (h : Step E s a s') (hf' : s'.flushOf who = some f') : Clear (tr ++ [a]) f'.cut f'.pc := by
  cases step_flush hx h hf' with
  | same hf hno => exact (hs.clear who f' hf).snoc (written_of_flusher hno).1
  | begun cut hf =>
      subst hf
      exact fun x hx => absurd hx List.not_mem_nil
  | advanced f hf hadv => exact clear_advance hb hs hfresh hf hadv

lemma run_stamped (h : run (step E) (start C) tr = some s) (hot : OnTime tr) : Stamped tr s := by
  refine run_inv (P := fun tr s => OnTime tr → Stamped tr s) (fun _ => stamped_start) ?_ h hot
  intro tr s a s' hr hstamped ha hot
  specialize hstamped hot.of_append
  have hstep := step_cases ha
  have hexclusive := (run_ordered hr).exclusive
  have hfresh := run_fresh hr hot.of_append
  obtain ⟨hnodup, hblocks⟩ := blocks_step hstamped hstep
  exact ⟨hnodup, hblocks, fun _ _ hf' => reached_step hexclusive hstamped hstep hf',
    fun _ _ hf' => clear_step hexclusive (run_built hr) hstamped hfresh hstep hf'⟩

/-! ### The headers -/

/-- Distinct whole seconds have distinct texts. -/
def DistinctSeconds (E : Env) : Prop :=
  ∀ m n : UInt64, E.formatSeconds (m / 1000) = E.formatSeconds (n / 1000) → m / 1000 = n / 1000

/-- The header of a block. -/
def header (E : Env) (y : StatsSnapshot) : Str := timestampLine E.formatSeconds y.windowStartMs

lemma header_inj (hsec : DistinctSeconds E) {x y : StatsSnapshot} (h : header E x = header E y) :
    x.windowStartMs / 1000 = y.windowStartMs / 1000 := by
  refine hsec _ _ ?_
  simpa [header, timestampLine] using h

/-- Two window starts in one second are the same, when windows take a second or more. -/
lemma start_eq_of_seconds {W k l : UInt64} (hW : 1000 ≤ W) (hk : k % W = 0) (hl : l % W = 0)
    (h : k / 1000 = l / 1000) : k = l := by
  have hW' : 1000 ≤ W.toNat := UInt64.le_iff_toNat_le.mp hW
  have hk' : W.toNat ∣ k.toNat := by
    rw [Nat.dvd_iff_mod_eq_zero, ← UInt64.toNat_mod, hk]
    rfl
  have hl' : W.toNat ∣ l.toNat := by
    rw [Nat.dvd_iff_mod_eq_zero, ← UInt64.toNat_mod, hl]
    rfl
  have hsec : k.toNat / 1000 = l.toNat / 1000 := by
    simpa [UInt64.toNat_div] using congrArg UInt64.toNat h
  obtain ⟨m, hm⟩ := hk'
  obtain ⟨n, hn⟩ := hl'
  have hmn : m = n := by
    by_contra hne
    rcases Nat.lt_or_gt_of_ne hne with hlt | hlt
    · have hle := Nat.mul_le_mul_left W.toNat (Nat.succ_le_of_lt hlt)
      rw [Nat.mul_succ] at hle
      omega
    · have hle := Nat.mul_le_mul_left W.toNat (Nat.succ_le_of_lt hlt)
      rw [Nat.mul_succ] at hle
      omega
  exact UInt64.toNat_inj.mp (by rw [hm, hn, hmn])

lemma sampleEnv_distinctSeconds : DistinctSeconds sampleEnv :=
  fun _ _ h => StatsSerializer.isoText_injective h

/-- A block begins with its header. -/
lemma header_prefix {y : StatsSnapshot} (h : y.windows ≠ []) : header E y <+: text E y := by
  obtain ⟨k, _ | ⟨x, xs⟩⟩ := y
  · exact absurd rfl h
  · simp only [text, serialize, List.append_assoc]
    exact List.prefix_append _ _

/-- **Headers are not repeated.** Where windows take a second or more, no two blocks written in
a run have the same header, if no trade comes after an extraction that has passed its window. -/
theorem headers_nodup (hsec : DistinctSeconds E) (hW : 1000 ≤ C.windowMs)
    (h : run (step E) (start C) tr = some s) (hot : OnTime tr) :
    ((written tr).map (header E)).Nodup ∧ ∀ y ∈ written tr, header E y <+: text E y := by
  have hstamped := run_stamped h hot
  refine ⟨?_, fun y hy => header_prefix (hstamped.blocks y hy).1⟩
  have hstarts : (written tr).Pairwise fun x y => x.windowStartMs ≠ y.windowStartMs :=
    List.pairwise_map.mp hstamped.nodup
  refine List.pairwise_map.mpr (hstarts.imp_of_mem fun {x y} hx hy hne heq => hne ?_)
  exact start_eq_of_seconds hW (hstamped.blocks x hx).2.mod (hstamped.blocks y hy).2.mod
    (header_inj hsec heq)

/-- Two messages a second apart, then `stop`. -/
def nextSecond : List (Act (sampleConfig 1000)) :=
  feed _ (sampleMessage "BTCUSDT" "0") (sampleTrade "BTCUSDT" 0)
    ++ feed _ (sampleMessage "BTCUSDT" "1000") (sampleTrade "BTCUSDT" 1000)
    ++ shutDown _ (fun _ => [sampleWindow "BTCUSDT" 0, sampleWindow "BTCUSDT" 1000])
      [⟨0, [sampleWindow "BTCUSDT" 0]⟩, ⟨1000, [sampleWindow "BTCUSDT" 1000]⟩]

/-- Windows of a second: the headers of the two blocks differ. -/
theorem headers_nodup_nextSecond :
    (written nextSecond).map (header sampleEnv) =
      [ascii "timestamp=1970-01-01T00:00:00Z\n", ascii "timestamp=1970-01-01T00:00:01Z\n"] ∧
    ((written nextSecond).map (header sampleEnv)).Nodup ∧
      ∀ y ∈ written nextSecond, header sampleEnv y <+: text sampleEnv y := by
  obtain ⟨s, hs, -⟩ := exists_returned sampleEnv nextSecond (by decide +kernel)
  exact ⟨by decide +kernel, headers_nodup sampleEnv_distinctSeconds (by decide) hs
    (onTime_of_check (by decide +kernel))⟩

/-- Two messages half a second apart, then `stop`. -/
def sameSecond : List (Act (sampleConfig 500)) :=
  feed _ (sampleMessage "BTCUSDT" "0") (sampleTrade "BTCUSDT" 0)
    ++ feed _ (sampleMessage "BTCUSDT" "500") (sampleTrade "BTCUSDT" 500)
    ++ shutDown _ (fun _ => [sampleWindow "BTCUSDT" 0, sampleWindow "BTCUSDT" 500])
      [⟨0, [sampleWindow "BTCUSDT" 0]⟩, ⟨500, [sampleWindow "BTCUSDT" 500]⟩]

/-- Windows of half a second: two blocks of one run have the same header. -/
theorem sameSecond_headers : ∃ s, run (step sampleEnv) (start (sampleConfig 500)) sameSecond = some s ∧
    s.stopper = .returned ∧ OnTime sameSecond ∧ DistinctSeconds sampleEnv ∧
    ¬ ((written sameSecond).map (header sampleEnv)).Nodup := by
  obtain ⟨s, hs, hret⟩ := exists_returned sampleEnv sameSecond (by decide +kernel)
  exact ⟨s, hs, hret, onTime_of_check (by decide +kernel), sampleEnv_distinctSeconds,
    by decide +kernel⟩

end BinanceAggregator.Pipeline
