import BinanceAggregator.Collected

/-!
What a flush lists.

The history since a flush began says what it has collected and written. The blocks it writes are
in the order of their starts, and within a block in the order of the symbols, without repetition.
As no bucket is collected twice, the order of the shards and the way the sorting treats equal
symbols leave no trace in the text.
-/

namespace BinanceAggregator.Pipeline

open Runs MarketDataAggregator

variable {C : Config} {E : Env} {s s' : St C} {a : Act C} {tr : List (Act C)} {who : Flusher}
  {f f' : Flush C}

/-! ### The present flush -/

/-- Whether an action begins a flush. -/
def Act.begins : Act C → Bool
  | .readClock _ | .aggsJoined => true
  | _ => false

lemma begins_of_begins {cut : Cut} (h : Begins a who cut) : a.begins = true := by
  cases h <;> rfl

/-- The actions since the last flush began. -/
def current (tr : List (Act C)) : List (Act C) := tr.rtakeWhile fun a => !a.begins

lemma current_snoc (h : a.begins = false) : current (tr ++ [a]) = current tr ++ [a] :=
  List.rtakeWhile_concat_pos _ _ _ (by simp [h])

lemma current_begins (h : a.begins = true) : current (tr ++ [a]) = [] :=
  List.rtakeWhile_concat_neg _ _ _ (by simp [h])

lemma exists_append_current (tr : List (Act C)) : ∃ u, tr = u ++ current tr :=
  ⟨_, List.rdropWhile_append_rtakeWhile.symm⟩

/-- Where a flush is under way after an action that begins one, it is that one. -/
lemma eq_beginFlush (hx : Exclusive s') (h : Step E s a s') (hb : a.begins = true)
    (hf : s'.flushOf who = some f) : ∃ cut, f = beginFlush C cut := by
  have hbegun : ∃ who₀ cut, s'.flushOf who₀ = some (beginFlush C cut) := by
    cases h with
    | readClock _ => exact ⟨.writer, _, rfl⟩
    | aggsJoined _ => exact ⟨.stopper, _, rfl⟩
    | _ => cases hb
  obtain ⟨who₀, cut, h₀⟩ := hbegun
  obtain rfl := hx _ _ _ _ hf h₀
  exact ⟨cut, Option.some.inj (hf.symm.trans h₀)⟩

/-! ### What it has written -/

/-- What a flush holds is what it has collected. Once it writes, what is done and what it is going
to write is the listing of what it collected. -/
def ListedAt (E : Env) (collected : List WindowStats) (done : List StatsSnapshot) :
    FlushPc C → Prop
  | .collecting _ ws => collected = ws ∧ done = []
  | .extracting _ _ ws => collected = ws ∧ done = []
  | .writing todo => done ++ todo = writeWindows E collected

/-- What has been collected since a flush began, no bucket twice, and what has been written. -/
structure Listed (E : Env) (tr : List (Act C)) (f : Flush C) : Prop where
  nodup : ((extracted (current tr)).map WindowStats.bucket).Nodup
  blocks : ListedAt E (extracted (current tr)) (written (current tr)) f.pc

lemma listed_begin {cut : Cut} (h : current tr = []) : Listed E tr (beginFlush C cut) := by
  refine ⟨?_, ?_⟩ <;> rw [h]
  · exact List.nodup_nil
  · exact ⟨rfl, rfl⟩

lemma Listed.congr {u : List (Act C)} (h : Listed E tr f)
    (hx : extracted (current u) = extracted (current tr))
    (hw : written (current u) = written (current tr)) : Listed E u f := by
  refine ⟨?_, ?_⟩ <;> rw [hx]
  · exact h.nodup
  · rw [hw]
    exact h.blocks

lemma Advance.begins_eq_false (h : Advance E s who a f f') : a.begins = false := by
  cases h <;> rfl

lemma listed_advance (hadv : Advance E s who a f f') (hf' : Collected E f')
    (h : Listed E tr f) : Listed E (tr ++ [a]) f' := by
  obtain ⟨hnodup, hblocks⟩ := h
  have hcurrent : current (tr ++ [a]) = current tr ++ [a] := current_snoc hadv.begins_eq_false
  have hx : extracted (current (tr ++ [a])) = extracted (current tr) ++ extracted [a] := by
    rw [hcurrent, extracted_append]
  have hw : written (current (tr ++ [a])) = written (current tr) ++ written [a] := by
    rw [hcurrent, written_append]
  cases hadv with
  | lock =>
      replace hx : extracted (current (tr ++ [_])) = extracted (current tr) :=
        hx.trans (List.append_nil _)
      refine ⟨hx ▸ hnodup, ?_⟩
      rw [hx, hw]
      exact ⟨hblocks.1, by rw [hblocks.2]; rfl⟩
  | @extract cut i todo ws =>
      have hall := hx
      rw [hblocks.1, show extracted [Act.extract who i cut _] = _ from List.append_nil _] at hall
      refine ⟨?_, ?_⟩
      · rw [hall]
        exact hf'.nodup
      · rw [hall, hw]
        exact ⟨rfl, by rw [hblocks.2]; rfl⟩
  | @merge cut ws =>
      replace hx : extracted (current (tr ++ [_])) = extracted (current tr) :=
        hx.trans (List.append_nil _)
      refine ⟨hx ▸ hnodup, ?_⟩
      rw [hx, hw, hblocks.1, hblocks.2]
      rfl
  | @write cut y todo =>
      replace hx : extracted (current (tr ++ [_])) = extracted (current tr) :=
        hx.trans (List.append_nil _)
      refine ⟨hx ▸ hnodup, ?_⟩
      rw [hx, hw]
      exact (List.append_assoc _ _ _).trans hblocks

lemma step_listed (hr : run (step E) (start C) tr = some s)
    (hr' : run (step E) (start C) (tr ++ [a]) = some s') (h : Step E s a s')
    (ih : ∀ who f, s.flushOf who = some f → Listed E tr f) {who : Flusher} {f' : Flush C}
    (hf' : s'.flushOf who = some f') : Listed E (tr ++ [a]) f' := by
  have hx := (run_ordered hr).exclusive
  cases hb : a.begins with
  | true =>
      obtain ⟨cut, rfl⟩ := eq_beginFlush (run_ordered hr').exclusive h hb hf'
      exact listed_begin (current_begins hb)
  | false =>
      cases step_flushChange h with
      | beside hno _ hsame =>
          obtain ⟨hw, hextracted⟩ := written_of_flusher hno
          refine (ih who f' ((hsame who).symm.trans hf')).congr ?_ ?_
          · rw [current_snoc hb, extracted_append, hextracted, List.append_nil]
          · rw [current_snoc hb, written_append, hw, List.append_nil]
      | begun who₀ cut hbegins _ _ =>
          rw [begins_of_begins hbegins] at hb
          cases hb
      | advanced who₀ f g hf hadv hset =>
          have hother := hf'
          rw [hset] at hother
          split_ifs at hother with hw
          · subst hw
            obtain rfl := Option.some.inj hother
            exact listed_advance hadv (run_collected hr' _ _ hf') (ih _ f hf)
          · exact absurd (hx _ _ _ _ hother hf) hw
      | finished who₀ cut _ hf hset =>
          rw [hset] at hf'
          split_ifs at hf' with hw
          exact absurd (hx _ _ _ _ hf' hf) hw

theorem run_listed (h : run (step E) (start C) tr = some s) :
    ∀ who f, s.flushOf who = some f → Listed E tr f := by
  refine run_inv (P := fun tr s => ∀ who f, s.flushOf who = some f → Listed E tr f) ?_ ?_ h
  · intro who f hf
    cases who <;> cases hf
  · intro tr s a s' hr ih ha who f' hf'
    exact step_listed hr ((run_snoc _).mpr ⟨s, hr, ha⟩) (step_cases ha) ih hf'

/-- **A flush writes a sorted listing.** Let a flush be writing, and take the blocks it has written
and those it is going to write. It has collected no bucket twice. The starts of the blocks are
strictly increasing, and so are the symbols within a block. Every window collected is in one
block, that of its start, and no block is empty. Any list of the same windows without repetition
gives the same texts, whatever the sorting does with equal symbols. -/
theorem flush_listing (h : run (step E) (start C) tr = some s) {cut : Cut}
    {todo : List StatsSnapshot} (hf : s.flushOf who = some ⟨cut, .writing todo⟩) :
    ((extracted (current tr)).map WindowStats.bucket).Nodup ∧
    ((written (current tr) ++ todo).map (·.windowStartMs)).Pairwise (· < ·) ∧
    (∀ y ∈ written (current tr) ++ todo, y.windows ≠ [] ∧
      (y.windows.map (·.symbol)).Pairwise (fun a b => compare a b = .lt) ∧
      ∀ x ∈ y.windows, x.windowStartMs = y.windowStartMs) ∧
    ((written (current tr) ++ todo).flatMap (·.windows)).Perm (extracted (current tr)) ∧
    ∀ (sort : SymbolSort) (m : List WindowStats), m.Nodup →
      (∀ x, x ∈ m ↔ x ∈ extracted (current tr)) →
      (snapshots sort m).map (text E) = (written (current tr) ++ todo).map (text E) := by
  obtain ⟨hnodup, hblocks⟩ := run_listed h who _ hf
  have hall : written (current tr) ++ todo = snapshots E.symbolSort (extracted (current tr)) := by
    rw [← writeWindows_eq]
    exact hblocks
  rw [hall]
  refine ⟨hnodup, ?_, fun y hy => ⟨snapshot_ne_nil _ hy, ?_, fun x hx => ?_⟩, snapshots_perm _ _,
    fun sort m hm hmem => ?_⟩
  · rw [List.pairwise_map]
    exact (snapshots_ordered E.symbolSort _).imp fun hlt => Std.compare_eq_lt.mp hlt
  · rw [snapshots_eq, List.mem_map] at hy
    obtain ⟨k, -, rfl⟩ := hy
    rw [List.pairwise_map]
    exact sort_ofStart_lt _ hnodup k
  · exact (mem_of_mem_snapshots _ hy hx).2
  · have hperm : m.Perm (extracted (current tr)) :=
      (List.perm_ext_iff_of_nodup hm (List.Nodup.of_map _ hnodup)).mpr hmem
    rw [snapshots_eq_of_perm sort E.symbolSort hperm ((hperm.map _).nodup_iff.mpr hnodup)]

/-- The blocks a thread is about to write. -/
def St.pending (s : St C) (who : Flusher) : Option (List StatsSnapshot) := match s.flushOf who with
  | some ⟨_, .writing todo⟩ => some todo
  | _ => none

lemma exists_pending (E : Env) (tr : List (Act C)) (who : Flusher) (todo : List StatsSnapshot)
    (h : (run (step E) (start C) tr).any (fun s => s.pending who = some todo) = true) :
    ∃ s cut, run (step E) (start C) tr = some s ∧ s.flushOf who = some ⟨cut, .writing todo⟩ := by
  obtain ⟨s, hs, hpending⟩ := (Option.any_eq_true _ _).mp h
  replace hpending := of_decide_eq_true hpending
  rcases hf : s.flushOf who with _ | ⟨cut, pc⟩
  · simp [St.pending, hf] at hpending
  · cases pc with
    | writing l =>
        simp only [St.pending, hf, Option.some.injEq] at hpending
        exact ⟨s, cut, hs, by rw [hf, hpending]⟩
    | _ => simp [St.pending, hf] at hpending

/-- Two symbols in two shards, and two windows of one of them; `stop` has written the first of its
two blocks. -/
def secondBlock : List (Act twoShards) :=
  feed _ (sampleMessage "BTCUSDT" "0") (sampleTrade "BTCUSDT" 0)
    ++ feed _ (sampleMessage "BNBUSDT" "0") (sampleTrade "BNBUSDT" 0)
    ++ feed _ (sampleMessage "BTCUSDT" "500") (sampleTrade "BTCUSDT" 500)
    ++ (shutDown _ (fun i => if i.val = 0 then [sampleWindow "BNBUSDT" 0]
        else [sampleWindow "BTCUSDT" 0, sampleWindow "BTCUSDT" 500])
      [⟨0, [sampleWindow "BNBUSDT" 0, sampleWindow "BTCUSDT" 0]⟩]).dropLast

theorem flush_listing_secondBlock : ∃ s cut,
    run (step sampleEnv) (start twoShards) secondBlock = some s ∧
    s.flushOf .stopper = some ⟨cut, .writing [⟨500, [sampleWindow "BTCUSDT" 500]⟩]⟩ ∧
    written (current secondBlock) = [⟨0, [sampleWindow "BNBUSDT" 0, sampleWindow "BTCUSDT" 0]⟩] ∧
    [sampleWindow "BNBUSDT" 0, sampleWindow "BTCUSDT" 0, sampleWindow "BTCUSDT" 500].Perm
      (extracted (current secondBlock)) ∧
    ∀ sort : SymbolSort,
      (snapshots sort (extracted (current secondBlock))).map (text sampleEnv) =
        [text sampleEnv ⟨0, [sampleWindow "BNBUSDT" 0, sampleWindow "BTCUSDT" 0]⟩,
          text sampleEnv ⟨500, [sampleWindow "BTCUSDT" 500]⟩] := by
  obtain ⟨s, cut, hs, hf⟩ := exists_pending sampleEnv secondBlock .stopper
    [⟨500, [sampleWindow "BTCUSDT" 500]⟩] (by decide +kernel)
  obtain ⟨hnodup, -, -, hperm, htexts⟩ := flush_listing hs hf
  have hwritten : written (current secondBlock) =
      [⟨0, [sampleWindow "BNBUSDT" 0, sampleWindow "BTCUSDT" 0]⟩] := by decide +kernel
  rw [hwritten] at hperm htexts
  exact ⟨s, cut, hs, hf, hwritten, hperm, fun sort =>
    htexts sort _ (List.Nodup.of_map _ hnodup) fun _ => Iff.rfl⟩

end BinanceAggregator.Pipeline
