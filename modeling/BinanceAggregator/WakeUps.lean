import Mathlib.Data.Finset.Card
import Mathlib.Data.Fintype.Basic
import BinanceAggregator.Mutex
import BinanceAggregator.QueueThreads

/-!
No wake-up of the queue is lost.

A change of the queue makes a waiting thread's predicate true before the notification that
tells it so is made, and between the two another thread may take what was waited for. What
keeps the sleepers safe is a count: as long as somebody sleeps on a condition variable, there
are at least as many outstanding wake-ups for it as there are items to be popped, or places to
be filled. A wake-up is outstanding from the change of the queue until its notification is made,
and, if that wakes a thread, until the thread has tested its predicate again.
-/

namespace BinanceAggregator.QueueThreads

open Runs BoundedQueue Mutex

variable {T : Type} {n : ℕ}

/-- The condition variable a notification is made on. -/
def Notification.cv : Notification → CondVar
  | .one cv | .all cv => cv

/-- The notifications a thread has yet to make for the change it has made. -/
def Pc.due : Pc T → List Notification
  | .unlocking e => notifications e
  | .notifying _ todo => todo
  | _ => []

/-- The thread went to sleep in its present call. -/
def hasSlept (t : Fin n) (tr : List (Act n T)) : Bool := tr.foldl (fun slept a => match a with
  | .call u _ => if u = t then false else slept
  | .sleep u => if u = t then true else slept
  | _ => slept) false

/-- A thread that has been woken on the condition variable and has yet to test its predicate
again; a thread in its first test was never woken. -/
def Pc.wokenOn (cv : CondVar) (slept : Bool) : Pc T → Bool
  | .woken op => waitsOn op = some cv
  | .testing op => slept && decide (waitsOn op = some cv)
  | _ => false

/-- A notification on the condition variable, or the test after one, is outstanding. -/
def Pc.outstanding (cv : CondVar) (slept : Bool) (pc : Pc T) : Bool :=
  pc.due.any (fun m => decide (m.cv = cv)) || pc.wokenOn cv slept

/-- The threads with an outstanding wake-up on a condition variable. -/
def wakers (cv : CondVar) (tr : List (Act n T)) (s : St n T) : Finset (Fin n) :=
  Finset.univ.filter fun t => (s.pc t).outstanding cv (hasSlept t tr) = true

/-- How many threads could go on that wait on a condition variable. -/
def supply (q : BoundedQueue T) : CondVar → ℕ
  | .notFull => q.capacity - q.items.length
  | .notEmpty => q.items.length

lemma ready_iff {q : BoundedQueue T} {op : Op T} {cv : CondVar} (h : waitsOn op = some cv) :
    ready q op = true ↔ q.isShutdown = true ∨ 0 < supply q cv := by
  cases op with
  | push x =>
      cases h
      simp only [ready, supply, Bool.or_eq_true, decide_eq_true_eq, Nat.sub_pos_iff_lt]
  | pop =>
      cases h
      simp [ready, supply, List.length_pos_iff]
  | shutdown => cases h

lemma supply_of_not_ready {q : BoundedQueue T} {op : Op T} {cv : CondVar}
    (h : waitsOn op = some cv) (hw : ready q op = false) :
    q.isShutdown = false ∧ supply q cv = 0 := by
  have hnot := (ready_iff (q := q) h).not.mp (by simp [hw])
  rwa [not_or, Bool.not_eq_true, Nat.pos_iff_ne_zero, not_not] at hnot

variable {cv : CondVar} {tr : List (Act n T)} {s s' : St n T} {a : Act n T} {t u : Fin n}

lemma hasSlept_snoc_of_ne (h : u ≠ a.thread) : hasSlept u (tr ++ [a]) = hasSlept u tr := by
  cases a with
  | call t | sleep t =>
      rw [hasSlept, List.foldl_append]
      exact if_neg (Ne.symm h)
  | lock | take | unlock | notify | wake | ret => simp [hasSlept]

lemma mem_wakers :
    t ∈ wakers cv tr s ↔ (∃ m ∈ (s.pc t).due, m.cv = cv) ∨
      (s.pc t).wokenOn cv (hasSlept t tr) = true := by
  simp [wakers, Pc.outstanding]

lemma asleepOn_iff {pc : Pc T} :
    pc.asleepOn cv = true ↔ ∃ op, pc = .asleep op ∧ waitsOn op = some cv := by
  cases pc <;> simp [Pc.asleepOn]

variable [DecidableEq T]

/-! ### What a step does to the sleepers and to the queue -/

/-- A thread that does not act stays where it is, or is woken. -/
lemma pc_of_ne (h : Step s a s') (hu : u ≠ a.thread) :
    s'.pc u = s.pc u ∨ ∃ op, s.pc u = .asleep op ∧ s'.pc u = .woken op := by
  cases h with
  | call | lock | sleep | take | unlock | notifyNone | wake | ret => exact .inl (goto_of_ne hu)
  | @notifyOne t v e cv' todo ht hv =>
      rw [goto_of_ne (t := t) hu]
      by_cases huv : u = v
      · subst huv
        obtain ⟨op, hop, -⟩ := asleepOn_iff.mp hv
        exact .inr ⟨op, hop, by rw [goto_self, hop]; rfl⟩
      · exact .inl (goto_of_ne huv)
  | @notifyAll t e cv' todo ht =>
      rw [goto_of_ne (t := t) hu]
      by_cases hv : (s.pc u).asleepOn cv' = true
      · obtain ⟨op, hop, -⟩ := asleepOn_iff.mp hv
        refine .inr ⟨op, hop, (if_pos hv).trans ?_⟩
        rw [hop]
        rfl
      · exact .inl (if_neg hv)

/-- A thread is asleep after a step only if it was before, or if it has found its predicate
false. -/
lemma asleep_step (h : Step s a s') (hu : (s'.pc u).asleepOn cv = true) :
    (s.pc u).asleepOn cv = true ∨
      s'.queue = s.queue ∧ s.queue.isShutdown = false ∧ supply s.queue cv = 0 := by
  by_cases hne : u = a.thread
  · subst hne
    cases h with
    | @sleep t op ht hw =>
        have hop : waitsOn op = some cv := by simpa [Act.thread, Pc.asleepOn] using hu
        exact .inr ⟨rfl, supply_of_not_ready hop hw⟩
    | call | lock | take | unlock | notifyOne | notifyNone | notifyAll | wake | ret =>
        simp [Act.thread, Pc.asleepOn] at hu
  · rcases pc_of_ne h hne with he | ⟨op, -, he⟩
    · exact .inl (he ▸ hu)
    · rw [he] at hu
      cases hu

/-- What a change of an open queue does to the supply of a condition variable: what the call
waited for gets one less, what it notifies of gets one more. -/
lemma supply_perform {q q' : BoundedQueue T} {e : Effect T} (h : q.perform e = some q')
    (hq : q'.isShutdown = false) (cv : CondVar) :
    waitsOn e.1 = some cv ∧ supply q' cv + 1 = supply q cv ∨
      waitsOn e.1 ≠ some cv ∧ (∃ m ∈ notifications e, m.cv = cv) ∧
        supply q' cv = supply q cv + 1 := by
  obtain ⟨op, res⟩ := e
  rw [perform_eq_some] at h
  have hb := q.bounded
  have hb' := q'.bounded
  cases op with
  | push x =>
      simp only [exec, Option.map_eq_some_iff, Prod.mk.injEq, Prod.exists] at h
      obtain ⟨ok, q'', hp, rfl, rfl⟩ := h
      obtain ⟨hcap, hsd, hok, hitems⟩ := push_eq_some hp
      -- an open queue refuses nothing
      obtain rfl : ok = true := by simpa [← hsd, hq] using hok
      have hlen : q''.items.length = q.items.length + 1 := by simp [hitems]
      cases cv with
      | notFull => exact .inl ⟨rfl, by simp only [supply]; omega⟩
      | notEmpty => exact .inr ⟨by simp [waitsOn], ⟨_, List.mem_singleton_self _, rfl⟩, hlen⟩
  | pop =>
      simp only [exec, Option.map_eq_some_iff, Prod.mk.injEq, Prod.exists] at h
      obtain ⟨x, q'', hp, rfl, rfl⟩ := h
      obtain ⟨hcap, hsd, hitems, hnone⟩ := pop_eq_some hp
      cases x with
      | none => simp [← hsd, hq] at hnone
      | some x =>
          have hlen : q.items.length = q''.items.length + 1 := by simp [hitems]
          cases cv with
          | notFull =>
              exact .inr ⟨by simp [waitsOn], ⟨_, List.mem_singleton_self _, rfl⟩, by
                simp only [supply]; omega⟩
          | notEmpty => exact .inl ⟨rfl, hlen.symm⟩
  | shutdown =>
      simp only [exec, Option.some.injEq, Prod.mk.injEq] at h
      obtain ⟨rfl, rfl⟩ := h
      cases hq

/-- A queue is shut down by the operation of that name only, and for good. -/
lemma isShutdown_perform {q q' : BoundedQueue T} {e : Effect T} (h : q.perform e = some q') :
    q'.isShutdown = true ↔ q.isShutdown = true ∨ e.1 = .shutdown := by
  obtain ⟨op, res⟩ := e
  rw [perform_eq_some] at h
  cases op with
  | push x =>
      simp only [exec, Option.map_eq_some_iff, Prod.mk.injEq, Prod.exists] at h
      obtain ⟨ok, q'', hp, -, rfl⟩ := h
      simp [(push_eq_some hp).2.1]
  | pop =>
      simp only [exec, Option.map_eq_some_iff, Prod.mk.injEq, Prod.exists] at h
      obtain ⟨x, q'', hp, -, rfl⟩ := h
      simp [(pop_eq_some hp).2.1]
  | shutdown =>
      simp only [exec, Option.some.injEq, Prod.mk.injEq] at h
      obtain ⟨-, rfl⟩ := h
      simp [shutdown]

lemma open_of_perform {q q' : BoundedQueue T} {e : Effect T} (h : q.perform e = some q')
    (hq : q'.isShutdown = false) : q.isShutdown = false := by
  have hiff := isShutdown_perform h
  simp only [hq, Bool.false_eq_true, false_iff, not_or, Bool.not_eq_true] at hiff
  exact hiff.1

/-! ### What a step does to the outstanding wake-ups -/

/-- The ways in which a thread uses up its outstanding wake-up: by testing its predicate again,
or by making the notification. -/
inductive Spends (cv : CondVar) (s : St n T) : Act n T → Fin n → Prop
  | sleep {t : Fin n} {op : Op T} (h : s.pc t = .testing op) (hop : waitsOn op = some cv)
      (hw : ready s.queue op = false) : Spends cv s (.sleep t) t
  | take {t : Fin n} {e : Effect T} (h : s.pc t = .testing e.1) (hop : waitsOn e.1 = some cv) :
      Spends cv s (.take t e) t
  | notify {t : Fin n} {e : Effect T} {m : Notification} {todo : List Notification}
      {sleeper : Option (Fin n)} (h : s.pc t = .notifying e (m :: todo)) (hm : m.cv = cv) :
      Spends cv s (.notify t sleeper) t

omit [DecidableEq T] in
lemma Spends.thread_eq (h : Spends cv s a t) : t = a.thread := by
  cases h <;> rfl

/-- Whoever was woken has slept. -/
def Woken (tr : List (Act n T)) (s : St n T) : Prop :=
  ∀ t op, s.pc t = .asleep op ∨ s.pc t = .woken op → hasSlept t tr = true

lemma woken_step (hw : Woken tr s) (h : Step s a s') : Woken (tr ++ [a]) s' := by
  intro u op hu
  by_cases hne : u = a.thread
  · subst hne
    cases h with
    | sleep => simp [hasSlept, Act.thread]
    | @wake t op' ht =>
        rw [hasSlept, List.foldl_append]
        exact hw t op' (.inl ht)
    | call | lock | take | unlock | notifyOne | notifyNone | notifyAll | ret =>
        simp [Act.thread] at hu
  · rw [hasSlept_snoc_of_ne hne]
    rcases pc_of_ne h hne with he | ⟨op', he, -⟩
    · exact hw u op (he ▸ hu)
    · exact hw u op' (.inl he)

/-- A wake-up stays outstanding until it is used up. -/
lemma mem_wakers_step (hw : Woken tr s) (h : Step s a s') (hu : u ∈ wakers cv tr s) :
    u ∈ wakers cv (tr ++ [a]) s' ∨ Spends cv s a u := by
  rw [mem_wakers] at hu ⊢
  by_cases hne : u = a.thread
  · subst hne
    cases h with
    | call h | wake h | ret h => simp [Act.thread, h, Pc.due, Pc.wokenOn] at hu
    | @lock t op ho h =>
        rcases h with h | h
        · simp [Act.thread, h, Pc.due, Pc.wokenOn] at hu
        · have hslept : hasSlept t (tr ++ [.lock t]) = true := by
            rw [hasSlept, List.foldl_append]
            exact hw t op (.inr h)
          left
          right
          simpa [Act.thread, h, Pc.due, Pc.wokenOn, hslept] using hu
    | @sleep t op h hr =>
        simp only [Act.thread, h, Pc.due, Pc.wokenOn, List.not_mem_nil, false_and, exists_false,
          false_or, Bool.and_eq_true, decide_eq_true_eq] at hu
        exact .inr (.sleep h hu.2 hr)
    | @take t e q h hq =>
        simp only [Act.thread, h, Pc.due, Pc.wokenOn, List.not_mem_nil, false_and, exists_false,
          false_or, Bool.and_eq_true, decide_eq_true_eq] at hu
        exact .inr (.take h hu.2)
    | @unlock t e h =>
        left
        left
        simpa [Act.thread, h, Pc.due, Pc.wokenOn] using hu
    | @notifyOne t _ e cv' todo h | @notifyNone t e cv' todo h | @notifyAll t e cv' todo h =>
        simp only [Act.thread, h, Pc.due, Pc.wokenOn, List.mem_cons, exists_eq_or_imp,
          Bool.false_eq_true, or_false] at hu
        rcases hu with hm | hm
        · exact .inr (.notify h hm)
        · left
          left
          simpa [Act.thread, Pc.due] using hm
  · left
    rw [hasSlept_snoc_of_ne hne]
    rcases pc_of_ne h hne with he | ⟨op, he, -⟩
    · rwa [he]
    · simp [he, Pc.due, Pc.wokenOn] at hu

lemma wakers_subset (hw : Woken tr s) (h : Step s a s') :
    wakers cv tr s ⊆ insert a.thread (wakers cv (tr ++ [a]) s') := by
  intro u hu
  rcases mem_wakers_step hw h hu with hu' | hsp
  · exact Finset.mem_insert_of_mem hu'
  · exact hsp.thread_eq ▸ Finset.mem_insert_self _ _

lemma wakers_subset_of_not_spends (hw : Woken tr s) (h : Step s a s')
    (hsp : ¬ Spends cv s a a.thread) : wakers cv tr s ⊆ wakers cv (tr ++ [a]) s' := by
  intro u hu
  rcases mem_wakers_step hw h hu with hu' | hu'
  · exact hu'
  · exact absurd (hu'.thread_eq ▸ hu') hsp

/-- The thread a notification has woken takes the place of the one that made it. -/
lemma card_wakers_notifyOne (hw : Woken tr s) {sleeper : Fin n}
    (h : Step s (.notify t (some sleeper)) s') (hs : (s.pc sleeper).asleepOn cv = true) :
    (wakers cv tr s).card ≤ (wakers cv (tr ++ [.notify t (some sleeper)]) s').card := by
  set w := wakers cv (tr ++ [.notify t (some sleeper)]) s'
  obtain ⟨op, hop, hcv⟩ := asleepOn_iff.mp hs
  have hmem : sleeper ∈ w := by
    have hne : sleeper ≠ t := by
      rintro rfl
      cases h with
      | notifyOne ht => rw [ht] at hop; cases hop
    cases h with
    | @notifyOne _ _ e cv' todo ht =>
        refine mem_wakers.mpr (.inr ?_)
        rw [goto_of_ne hne, goto_self, hop]
        simpa [Pc.wakened, Pc.wokenOn] using hcv
  have hnot : sleeper ∉ wakers cv tr s := by
    rw [mem_wakers, hop]
    simp [Pc.due, Pc.wokenOn]
  have hsub : wakers cv tr s ⊆ insert t (w.erase sleeper) := by
    intro u hu
    have hne : u ≠ sleeper := fun he => hnot (he ▸ hu)
    rcases Finset.mem_insert.mp (wakers_subset hw h hu) with rfl | hu'
    · exact Finset.mem_insert_self _ _
    · exact Finset.mem_insert_of_mem (Finset.mem_erase.mpr ⟨hne, hu'⟩)
  calc (wakers cv tr s).card ≤ (insert t (w.erase sleeper)).card := Finset.card_le_card hsub
    _ ≤ (w.erase sleeper).card + 1 := Finset.card_insert_le _ _
    _ = w.card := Finset.card_erase_add_one hmem

/-! ### The count -/

/-- What every reachable state satisfies. After the shutdown the queue's predicates stay true,
and it is the shutdown itself that still has to wake the sleepers. -/
structure Covered (tr : List (Act n T)) (s : St n T) : Prop where
  woken : Woken tr s
  supplied : s.queue.isShutdown = false → ∀ cv t, (s.pc t).asleepOn cv = true →
    supply s.queue cv ≤ (wakers cv tr s).card
  shut : s.queue.isShutdown = true → ∀ cv t, (s.pc t).asleepOn cv = true →
    ∃ u, .all cv ∈ (s.pc u).due

omit [DecidableEq T] in
/-- A notification of all threads leaves nobody asleep. -/
lemma not_asleepOn_notifyAll {e : Effect T} {todo : List Notification} (u : Fin n) :
    (((s.wakeAll cv).goto t (.notifying e todo)).pc u).asleepOn cv = false := by
  by_cases hu : u = t
  · subst hu
    rw [goto_self]
    rfl
  · rw [goto_of_ne hu, St.wakeAll]
    by_cases hs : (s.pc u).asleepOn cv = true
    · obtain ⟨op, hop, -⟩ := asleepOn_iff.mp hs
      simp only [if_pos hs]
      rw [hop]
      rfl
    · simp [hs]

/-- As long as the queue is open the outstanding wake-ups keep up with the supply. -/
lemma supplied_step (hc : Covered tr s) (h : Step s a s') (hq : s'.queue.isShutdown = false)
    (hv : (s'.pc u).asleepOn cv = true) : supply s'.queue cv ≤ (wakers cv (tr ++ [a]) s').card := by
  rcases asleep_step h hv with hs | ⟨heq, -, hzero⟩
  swap
  · rw [heq, hzero]
    exact Nat.zero_le _
  have hcount : s.queue.isShutdown = false → supply s.queue cv ≤ (wakers cv tr s).card :=
    fun hopen => hc.supplied hopen cv u hs
  by_cases hsp : Spends cv s a a.thread
  · -- a wake-up is used up: there is less to go round, or somebody else is woken for it
    have hcard : (wakers cv tr s).card ≤ (wakers cv (tr ++ [a]) s').card + 1 :=
      (Finset.card_le_card (wakers_subset hc.woken h)).trans (Finset.card_insert_le _ _)
    cases hsp with
    | sleep ht hop hw =>
        cases h with
        | sleep => exact (supply_of_not_ready hop hw).2 ▸ Nat.zero_le _
    | take ht hop =>
        cases h with
        | take _ hperf =>
            rcases supply_perform hperf hq cv with ⟨-, hless⟩ | ⟨hne, -⟩
            · have hle := (hcount (open_of_perform hperf hq)).trans hcard
              rw [← hless] at hle
              exact Nat.le_of_succ_le_succ hle
            · exact absurd hop hne
    | notify ht hm =>
        cases h with
        | notifyOne ht' hu' =>
            cases ht.symm.trans ht'
            exact (hcount hq).trans (card_wakers_notifyOne hc.woken (.notifyOne ht' hu') (hm ▸ hu'))
        | notifyNone ht' hn =>
            cases ht.symm.trans ht'
            exact absurd hs (by simp [← hm, Notification.cv, hn u])
        | notifyAll ht' =>
            cases ht.symm.trans ht'
            exact absurd hv (by simp [← hm, Notification.cv, not_asleepOn_notifyAll])
  · have hsub := wakers_subset_of_not_spends hc.woken h hsp
    cases h with
    | @take t e q ht hperf =>
        rcases supply_perform hperf hq cv with ⟨hop, -⟩ | ⟨hop, hm, hmore⟩
        · exact absurd (.take ht hop) hsp
        · -- the thread's own notification makes up for the change
          have hnew :
              t ∈ wakers cv (tr ++ [.take t e]) { s.goto t (.unlocking e) with queue := q } :=
            mem_wakers.mpr (.inl (by simpa [Pc.due] using hm))
          have hold : t ∉ wakers cv tr s := by
            rw [mem_wakers, ht]
            simp [Pc.due, Pc.wokenOn, hop]
          have hlt := Finset.card_lt_card ((Finset.ssubset_iff_of_subset hsub).mpr ⟨t, hnew, hold⟩)
          rw [hmore]
          exact (Nat.succ_le_succ (hcount (open_of_perform hperf hq))).trans hlt
    | call | lock | sleep | unlock | notifyOne | notifyNone | notifyAll | wake | ret =>
        exact (hcount hq).trans (Finset.card_le_card hsub)

/-- Notifications stay due until they are made. -/
lemma due_step (h : Step s a s') {m : Notification} (hm : m ∈ (s.pc u).due) :
    m ∈ (s'.pc u).due ∨ ∃ e todo sleeper, s.pc u = .notifying e (m :: todo) ∧
      a = .notify u sleeper := by
  by_cases hne : u = a.thread
  · subst hne
    cases h with
    | call h | sleep h | take h | wake h | ret h => simp [Act.thread, h, Pc.due] at hm
    | lock _ h => rcases h with h | h <;> simp [Act.thread, h, Pc.due] at hm
    | unlock h =>
        left
        simpa [Act.thread, h, Pc.due] using hm
    | notifyOne h | notifyNone h | notifyAll h =>
        simp only [Act.thread, h, Pc.due, List.mem_cons] at hm
        rcases hm with rfl | hm
        · exact .inr ⟨_, _, _, h, rfl⟩
        · left
          simpa [Act.thread, Pc.due] using hm
  · rcases pc_of_ne h hne with he | ⟨op, he, -⟩
    · exact .inl (he ▸ hm)
    · simp [he, Pc.due] at hm

/-- After the shutdown nobody goes to sleep, and the sleepers are still to be woken by it. -/
lemma shut_step (hc : Covered tr s) (h : Step s a s') (hq : s'.queue.isShutdown = true)
    (hv : (s'.pc t).asleepOn cv = true) : ∃ u, .all cv ∈ (s'.pc u).due := by
  by_cases hopen : s.queue.isShutdown = true
  · have hs : (s.pc t).asleepOn cv = true := by
      rcases asleep_step h hv with hs | ⟨-, hsd, -⟩
      · exact hs
      · rw [hopen] at hsd
        cases hsd
    obtain ⟨u, hu⟩ := hc.shut hopen cv t hs
    rcases due_step h hu with hu' | ⟨e, todo, sleeper, hpc, rfl⟩
    · exact ⟨u, hu'⟩
    · cases h with
      | notifyOne h | notifyNone h => cases hpc.symm.trans h
      | notifyAll h =>
          cases hpc.symm.trans h
          rw [not_asleepOn_notifyAll] at hv
          cases hv
  · cases h with
    | @take t e q ht hperf =>
        rcases (isShutdown_perform hperf).mp hq with hsd | hop
        · exact absurd hsd hopen
        · obtain ⟨op, res⟩ := e
          cases hop
          refine ⟨t, ?_⟩
          rw [goto_self]
          cases cv <;> simp [Pc.due, notifications]
    | call | lock | sleep | unlock | notifyOne | notifyNone | notifyAll | wake | ret =>
        exact absurd hq hopen

variable {capacity : ℕ}

lemma run_covered (h : run step (init n capacity) tr = some s) : Covered tr s := by
  refine run_inv (P := Covered) ⟨?_, ?_, ?_⟩ ?_ h
  · intro t op ht
    simp [init] at ht
  · intro _ cv t ht
    cases ht
  · intro hq
    cases hq
  · intro tr s a s' _ hc ha
    have h := step_cases ha
    exact ⟨woken_step hc.woken h, fun hq cv u hv => supplied_step hc h hq hv,
      fun hq cv u hv => shut_step hc h hq hv⟩

/-- A thread inside the critical section. -/
def Pc.holds : Pc T → Bool
  | .testing _ | .unlocking _ => true
  | _ => false

lemma holds_of_ne (h : Step s a s') (hu : u ≠ a.thread) :
    (s'.pc u).holds = true ↔ (s.pc u).holds = true := by
  rcases pc_of_ne h hu with he | ⟨op, he, he'⟩
  · rw [he]
  · simp [he, he', Pc.holds]

/-- The mutex is held by the thread in the critical section. -/
lemma run_held (h : run step (init n capacity) tr = some s) :
    Held s.owner fun t => (s.pc t).holds = true := by
  refine run_stable (P := fun s => Held s.owner fun t => (s.pc t).holds = true) ?_ ?_ h
  · intro s a s' hs ha
    have hstep := step_cases ha
    have hother := fun u hu => holds_of_ne hstep (u := u) hu
    -- where the thread that acts neither locks nor unlocks
    have hkeep (hself : (s'.pc a.thread).holds = (s.pc a.thread).holds) :
        Held s.owner fun t => (s'.pc t).holds = true := by
      refine hs.congr fun u => ?_
      by_cases hu : u = a.thread
      · rw [hu, hself]
      · exact hother u hu
    cases hstep with
    | lock ho h => exact hs.lock ho (by simp [Pc.holds]) hother
    | sleep h | unlock h =>
        exact hs.unlock (by simp [Act.thread, h, Pc.holds]) (by simp [Act.thread, Pc.holds]) hother
    | call h | take h | notifyOne h | notifyNone h | notifyAll h | wake h | ret h =>
        exact hkeep (by simp [Act.thread, h, Pc.holds])
  · intro t
    simp [init, Pc.holds]

/-- **No wake-up is lost.** In every run a thread that is asleep although its predicate is true
has a wake-up to come: some thread has changed the queue and not made its notification yet, or
has been woken and not tested its predicate again. When nobody is in the critical section, some
thread is between its unlock and its notification, or on its way from its sleep to the mutex. -/
theorem exists_outstanding (h : run step (init n capacity) tr = some s) {op : Op T}
    (hs : s.pc t = .asleep op) (hop : waitsOn op = some cv) (hr : ready s.queue op = true) :
    (∃ u, (s.pc u).outstanding cv (hasSlept u tr) = true) ∧
    (s.owner = none → ∃ u, (∃ e todo, s.pc u = .notifying e todo ∧ ∃ m ∈ todo, m.cv = cv) ∨
      ∃ op', s.pc u = .woken op' ∧ waitsOn op' = some cv) := by
  have hc := run_covered h
  have hsleep : (s.pc t).asleepOn cv = true := asleepOn_iff.mpr ⟨op, hs, hop⟩
  have hmem : ∃ u, u ∈ wakers cv tr s := by
    by_cases hsd : s.queue.isShutdown = true
    · obtain ⟨u, hu⟩ := hc.shut hsd cv t hsleep
      exact ⟨u, mem_wakers.mpr (.inl ⟨_, hu, rfl⟩)⟩
    · have hpos : 0 < supply s.queue cv := ((ready_iff hop).mp hr).resolve_left hsd
      have hle := hc.supplied (by simpa using hsd) cv t hsleep
      exact Finset.card_pos.mp (hpos.trans_le hle)
  obtain ⟨u, hu⟩ := hmem
  refine ⟨⟨u, by simpa [wakers] using hu⟩, fun hfree => ⟨u, ?_⟩⟩
  have hout : (s.pc u).holds ≠ true := (run_held h).not_of_free hfree u
  rw [mem_wakers] at hu
  cases hpc : s.pc u with
  | notifying e todo =>
      left
      simpa [hpc, Pc.due, Pc.wokenOn] using hu
  | woken op' =>
      right
      simpa [hpc, Pc.due, Pc.wokenOn] using hu
  | testing op' | unlocking e => simp [hpc, Pc.holds] at hout
  | idle | locking op' | asleep op' => simp [hpc, Pc.due, Pc.wokenOn] at hu

/-- A producer has put an item into the queue a consumer waits on, and not notified it yet. -/
def unnotified : List (Act 2 ℕ) := handover.take 7

theorem exists_outstanding_unnotified : ∃ s, run step (init 2 1) unnotified = some s ∧
    s.pc 0 = .asleep .pop ∧ ready s.queue .pop = true ∧
    ∃ u, (s.pc u).outstanding .notEmpty (hasSlept u unnotified) = true := by
  have hr : run step (init 2 1) unnotified = some _ := rfl
  exact ⟨_, hr, rfl, rfl, (exists_outstanding hr (t := 0) rfl rfl rfl).1⟩

end BinanceAggregator.QueueThreads
