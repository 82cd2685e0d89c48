import Mathlib.Logic.Function.Basic
import BinanceAggregator.Queue

/-!
The bounded queue under any number of threads.

A call takes the mutex, tests the predicate it waits for and goes to sleep on its condition
variable as long as the predicate is false, which releases the mutex. Once the predicate is
true it changes the queue, releases the mutex, makes its notifications and returns. A sleeper
is woken by a notification, or for no reason at all.

Every call changes the queue at one moment between its beginning and its return. The changes,
in the order in which they are made, are a history of the queue, and what each thread called
and was given back agrees with it.
-/

namespace BinanceAggregator.QueueThreads

open Runs BoundedQueue

/-- The condition variables of a queue. -/
inductive CondVar
  | notFull
  | notEmpty
  deriving DecidableEq

inductive Notification
  | one (cv : CondVar)
  | all (cv : CondVar)

variable {T : Type}

/-- The condition variable an operation waits on. -/
def waitsOn : Op T → Option CondVar
  | .push _ => some .notFull
  | .pop => some .notEmpty
  | .shutdown => none

/-- The predicate an operation waits for. -/
def ready (q : BoundedQueue T) : Op T → Bool
  | .push _ => q.isShutdown || decide (q.items.length < q.capacity)
  | .pop => q.isShutdown || !q.items.isEmpty
  | .shutdown => true

/-- The notifications that follow the critical section. -/
def notifications : Effect T → List Notification
  | (.push _, .pushed true) => [.one .notEmpty]
  | (.pop, .popped (some _)) => [.one .notFull]
  | (.shutdown, _) => [.all .notFull, .all .notEmpty]
  | _ => []

/-- Where a thread stands. -/
inductive Pc (T : Type)
  | idle
  | locking (op : Op T)
  | testing (op : Op T)
  | asleep (op : Op T)
  | woken (op : Op T)
  | unlocking (e : Effect T)
  | notifying (e : Effect T) (todo : List Notification)

structure St (n : ℕ) (T : Type) where
  queue : BoundedQueue T
  owner : Option (Fin n)
  pc : Fin n → Pc T

/-- No call has been made. -/
def init (n capacity : ℕ) : St n T := ⟨.empty capacity, none, fun _ => .idle⟩

inductive Act (n : ℕ) (T : Type)
  | call (t : Fin n) (op : Op T)
  | lock (t : Fin n)
  | sleep (t : Fin n)
  | take (t : Fin n) (e : Effect T)
  | unlock (t : Fin n)
  | notify (t : Fin n) (sleeper : Option (Fin n))
  | wake (t : Fin n)
  | ret (t : Fin n) (e : Effect T)

variable {n : ℕ}

def St.goto (s : St n T) (t : Fin n) (pc : Pc T) : St n T :=
  { s with pc := Function.update s.pc t pc }

def Pc.asleepOn (cv : CondVar) : Pc T → Bool
  | .asleep op => waitsOn op = some cv
  | _ => false

/-- A sleeper starts to take the mutex again. -/
def Pc.wakened : Pc T → Pc T
  | .asleep op => .woken op
  | pc => pc

def St.wakeAll (s : St n T) (cv : CondVar) : St n T :=
  { s with pc := fun t => if (s.pc t).asleepOn cv then (s.pc t).wakened else s.pc t }

variable [DecidableEq T]

def step (s : St n T) : Act n T → Option (St n T)
  | .call t op => match s.pc t with
    | .idle => some (s.goto t (.locking op))
    | _ => none
  | .lock t => match s.owner, s.pc t with
    | none, .locking op => some { s.goto t (.testing op) with owner := some t }
    | none, .woken op => some { s.goto t (.testing op) with owner := some t }
    | _, _ => none
  | .sleep t => match s.pc t with
    | .testing op => if ready s.queue op then none
      else some { s.goto t (.asleep op) with owner := none }
    | _ => none
  | .take t e => match s.pc t with
    | .testing op => if op = e.1 then
        (s.queue.perform e).map fun q => { s.goto t (.unlocking e) with queue := q }
      else none
    | _ => none
  | .unlock t => match s.pc t with
    | .unlocking e => some { s.goto t (.notifying e (notifications e)) with owner := none }
    | _ => none
  | .notify t sleeper => match s.pc t, sleeper with
    | .notifying e (.one cv :: todo), some u => if (s.pc u).asleepOn cv then
        some ((s.goto u (s.pc u).wakened).goto t (.notifying e todo))
      else none
    | .notifying e (.one cv :: todo), none => if ∃ u, (s.pc u).asleepOn cv then none
      else some (s.goto t (.notifying e todo))
    | .notifying e (.all cv :: todo), none => some ((s.wakeAll cv).goto t (.notifying e todo))
    | _, _ => none
  | .wake t => match s.pc t with
    | .asleep op => some (s.goto t (.woken op))
    | _ => none
  | .ret t e => match s.pc t with
    | .notifying e' [] => if e' = e then some (s.goto t .idle) else none
    | _ => none

/-- The transitions, each with the condition under which it is made. -/
inductive Step (s : St n T) : Act n T → St n T → Prop
  | call {t : Fin n} {op : Op T} (h : s.pc t = .idle) : Step s (.call t op) (s.goto t (.locking op))
  | lock {t : Fin n} {op : Op T} (ho : s.owner = none) (h : s.pc t = .locking op ∨ s.pc t = .woken op) :
      Step s (.lock t) { s.goto t (.testing op) with owner := some t }
  | sleep {t : Fin n} {op : Op T} (h : s.pc t = .testing op) (hw : ready s.queue op = false) :
      Step s (.sleep t) { s.goto t (.asleep op) with owner := none }
  | take {t : Fin n} {e : Effect T} {q : BoundedQueue T} (h : s.pc t = .testing e.1)
      (hq : s.queue.perform e = some q) :
      Step s (.take t e) { s.goto t (.unlocking e) with queue := q }
  | unlock {t : Fin n} {e : Effect T} (h : s.pc t = .unlocking e) :
      Step s (.unlock t) { s.goto t (.notifying e (notifications e)) with owner := none }
  | notifyOne {t u : Fin n} {e : Effect T} {cv : CondVar} {todo : List Notification}
      (h : s.pc t = .notifying e (.one cv :: todo)) (hu : (s.pc u).asleepOn cv = true) :
      Step s (.notify t (some u)) ((s.goto u (s.pc u).wakened).goto t (.notifying e todo))
  | notifyNone {t : Fin n} {e : Effect T} {cv : CondVar} {todo : List Notification}
      (h : s.pc t = .notifying e (.one cv :: todo)) (hn : ∀ u, (s.pc u).asleepOn cv = false) :
      Step s (.notify t none) (s.goto t (.notifying e todo))
  | notifyAll {t : Fin n} {e : Effect T} {cv : CondVar} {todo : List Notification}
      (h : s.pc t = .notifying e (.all cv :: todo)) :
      Step s (.notify t none) ((s.wakeAll cv).goto t (.notifying e todo))
  | wake {t : Fin n} {op : Op T} (h : s.pc t = .asleep op) : Step s (.wake t) (s.goto t (.woken op))
  | ret {t : Fin n} {e : Effect T} (h : s.pc t = .notifying e []) : Step s (.ret t e) (s.goto t .idle)

lemma step_cases {s s' : St n T} {a : Act n T} (h : step s a = some s') : Step s a s' := by
  cases a with
  | call t op =>
      simp only [step] at h
      split at h <;> cases h
      exact .call ‹_›
  | lock t =>
      simp only [step] at h
      split at h <;> cases h
      · exact .lock ‹_› (.inl ‹_›)
      · exact .lock ‹_› (.inr ‹_›)
  | sleep t =>
      simp only [step] at h
      split at h
      · split_ifs at h with hr
        cases h
        exact .sleep ‹_› (by simpa using hr)
      · cases h
  | take t e =>
      simp only [step] at h
      split at h
      · split_ifs at h with he
        subst he
        obtain ⟨q, hq, rfl⟩ := Option.map_eq_some_iff.mp h
        exact .take ‹_› hq
      · cases h
  | unlock t =>
      simp only [step] at h
      split at h <;> cases h
      exact .unlock ‹_›
  | notify t sleeper =>
      simp only [step] at h
      split at h
      · split_ifs at h with hu
        cases h
        exact .notifyOne ‹_› hu
      · split_ifs at h with hn
        cases h
        exact .notifyNone ‹_› (by simpa using hn)
      · cases h
        exact .notifyAll ‹_›
      · cases h
  | wake t =>
      simp only [step] at h
      split at h <;> cases h
      exact .wake ‹_›
  | ret t e =>
      simp only [step] at h
      split at h
      · split_ifs at h with he
        subst he
        cases h
        exact .ret ‹_›
      · cases h

/-! ### Calls, changes of the queue and returns -/

def effects (tr : List (Act n T)) : List (Effect T) := tr.filterMap fun a => match a with
  | .take _ e => some e
  | _ => none

/-- The changes made by the calls of one thread. -/
def effectsBy (t : Fin n) (tr : List (Act n T)) : List (Effect T) :=
  tr.filterMap fun a => match a with
    | .take u e => if u = t then some e else none
    | _ => none

def calls (t : Fin n) (tr : List (Act n T)) : List (Op T) := tr.filterMap fun a => match a with
  | .call u op => if u = t then some op else none
  | _ => none

def returns (t : Fin n) (tr : List (Act n T)) : List (Effect T) := tr.filterMap fun a => match a with
  | .ret u e => if u = t then some e else none
  | _ => none

/-- The call of a thread that has not changed the queue yet. -/
def Pc.pending : Pc T → List (Op T)
  | .locking op | .testing op | .asleep op | .woken op => [op]
  | _ => []

/-- The call of a thread that has changed the queue and not returned yet. -/
def Pc.taken : Pc T → List (Effect T)
  | .unlocking e | .notifying e _ => [e]
  | _ => []

/-- The changes of the queue so far are a history of it, each was made on behalf of one call,
and each return gives back what the change on its behalf gave. -/
structure Linearized (capacity : ℕ) (tr : List (Act n T)) (s : St n T) : Prop where
  legal : run perform (empty capacity) (effects tr) = some s.queue
  called : ∀ t, calls t tr = (effectsBy t tr).map (·.1) ++ (s.pc t).pending
  returned : ∀ t, effectsBy t tr = returns t tr ++ (s.pc t).taken

omit [DecidableEq T] in
lemma wakened_pending (pc : Pc T) : pc.wakened.pending = pc.pending := by
  cases pc <;> rfl

omit [DecidableEq T] in
lemma wakened_taken (pc : Pc T) : pc.wakened.taken = pc.taken := by
  cases pc <;> rfl

variable {capacity : ℕ} {tr : List (Act n T)} {s s' : St n T} {a : Act n T}

/-- What a step adds to the three records of a thread. -/
structure Moves (a : Act n T) (s s' : St n T) : Prop where
  queue : run perform s.queue (effects [a]) = some s'.queue
  called : ∀ t, (s.pc t).pending ++ calls t [a] =
    (effectsBy t [a]).map (·.1) ++ (s'.pc t).pending
  returned : ∀ t, (s.pc t).taken ++ effectsBy t [a] = returns t [a] ++ (s'.pc t).taken

/-- The thread that acts. -/
def Act.thread : Act n T → Fin n
  | .call t _ | .lock t | .sleep t | .take t _ | .unlock t | .notify t _ | .wake t | .ret t _ => t

omit [DecidableEq T] in
lemma records_of_ne {t : Fin n} (h : a.thread ≠ t) :
    calls t [a] = [] ∧ effectsBy t [a] = [] ∧ returns t [a] = [] := by
  cases a <;> simp_all [Act.thread, calls, effectsBy, returns]

/-- A step of one thread that leaves the others where they are, up to waking them. -/
lemma moves_of_thread (hq : run perform s.queue (effects [a]) = some s'.queue)
    (hc : (s.pc a.thread).pending ++ calls a.thread [a] =
      (effectsBy a.thread [a]).map (·.1) ++ (s'.pc a.thread).pending)
    (hr : (s.pc a.thread).taken ++ effectsBy a.thread [a] =
      returns a.thread [a] ++ (s'.pc a.thread).taken)
    (hother : ∀ t, t ≠ a.thread → s'.pc t = s.pc t ∨ s'.pc t = (s.pc t).wakened) :
    Moves a s s' := by
  refine ⟨hq, fun t => ?_, fun t => ?_⟩
  all_goals
    by_cases ht : t = a.thread
    · subst ht
      assumption
    · obtain ⟨h1, h2, h3⟩ := records_of_ne (Ne.symm ht)
      rcases hother t ht with h | h <;> simp [h, h1, h2, h3, wakened_pending, wakened_taken]

omit [DecidableEq T] in
lemma goto_of_ne {t u : Fin n} {pc : Pc T} (h : u ≠ t) : (s.goto t pc).pc u = s.pc u :=
  Function.update_of_ne h _ _

omit [DecidableEq T] in
@[simp] lemma goto_self (t : Fin n) (pc : Pc T) : (s.goto t pc).pc t = pc :=
  Function.update_self ..

lemma step_moves (h : Step s a s') : Moves a s s' := by
  cases h with
  | call h | sleep h _ | unlock h | notifyNone h _ | wake h | ret h =>
      refine moves_of_thread rfl ?_ ?_ fun u hu => .inl (goto_of_ne hu)
      all_goals simp [Act.thread, h, calls, effectsBy, returns, Pc.pending, Pc.taken]
  | lock ho h =>
      refine moves_of_thread rfl ?_ ?_ fun u hu => .inl (goto_of_ne hu)
      all_goals
        rcases h with h | h <;>
          simp [Act.thread, h, calls, effectsBy, returns, Pc.pending, Pc.taken]
  | take h hq =>
      refine moves_of_thread (by simpa [effects] using hq) ?_ ?_ fun u hu => .inl (goto_of_ne hu)
      all_goals simp [Act.thread, h, calls, effectsBy, returns, Pc.pending, Pc.taken]
  | @notifyOne t v e cv todo h hu =>
      refine moves_of_thread rfl ?_ ?_ fun u hu => ?_
      · simp [Act.thread, h, calls, effectsBy, Pc.pending]
      · simp [Act.thread, h, effectsBy, returns, Pc.taken]
      · rw [goto_of_ne (t := t) hu]
        by_cases hv : u = v
        · subst hv
          exact .inr (goto_self u _)
        · exact .inl (goto_of_ne hv)
  | @notifyAll t e cv todo h =>
      refine moves_of_thread rfl ?_ ?_ fun u hu => ?_
      · simp [Act.thread, h, calls, effectsBy, Pc.pending]
      · simp [Act.thread, h, effectsBy, returns, Pc.taken]
      · rw [goto_of_ne (t := t) hu]
        by_cases hv : (s.pc u).asleepOn cv = true
        · exact .inr (if_pos hv)
        · exact .inl (if_neg hv)

lemma run_linearized (h : run step (init n capacity) tr = some s) : Linearized capacity tr s := by
  refine run_inv (P := Linearized capacity) ⟨rfl, fun t => rfl, fun t => rfl⟩ ?_ h
  intro tr s a s' _ hl ha
  obtain ⟨hq, hc, hr⟩ := step_moves (step_cases ha)
  refine ⟨?_, fun t => ?_, fun t => ?_⟩
  · rw [effects, List.filterMap_append, run_append, ← effects, ← effects, hl.legal]
    exact hq
  · have h1 : calls t (tr ++ [a]) = calls t tr ++ calls t [a] := List.filterMap_append
    have h2 : effectsBy t (tr ++ [a]) = effectsBy t tr ++ effectsBy t [a] := List.filterMap_append
    rw [h1, h2, hl.called t, List.append_assoc, hc t, List.map_append, List.append_assoc]
  · have h1 : effectsBy t (tr ++ [a]) = effectsBy t tr ++ effectsBy t [a] := List.filterMap_append
    have h2 : returns t (tr ++ [a]) = returns t tr ++ returns t [a] := List.filterMap_append
    rw [h1, h2, hl.returned t, List.append_assoc, hr t, List.append_assoc]

/-- A call has changed the queue before it returns. -/
lemma effect_of_ret {u v : List (Act n T)} {t : Fin n} {e : Effect T}
    (h : run step (init n capacity) (u ++ .ret t e :: v) = some s) : e ∈ effects u := by
  obtain ⟨m, m', hm, ha, -⟩ := run_split step h
  cases step_cases ha with
  | ret hpc =>
      have hby : e ∈ effectsBy t u := by
        rw [(run_linearized hm).returned t, hpc]
        simp [Pc.taken]
      simp only [effectsBy, List.mem_filterMap] at hby
      obtain ⟨b, hb, hbe⟩ := hby
      refine List.mem_filterMap.mpr ⟨b, hb, ?_⟩
      split at hbe
      · split_ifs at hbe
        exact hbe
      · cases hbe

omit [DecidableEq T] in
lemma effects_append (u v : List (Act n T)) : effects (u ++ v) = effects u ++ effects v :=
  List.filterMap_append

/-- **A linearizable bounded queue with a draining shutdown.** In every run each call changes
the queue once, between its beginning and its return, and the changes are a history of the
queue. The items accepted are the items popped followed by the contents, which never exceed the
capacity. A push returns false only after a shutdown, after which nothing is accepted, and a
pop returns nothing only after a shutdown and once everything ever accepted has been popped. -/
theorem bounded_fifo (h : run step (init n capacity) tr = some s) :
    Linearized capacity tr s ∧
    accepted (effects tr) = popped (effects tr) ++ s.queue.items ∧
    s.queue.items.length ≤ capacity ∧
    (∀ u v t x, tr = u ++ .ret t (.push x, .pushed false) :: v → Closed (effects u)) ∧
    (∀ u v, tr = u ++ v → Closed (effects u) → accepted (effects v) = []) ∧
    (∀ u v t, tr = u ++ .ret t (.pop, .popped none) :: v →
      Closed (effects u) ∧ accepted (effects tr) = popped (effects u)) := by
  have hl := run_linearized h
  have hr := run_reflects hl.legal
  refine ⟨hl, hr.fifo, hr.capacity_eq ▸ s.queue.bounded, ?_, ?_, ?_⟩
  · rintro u v t x rfl
    obtain ⟨u₁, u₂, hu⟩ := List.append_of_mem (effect_of_ret h)
    obtain ⟨m, hm, -⟩ := run_prefix step h
    have hlegal := (run_linearized hm).legal
    rw [hu] at hlegal ⊢
    exact closed_append.mpr (.inl (closed_of_refused hlegal))
  · rintro u v rfl hu
    have hlegal := hl.legal
    rw [effects_append] at hlegal
    exact accepted_of_closed hu hlegal
  · rintro u v t rfl
    obtain ⟨u₁, u₂, hu⟩ := List.append_of_mem (effect_of_ret h)
    obtain ⟨m, hm, -⟩ := run_prefix step h
    obtain ⟨hclosed, hacc, hpop⟩ := drained_of_popped_none (hu ▸ (run_linearized hm).legal)
    have hclosed' : Closed (effects u) := by
      rw [hu]
      exact closed_append.mpr (.inl hclosed)
    have hlegal := hl.legal
    rw [effects_append] at hlegal
    refine ⟨hclosed', ?_⟩
    rw [effects_append, accepted_append, accepted_of_closed hclosed' hlegal, List.append_nil, hu,
      hacc, hpop]

/-- A consumer goes to sleep, is woken by a producer and, after a shutdown, finds nothing. -/
def handover : List (Act 2 ℕ) :=
  [.call 0 .pop, .lock 0, .sleep 0,
    .call 1 (.push 7), .lock 1, .take 1 (.push 7, .pushed true), .unlock 1, .notify 1 (some 0),
    .lock 0, .take 0 (.pop, .popped (some 7)), .ret 1 (.push 7, .pushed true), .unlock 0,
    .notify 0 none, .ret 0 (.pop, .popped (some 7)),
    .call 1 .shutdown, .lock 1, .take 1 (.shutdown, .done), .unlock 1, .notify 1 none,
    .notify 1 none, .ret 1 (.shutdown, .done),
    .call 0 .pop, .lock 0, .take 0 (.pop, .popped none), .unlock 0, .ret 0 (.pop, .popped none)]

theorem bounded_fifo_handover : ∃ s, run step (init 2 1) handover = some s ∧
    Linearized 1 handover s ∧
    accepted (effects handover) = popped (effects handover) ++ s.queue.items := by
  obtain ⟨s, hs⟩ := Option.isSome_iff_exists.mp
    (show (run step (init 2 1) handover).isSome = true by decide)
  exact ⟨s, hs, (bounded_fifo hs).1, (bounded_fifo hs).2.1⟩

end BinanceAggregator.QueueThreads
