import BinanceAggregator.Runs

/-!
The bounded queue between two stages, one operation at a time.

An operation that has to wait does nothing here; it has a result as soon as the predicate it
waits for holds. The histories of the queue are the sequences of operations with the results
they had, and the laws of a first-in first-out queue are laws about histories.
-/

namespace BinanceAggregator

open Runs

/-- `BoundedQueue<T>`: a queue never holds more than its capacity. -/
@[ext] structure BoundedQueue (T : Type) where
  capacity : ℕ
  items : List T := []
  isShutdown : Bool := false
  bounded : items.length ≤ capacity

namespace BoundedQueue

variable {T : Type}

/-- A queue as it is constructed. -/
def empty (capacity : ℕ) : BoundedQueue T := { capacity, bounded := Nat.zero_le _ }

/-- `push`, with what it returns; `none` while it waits. -/
def push (q : BoundedQueue T) (item : T) : Option (Bool × BoundedQueue T) :=
  if q.isShutdown then some (false, q)
  else if h : q.items.length < q.capacity then
    some (true, { q with items := q.items ++ [item], bounded := by simpa using Nat.succ_le_of_lt h })
  else none

/-- `pop`, with what it returns; `none` while it waits. -/
def pop : BoundedQueue T → Option (Option T × BoundedQueue T)
  | ⟨capacity, item :: items, isShutdown, h⟩ =>
    some (some item, ⟨capacity, items, isShutdown, Nat.le_of_succ_le h⟩)
  | q@⟨_, [], isShutdown, _⟩ => if isShutdown then some (none, q) else none

def shutdown (q : BoundedQueue T) : BoundedQueue T := { q with isShutdown := true }

/-- What a push that does not wait has done. -/
lemma push_eq_some {q q' : BoundedQueue T} {x : T} {ok : Bool} (h : q.push x = some (ok, q')) :
    q'.capacity = q.capacity ∧ q'.isShutdown = q.isShutdown ∧ q.isShutdown = !ok ∧
      q'.items = if ok then q.items ++ [x] else q.items := by
  unfold push at h
  split_ifs at h with hs hc
  · cases h
    simp [hs]
  · cases h
    simpa using hs

/-- What a pop that does not wait has done. -/
lemma pop_eq_some {q q' : BoundedQueue T} {x : Option T} (h : q.pop = some (x, q')) :
    q'.capacity = q.capacity ∧ q'.isShutdown = q.isShutdown ∧ q.items = x.toList ++ q'.items ∧
      (x = none → q.isShutdown = true ∧ q.items = []) := by
  obtain ⟨capacity, _ | ⟨y, ys⟩, isShutdown, hb⟩ := q
  · simp only [pop] at h
    split_ifs at h with hs
    cases h
    simpa using hs
  · cases h
    simp

lemma push_isSome_iff (q : BoundedQueue T) (x : T) :
    (q.push x).isSome ↔ q.isShutdown = true ∨ q.items.length < q.capacity := by
  unfold push
  split_ifs <;> simp_all

/-- A push waits only for an item to be popped. -/
lemma items_ne_nil_of_push {q : BoundedQueue T} {x : T} (h : q.push x = none)
    (hcap : 1 ≤ q.capacity) : q.items ≠ [] := by
  have hfull := (push_isSome_iff q x).not.mp (by simp [h])
  intro hnil
  refine hfull (.inr ?_)
  rw [hnil]
  exact hcap

lemma pop_isSome_iff (q : BoundedQueue T) : q.pop.isSome ↔ q.isShutdown = true ∨ q.items ≠ [] := by
  obtain ⟨capacity, _ | ⟨y, ys⟩, isShutdown, hb⟩ := q <;> simp [pop]

/-! ### Operations and histories -/

inductive Op (T : Type)
  | push (item : T)
  | pop
  | shutdown
  deriving DecidableEq

inductive Res (T : Type)
  | pushed (ok : Bool)
  | popped (item : Option T)
  | done
  deriving DecidableEq

/-- One operation; `none` while it waits. -/
def exec (q : BoundedQueue T) : Op T → Option (Res T × BoundedQueue T)
  | .push item => (q.push item).map fun r => (.pushed r.1, r.2)
  | .pop => q.pop.map fun r => (.popped r.1, r.2)
  | .shutdown => some (.done, q.shutdown)

/-- An operation with the result it had. -/
abbrev Effect (T : Type) := Op T × Res T

/-- The items whose push was accepted. -/
def accepted (h : List (Effect T)) : List T := h.filterMap fun e => match e with
  | (.push x, .pushed true) => some x
  | _ => none

/-- The items that were popped. -/
def popped (h : List (Effect T)) : List T := h.filterMap fun e => match e with
  | (.pop, .popped x) => x
  | _ => none

/-- The queue was shut down. -/
def Closed (h : List (Effect T)) : Prop := (.shutdown, .done) ∈ h

@[simp] lemma accepted_append (h k : List (Effect T)) :
    accepted (h ++ k) = accepted h ++ accepted k := List.filterMap_append

@[simp] lemma popped_append (h k : List (Effect T)) : popped (h ++ k) = popped h ++ popped k :=
  List.filterMap_append

lemma closed_append {h k : List (Effect T)} : Closed (h ++ k) ↔ Closed h ∨ Closed k :=
  List.mem_append

variable [DecidableEq T]

/-- The queue as a machine whose actions are operations with their results. -/
def perform (q : BoundedQueue T) (e : Effect T) : Option (BoundedQueue T) :=
  match q.exec e.1 with
  | some (res, q') => if res = e.2 then some q' else none
  | none => none

lemma perform_eq_some {q q' : BoundedQueue T} {op : Op T} {res : Res T} :
    q.perform (op, res) = some q' ↔ q.exec op = some (res, q') := by
  unfold perform
  rcases q.exec op with _ | ⟨r, q''⟩
  · simp
  · by_cases hr : r = res <;> simp [hr]

/-- What the history says of the queue it leads to. -/
structure Reflects (capacity : ℕ) (h : List (Effect T)) (q : BoundedQueue T) : Prop where
  capacity_eq : q.capacity = capacity
  fifo : accepted h = popped h ++ q.items
  closed : q.isShutdown = true ↔ Closed h

lemma perform_reflects {capacity : ℕ} {h : List (Effect T)} {q q' : BoundedQueue T} {e : Effect T}
    (hr : Reflects capacity h q) (he : q.perform e = some q') :
    Reflects capacity (h ++ [e]) q' := by
  obtain ⟨op, res⟩ := e
  obtain ⟨hcap, hfifo, hclosed⟩ := hr
  rw [perform_eq_some] at he
  cases op with
  | push x =>
      simp only [exec, Option.map_eq_some_iff, Prod.mk.injEq, Prod.exists] at he
      obtain ⟨ok, q'', hp, rfl, rfl⟩ := he
      obtain ⟨h1, h2, h3, h4⟩ := push_eq_some hp
      refine ⟨h1.trans hcap, ?_, by simpa [h2, closed_append, Closed] using hclosed⟩
      rw [accepted_append, popped_append, hfifo, h4]
      cases ok <;> simp [accepted, popped]
  | pop =>
      simp only [exec, Option.map_eq_some_iff, Prod.mk.injEq, Prod.exists] at he
      obtain ⟨x, q'', hp, rfl, rfl⟩ := he
      obtain ⟨h1, h2, h3, -⟩ := pop_eq_some hp
      refine ⟨h1.trans hcap, ?_, by simpa [h2, closed_append, Closed] using hclosed⟩
      rw [accepted_append, popped_append, hfifo, h3]
      cases x <;> simp [accepted, popped]
  | shutdown =>
      simp only [exec, Option.some.injEq, Prod.mk.injEq] at he
      obtain ⟨rfl, rfl⟩ := he
      refine ⟨hcap, ?_, by simp [shutdown, Closed]⟩
      simpa [accepted, popped, shutdown] using hfifo

/-- **First in, first out**: in every history the accepted items are the popped ones followed by
the contents. -/
theorem run_reflects {capacity : ℕ} {h : List (Effect T)} {q : BoundedQueue T}
    (hq : run perform (empty capacity) h = some q) : Reflects capacity h q :=
  run_inv (P := Reflects capacity) ⟨rfl, rfl, by simp [empty, Closed]⟩
    (fun _ hr he => perform_reflects hr he) hq

variable {capacity : ℕ} {u v : List (Effect T)} {q : BoundedQueue T}

/-- A push is refused only after a shutdown. -/
lemma closed_of_refused {x : T}
    (hq : run perform (empty capacity) (u ++ (.push x, .pushed false) :: v) = some q) :
    Closed u := by
  obtain ⟨m, m', hm, he, -⟩ := run_split perform hq
  rw [perform_eq_some] at he
  simp only [exec, Option.map_eq_some_iff, Prod.mk.injEq, Prod.exists, Res.pushed.injEq] at he
  obtain ⟨ok, q', hp, rfl, -⟩ := he
  exact (run_reflects hm).closed.mp (push_eq_some hp).2.2.1

/-- Nothing is accepted after a shutdown. -/
lemma accepted_of_closed (hu : Closed u) (hq : run perform (empty capacity) (u ++ v) = some q) :
    accepted v = [] := by
  induction v using List.reverseRecOn generalizing q with
  | nil => rfl
  | append_singleton v e ih =>
      rw [← List.append_assoc] at hq
      obtain ⟨m, hm, he⟩ := (run_snoc perform).mp hq
      rw [accepted_append, ih hm, List.nil_append]
      have hshut : m.isShutdown = true := (run_reflects hm).closed.mpr (closed_append.mpr (.inl hu))
      obtain ⟨op, res⟩ := e
      rw [perform_eq_some] at he
      cases op with
      | push x =>
          simp only [exec, Option.map_eq_some_iff, Prod.mk.injEq, Prod.exists] at he
          obtain ⟨ok, q'', hp, rfl, -⟩ := he
          have hok := (push_eq_some hp).2.2.1
          rw [hshut] at hok
          cases ok
          · rfl
          · cases hok
      | pop => rfl
      | shutdown => rfl

/-- A pop finds nothing only after a shutdown and once all that is ever accepted is popped. -/
lemma drained_of_popped_none
    (hq : run perform (empty capacity) (u ++ (.pop, .popped none) :: v) = some q) :
    Closed u ∧ accepted (u ++ (.pop, .popped none) :: v) = popped u ∧
      popped (u ++ (.pop, .popped none) :: v) = popped u := by
  obtain ⟨m, m', hm, he, -⟩ := run_split perform hq
  rw [perform_eq_some] at he
  simp only [exec, Option.map_eq_some_iff, Prod.mk.injEq, Prod.exists, Res.popped.injEq] at he
  obtain ⟨x, q', hp, rfl, -⟩ := he
  obtain ⟨hs, hitems⟩ := (pop_eq_some hp).2.2.2 rfl
  have hr := run_reflects hm
  have hclosed : Closed u := hr.closed.mp hs
  have haccepted : accepted (u ++ (.pop, .popped none) :: v) = popped u := by
    rw [accepted_append, accepted_of_closed hclosed hq, hr.fifo, hitems, List.append_nil,
      List.append_nil]
  refine ⟨hclosed, haccepted, ?_⟩
  -- What is popped is a prefix of what is accepted, and the pops before were all of it.
  have hall := (run_reflects hq).fifo
  rw [haccepted, popped_append, List.append_assoc, List.self_eq_append_right,
    List.append_eq_nil_iff] at hall
  rw [popped_append, hall.1, List.append_nil]

end BoundedQueue

end BinanceAggregator
