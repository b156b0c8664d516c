/-
Queues serve in order, and stacks serve the last one first.  It does not matter which
container is behind them: all that is used of it are the laws of a deque, which every
table that makes one gives it.
-/
import Containers.Proofs.Backends
import Containers.Proofs.Passages
import Containers.Queue
import Containers.Stack
import Mathlib.Data.List.Basic

namespace Containers

/-! ### Both ends -/

namespace Sequence

variable {σ α : Type} [Sequence σ α] {View : σ → List α → Prop}

theorem Laws.pops_front (h : Laws View) {s : σ} {xs : List α} (hs : View s xs) :
    Effect.Pops View FromFront xs (Sequence.popFront? s) := by
  have hfst := h.popFront?_fst hs
  have hsnd := h.popFront?_snd hs
  generalize Sequence.popFront? s = result at hfst hsnd
  obtain ⟨v?, t⟩ := result
  obtain rfl : v? = xs.head? := hfst
  cases xs with
  | nil => exact .none hsnd
  | cons v ys => exact .some hsnd rfl

theorem Laws.pops_back (h : Laws View) {s : σ} {xs : List α} (hs : View s xs) :
    Effect.Pops View FromBack xs (Sequence.popBack? s) := by
  have hfst := h.popBack?_fst hs
  have hsnd := h.popBack?_snd hs
  generalize Sequence.popBack? s = result at hfst hsnd
  obtain ⟨v?, t⟩ := result
  obtain rfl : v? = xs.getLast? := hfst
  rcases List.eq_nil_or_concat' xs with rfl | ⟨ys, v, rfl⟩
  · exact .none hsnd
  · rw [List.dropLast_concat] at hsnd
    rw [List.getLast?_concat]
    exact .some hsnd rfl

end Sequence

/-! ### Queues -/

namespace Queue

section

variable {π σ α : Type} [Sequence σ α]

theorem pop_eq_elim (q : Queue π σ) :
    pop q = (pop? q).1.elim (.error (.empty .pop .queue) (pop? q).2) (.ok · (pop? q).2) := by
  unfold pop
  rcases pop? q with ⟨_ | v, r⟩ <;> rfl

theorem push_eq_carry (memory : Allocator) (v : α) (q : Queue π σ) :
    push memory v q = Sequence.carry mk (Sequence.pushBack memory v q.deque) := by
  unfold push Sequence.carry
  dsimp only
  cases Sequence.pushBack memory v q.deque <;> rfl

theorem exchange_eq_carry (q r : Queue π σ) :
    exchange (q, r) = Sequence.carry (Prod.map mk mk) (Deque.exchange (q.deque, r.deque)) := by
  unfold exchange Sequence.carry
  dsimp only
  cases Deque.exchange (q.deque, r.deque) <;> rfl

end

variable {α : Type} [Element α]

def Shows (q : Queue Plan (Backend α)) (xs : List α) : Prop := q.deque.Shows xs

def Sound (q : Queue Plan (Backend α)) : Prop := q.deque.Sound

/-- The queue answers as the list does, and what leaves it is the first element of the
list, as long as there is one. -/
structure Agrees (q : Queue Plan (Backend α)) (xs : List α) : Prop where
  toList_eq : q.toList = xs
  size_eq : q.size = xs.length
  isEmpty_eq : q.isEmpty = xs.isEmpty
  front?_eq : q.front? = xs.head?
  back?_eq : q.back? = xs.getLast?
  front_eq : q.front = xs.head?.elim (.error (.empty .front .queue)) .ok
  back_eq : q.back = xs.getLast?.elim (.error (.empty .back .queue)) .ok
  pop?_fst : (pop? q).1 = xs.head?
  pop?_snd : (pop? q).2.toList = xs.tail
  pop_eq : pop q =
    xs.head?.elim (.error (.empty .pop .queue) (pop? q).2) (.ok · (pop? q).2)

theorem Shows.agrees {q : Queue Plan (Backend α)} {xs : List α} (h : q.Shows xs) : q.Agrees xs := by
  have laws := Deque.laws (α := α)
  have hfront : q.front? = xs.head? := laws.front?_eq h
  have hback : q.back? = xs.getLast? := laws.back?_eq h
  have hpop : (pop? q).1 = xs.head? := laws.popFront?_fst h
  refine ⟨laws.toList_eq h, laws.size_eq h, laws.isEmpty_eq h, hfront, hback, ?_, ?_, hpop,
    laws.toList_eq (laws.popFront?_snd h), hpop ▸ pop_eq_elim q⟩
  · rw [front, hfront]
    cases xs.head? <;> rfl
  · rw [back, hback]
    cases xs.getLast? <;> rfl

theorem push_attempt (memory : Allocator) (v : α) {q : Queue Plan (Backend α)} {xs : List α}
    (h : q.Shows xs) :
    Attempt Error.IsShortage q (Shows · (xs ++ [v])) (push memory v q) := by
  rw [push_eq_carry]
  refine (Sequence.attempt_carry mk (Deque.laws.pushBack_attempt h memory v)).mono ?_
  rintro _ ⟨d, rfl, hd⟩
  exact hd

theorem Shows.pops {q : Queue Plan (Backend α)} {xs : List α} (h : q.Shows xs) :
    Effect.Pops Shows FromFront xs (pop? q) :=
  (Deque.laws.pops_front h).map Queue.mk fun _ _ hd => hd

theorem Sound.pop? {q : Queue Plan (Backend α)} (h : q.Sound) : (Queue.pop? q).2.Sound := by
  obtain ⟨xs, hxs⟩ := h
  exact ⟨_, Deque.laws.popFront?_snd hxs⟩

namespace Command

/-- Adds, takes away or looks.  All other operations make a queue, empty it or exchange
two. -/
def IsService : Command Plan α → Prop
  | push _ | front? | back? | front | back | pop? | pop => True
  | _ => False

/-- What passed by an operation that ended in this way. -/
def passage? : Command Plan α → Outcome (Reply α) → Option (Passage α)
  | push v, .accepted _ => some (.entered v)
  | pop?, .returned (.optional (some v)) => some (.left v)
  | pop, .returned (.element v) => some (.left v)
  | _, _ => none

theorem serves {command : Command Plan α} (h : command.IsService) (memory : Allocator) :
    (command.effect memory).Serves Queue.Shows FromFront command.passage? := by
  cases command with
  | push v =>
      exact Effect.serves_push (fun q xs hq => push_attempt memory v hq) (fun _ => rfl)
        fun _ => rfl
  | front? | back? => exact Effect.serves_look _ fun _ => rfl
  | front | back => exact Effect.serves_lookAsserted _ fun _ => rfl
  | pop? =>
      change (Effect.total (Reply.optional <$> Queue.pop?)).Serves _ _ _
      exact Effect.serves_pop? (fun q xs hq => hq.pops) (fun _ => rfl) rfl
  | pop => exact Effect.serves_pop pop_eq_elim (fun q xs hq => hq.pops) (fun _ => rfl) rfl
  | ofTable | ofListIn | clear | exchange => contradiction

theorem keeps_sound (memory : Allocator) (command : Command Plan α) :
    (command.effect memory).Keeps (Sound (α := α)) := by
  cases command with
  | ofTable table =>
      intro q hq
      obtain ⟨d, hd, rfl⟩ := map_eq_ok hq
      exact ⟨[], Deque.shows_ofTable hd⟩
  | ofListIn table xs =>
      intro q hq
      obtain ⟨d, hd, rfl⟩ := map_eq_ok hq
      exact ⟨xs, Deque.shows_ofListIn hd⟩
  | push v =>
      exact Effect.keeps_attempt fun q ⟨xs, hq⟩ =>
        (push_attempt memory v hq).mono fun r hr => ⟨_, hr⟩
  | front? | back? => exact Effect.keeps_look _
  | front | back => exact Effect.keeps_lookAsserted _
  | pop? =>
      change (Effect.total (Reply.optional <$> Queue.pop?)).Keeps Sound
      exact Effect.keeps_total fun q hq => hq.pop?
  | pop =>
      refine Effect.keeps_asserted fun q hq => ?_
      rw [leftBy_map, pop_eq_elim, leftBy_elim]
      exact hq.pop?
  | clear =>
      intro q hq
      obtain ⟨xs, hxs⟩ := hq
      exact ⟨_, Deque.laws.clear_view hxs⟩
  | exchange =>
      refine Effect.keeps_jointAsserted fun q r hq hr => ?_
      rw [leftBy_silently, exchange_eq_carry, Sequence.leftBy_carry]
      exact Deque.Sound.exchange hq hr

theorem run_sound (operations : List (Place × Allocator × Command Plan α)) :
    (Workspace.vacant.runEach effect operations).2.Holds (Sound (α := α)) :=
  Workspace.holds_runEach fun operation _ => operation.2.2.keeps_sound operation.2.1

/-- What passes through the queue in a place by these operations. -/
def history (w : Workspace (Queue Plan (Backend α))) (place : Place)
    (operations : List (Allocator × Command Plan α)) : List (Passage α) :=
  passages passage? (operations.map Prod.snd)
    (w.runEach effect (operations.map fun operation => (place, operation))).1

end Command

/-- Whatever enters the queue `q` leaves it in the same order, behind what was there
before, and at every point the queue answers as the list of what has not left. -/
def ServesInOrder (w : Workspace (Queue Plan (Backend α))) (place : Place)
    (q : Queue Plan (Backend α)) : Prop :=
  ∀ operations : List (Allocator × Command Plan α),
    (∀ operation ∈ operations, operation.2.IsService) →
      ∃ r ∈ (w.runEach Command.effect
          (operations.map fun operation => (place, operation))).2.get place,
        r.Agrees r.toList ∧
          departures (Command.history w place operations) ++ r.toList =
            q.toList ++ arrivals (Command.history w place operations)

theorem Sound.servesInOrder {q : Queue Plan (Backend α)} (h : q.Sound)
    {w : Workspace (Queue Plan (Backend α))} {place : Place} (hq : w.get place = some q) :
    q.ServesInOrder w place := by
  intro operations hservice
  have hserves : ∀ operation ∈ operations, (operation.2.effect operation.1).Serves Shows FromFront
      operation.2.passage? := fun operation hmem =>
    operation.2.serves (hservice operation hmem) operation.1
  obtain ⟨xs, hxs⟩ : ∃ xs, q.Shows xs := h
  obtain ⟨r, ys, hr, hys, hflow⟩ := Workspace.run_flow hserves hq hxs
  have hbefore : q.Agrees xs := hxs.agrees
  have hafter : r.Agrees ys := hys.agrees
  rw [Command.history, hbefore.toList_eq]
  refine ⟨r, hr, ?_, ?_⟩
  · rwa [hafter.toList_eq]
  · rw [hafter.toList_eq]
    exact hflow.in_order

end Queue

/-! ### Stacks -/

namespace Stack

section

variable {π σ α : Type} [Sequence σ α]

theorem pop_eq_elim (s : Stack π σ) :
    pop s = (pop? s).1.elim (.error (.empty .pop .stack) (pop? s).2) (.ok · (pop? s).2) := by
  unfold pop
  rcases pop? s with ⟨_ | v, r⟩ <;> rfl

theorem push_eq_carry (memory : Allocator) (v : α) (s : Stack π σ) :
    push memory v s = Sequence.carry mk (Sequence.pushBack memory v s.deque) := by
  unfold push Sequence.carry
  dsimp only
  cases Sequence.pushBack memory v s.deque <;> rfl

theorem exchange_eq_carry (s t : Stack π σ) :
    exchange (s, t) = Sequence.carry (Prod.map mk mk) (Deque.exchange (s.deque, t.deque)) := by
  unfold exchange Sequence.carry
  dsimp only
  cases Deque.exchange (s.deque, t.deque) <;> rfl

end

variable {α : Type} [Element α]

def Shows (s : Stack Plan (Backend α)) (xs : List α) : Prop := s.deque.Shows xs

def Sound (s : Stack Plan (Backend α)) : Prop := s.deque.Sound

/-- The stack answers as the list does, and what leaves it is the last element of the
list, as long as there is one. -/
structure Agrees (s : Stack Plan (Backend α)) (xs : List α) : Prop where
  toList_eq : s.toList = xs
  size_eq : s.size = xs.length
  isEmpty_eq : s.isEmpty = xs.isEmpty
  top?_eq : s.top? = xs.getLast?
  top_eq : s.top = xs.getLast?.elim (.error (.empty .top .stack)) .ok
  pop?_fst : (pop? s).1 = xs.getLast?
  pop?_snd : (pop? s).2.toList = xs.dropLast
  pop_eq : pop s =
    xs.getLast?.elim (.error (.empty .pop .stack) (pop? s).2) (.ok · (pop? s).2)

theorem Shows.agrees {s : Stack Plan (Backend α)} {xs : List α} (h : s.Shows xs) : s.Agrees xs := by
  have laws := Deque.laws (α := α)
  have htop : s.top? = xs.getLast? := laws.back?_eq h
  have hpop : (pop? s).1 = xs.getLast? := laws.popBack?_fst h
  refine ⟨laws.toList_eq h, laws.size_eq h, laws.isEmpty_eq h, htop, ?_, hpop,
    laws.toList_eq (laws.popBack?_snd h), hpop ▸ pop_eq_elim s⟩
  rw [top, htop]
  cases xs.getLast? <;> rfl

theorem push_attempt (memory : Allocator) (v : α) {s : Stack Plan (Backend α)} {xs : List α}
    (h : s.Shows xs) :
    Attempt Error.IsShortage s (Shows · (xs ++ [v])) (push memory v s) := by
  rw [push_eq_carry]
  refine (Sequence.attempt_carry mk (Deque.laws.pushBack_attempt h memory v)).mono ?_
  rintro _ ⟨d, rfl, hd⟩
  exact hd

theorem Shows.pops {s : Stack Plan (Backend α)} {xs : List α} (h : s.Shows xs) :
    Effect.Pops Shows FromBack xs (pop? s) :=
  (Deque.laws.pops_back h).map Stack.mk fun _ _ hd => hd

theorem Sound.pop? {s : Stack Plan (Backend α)} (h : s.Sound) : (Stack.pop? s).2.Sound := by
  obtain ⟨xs, hxs⟩ := h
  exact ⟨_, Deque.laws.popBack?_snd hxs⟩

namespace Command

/-- Adds, takes away or looks.  All other operations make a stack, empty it or exchange
two. -/
def IsService : Command Plan α → Prop
  | push _ | top? | top | pop? | pop => True
  | _ => False

/-- What passed by an operation that ended in this way. -/
def passage? : Command Plan α → Outcome (Reply α) → Option (Passage α)
  | push v, .accepted _ => some (.entered v)
  | pop?, .returned (.optional (some v)) => some (.left v)
  | pop, .returned (.element v) => some (.left v)
  | _, _ => none

theorem serves {command : Command Plan α} (h : command.IsService) (memory : Allocator) :
    (command.effect memory).Serves Stack.Shows FromBack command.passage? := by
  cases command with
  | push v =>
      exact Effect.serves_push (fun s xs hs => push_attempt memory v hs) (fun _ => rfl)
        fun _ => rfl
  | top? => exact Effect.serves_look _ fun _ => rfl
  | top => exact Effect.serves_lookAsserted _ fun _ => rfl
  | pop? =>
      change (Effect.total (Reply.optional <$> Stack.pop?)).Serves _ _ _
      exact Effect.serves_pop? (fun s xs hs => hs.pops) (fun _ => rfl) rfl
  | pop => exact Effect.serves_pop pop_eq_elim (fun s xs hs => hs.pops) (fun _ => rfl) rfl
  | ofTable | ofListIn | clear | exchange => contradiction

theorem keeps_sound (memory : Allocator) (command : Command Plan α) :
    (command.effect memory).Keeps (Sound (α := α)) := by
  cases command with
  | ofTable table =>
      intro s hs
      obtain ⟨d, hd, rfl⟩ := map_eq_ok hs
      exact ⟨[], Deque.shows_ofTable hd⟩
  | ofListIn table xs =>
      intro s hs
      obtain ⟨d, hd, rfl⟩ := map_eq_ok hs
      exact ⟨xs, Deque.shows_ofListIn hd⟩
  | push v =>
      exact Effect.keeps_attempt fun s ⟨xs, hs⟩ =>
        (push_attempt memory v hs).mono fun r hr => ⟨_, hr⟩
  | top? => exact Effect.keeps_look _
  | top => exact Effect.keeps_lookAsserted _
  | pop? =>
      change (Effect.total (Reply.optional <$> Stack.pop?)).Keeps Sound
      exact Effect.keeps_total fun s hs => hs.pop?
  | pop =>
      refine Effect.keeps_asserted fun s hs => ?_
      rw [leftBy_map, pop_eq_elim, leftBy_elim]
      exact hs.pop?
  | clear =>
      intro s hs
      obtain ⟨xs, hxs⟩ := hs
      exact ⟨_, Deque.laws.clear_view hxs⟩
  | exchange =>
      refine Effect.keeps_jointAsserted fun s t hs ht => ?_
      rw [leftBy_silently, exchange_eq_carry, Sequence.leftBy_carry]
      exact Deque.Sound.exchange hs ht

theorem run_sound (operations : List (Place × Allocator × Command Plan α)) :
    (Workspace.vacant.runEach effect operations).2.Holds (Sound (α := α)) :=
  Workspace.holds_runEach fun operation _ => operation.2.2.keeps_sound operation.2.1

/-- What passes through the stack in a place by these operations. -/
def history (w : Workspace (Stack Plan (Backend α))) (place : Place)
    (operations : List (Allocator × Command Plan α)) : List (Passage α) :=
  passages passage? (operations.map Prod.snd)
    (w.runEach effect (operations.map fun operation => (place, operation))).1

end Command

/-- Whatever leaves the stack `s` is what entered last and has not left since, and so is
whatever is there, from the top on.  At every point the stack answers as the list of what
has not left.  As long as nothing is taken away that was there before, it stays. -/
def ServesLastFirst (w : Workspace (Stack Plan (Backend α))) (place : Place)
    (s : Stack Plan (Backend α)) : Prop :=
  ∀ operations : List (Allocator × Command Plan α),
    (∀ operation ∈ operations, operation.2.IsService) →
      ∃ r ∈ (w.runEach Command.effect
          (operations.map fun operation => (place, operation))).2.get place,
        r.Agrees r.toList ∧
          (∀ before v after,
            Command.history w place operations = before ++ .left v :: after →
              lastUnpopped? s.toList 0 before.reverse = some v) ∧
          (∀ i, r.toList.reverse[i]? =
            lastUnpopped? s.toList i (Command.history w place operations).reverse) ∧
          ((∀ n, (departures ((Command.history w place operations).take n)).length ≤
            (arrivals ((Command.history w place operations).take n)).length) →
              s.toList <+: r.toList)

theorem Sound.servesLastFirst {s : Stack Plan (Backend α)} (h : s.Sound)
    {w : Workspace (Stack Plan (Backend α))} {place : Place} (hs : w.get place = some s) :
    s.ServesLastFirst w place := by
  intro operations hservice
  have hserves : ∀ operation ∈ operations, (operation.2.effect operation.1).Serves Shows FromBack
      operation.2.passage? := fun operation hmem =>
    operation.2.serves (hservice operation hmem) operation.1
  obtain ⟨xs, hxs⟩ : ∃ xs, s.Shows xs := h
  obtain ⟨r, ys, hr, hys, hflow⟩ := Workspace.run_flow hserves hs hxs
  have hbefore : s.Agrees xs := hxs.agrees
  have hafter : r.Agrees ys := hys.agrees
  rw [Command.history, hbefore.toList_eq]
  refine ⟨r, hr, ?_, fun before v after hhistory => ?_, fun i => ?_, fun habove => ?_⟩
  · rwa [hafter.toList_eq]
  · exact Flow.left_eq_lastUnpopped? (hhistory ▸ hflow)
  · rw [hafter.toList_eq]
    exact (hflow.lastUnpopped?_eq i).symm
  · rw [hafter.toList_eq]
    exact hflow.keeps_below List.prefix_rfl fun n => Nat.add_le_add_left (habove n) _

end Stack

/-- Every queue and every stack that a run leaves behind serves in its order, whatever
container is behind it, whether it was made by its own table or came by an exchange, and
whether or not memory is lacking on the way. -/
theorem run_serves_in_order {α : Type} [Element α]
    (onQueues : List (Place × Allocator × Queue.Command Plan α))
    (onStacks : List (Place × Allocator × Stack.Command Plan α)) (place : Place) :
    let leftQueues : Workspace (Queue Plan (Backend α)) :=
      (Workspace.vacant.runEach Queue.Command.effect onQueues).2
    let leftStacks : Workspace (Stack Plan (Backend α)) :=
      (Workspace.vacant.runEach Stack.Command.effect onStacks).2
    (∀ q ∈ leftQueues.get place, q.ServesInOrder leftQueues place) ∧
      ∀ s ∈ leftStacks.get place, s.ServesLastFirst leftStacks place := by
  intro leftQueues leftStacks
  constructor
  · intro q hq
    have hsound : q.Sound := Queue.Command.run_sound onQueues place q hq
    exact hsound.servesInOrder hq
  · intro s hs
    have hsound : s.Sound := Stack.Command.run_sound onStacks place s hs
    exact hsound.servesLastFirst hs

namespace ServiceOrderWitness

/-- A queue over a ring, with two elements. -/
def onQueues : List (Place × Allocator × Queue.Command Plan UInt8) :=
  [(.first, .addressSpace, .ofTable .ring), (.first, .addressSpace, .push 1),
    (.first, .exhausted, .push 2)]

def leftQueues : Workspace (Queue Plan (Backend UInt8)) :=
  (Workspace.vacant.runEach Queue.Command.effect onQueues).2

def queued : List (Allocator × Queue.Command Plan UInt8) :=
  [(.exhausted, .pop), (.exhausted, .push 3), (.exhausted, .front?), (.exhausted, .pop?),
    (.addressSpace, .push 4), (.exhausted, .pop)]

/-- A stack over an array, with four elements, so that it is full. -/
def onStacks : List (Place × Allocator × Stack.Command Plan UInt8) :=
  [(.first, .addressSpace, .ofListIn .array [1, 2, 3, 4])]

def leftStacks : Workspace (Stack Plan (Backend UInt8)) :=
  (Workspace.vacant.runEach Stack.Command.effect onStacks).2

def stacked : List (Allocator × Stack.Command Plan UInt8) :=
  [(.exhausted, .push 0), (.addressSpace, .push 5), (.exhausted, .top), (.exhausted, .pop?),
    (.exhausted, .push 6)]

/-- Three elements leave the queue, and one stays; one does not find room in the stack, one
comes to it and leaves it before another one comes. -/
theorem run_serves_in_order_interleaved :
    (∃ q ∈ leftQueues.first, ∃ r ∈ (leftQueues.runEach Queue.Command.effect
          (queued.map fun operation => (.first, operation))).2.first,
        q.toList = [1, 2] ∧ [1, 2, 3] ++ r.toList = q.toList ++ [3, 4]) ∧
      ∃ s ∈ leftStacks.first, ∃ r ∈ (leftStacks.runEach Stack.Command.effect
            (stacked.map fun operation => (.first, operation))).2.first,
          s.toList = [1, 2, 3, 4] ∧ s.toList <+: r.toList ∧ r.toList.reverse[0]? = some 6 := by
  have hqueue : leftQueues.first.map Queue.toList = some [1, 2] := by decide +kernel
  have hpassed : Queue.Command.history leftQueues .first queued =
      [.left 1, .entered 3, .left 2, .entered 4, .left 3] := by decide +kernel
  have hstack : leftStacks.first.map Stack.toList = some [1, 2, 3, 4] := by decide +kernel
  have hpushed : Stack.Command.history leftStacks .first stacked =
      [.entered 5, .left 5, .entered 6] := by decide +kernel
  rw [Option.map_eq_some_iff] at hqueue hstack
  obtain ⟨q, hq, hlistQ⟩ := hqueue
  obtain ⟨s, hs, hlistS⟩ := hstack
  have hserves : (∀ q ∈ leftQueues.get .first, q.ServesInOrder leftQueues .first) ∧
      ∀ s ∈ leftStacks.get .first, s.ServesLastFirst leftStacks .first :=
    run_serves_in_order onQueues onStacks .first
  obtain ⟨hfirst, hlast⟩ := hserves
  constructor
  · obtain ⟨r, hr, -, horder⟩ := hfirst q hq queued (by simp [queued, Queue.Command.IsService])
    rw [hpassed] at horder
    exact ⟨q, hq, r, hr, hlistQ, horder⟩
  · obtain ⟨r, hr, -, -, htop, hbelow⟩ :=
      hlast s hs stacked (by simp [stacked, Stack.Command.IsService])
    rw [hpushed] at htop hbelow
    refine ⟨s, hs, r, hr, hlistS, hbelow fun n => ?_, htop 0⟩
    match n with
    | 0 | 1 | 2 | n + 3 => simp [List.take]

end ServiceOrderWitness

end Containers
