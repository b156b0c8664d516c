/-
What a failed operation leaves behind: everything as it was.  An operation that is
refused, or that is used against its conditions, has not changed the container in its
place, nor the one in the other place, whatever step of it was the one that failed.
-/
import Containers.Proofs.CapacityBounds
import Containers.Proofs.GreatestFirst
import Containers.Proofs.ServiceOrder
import Containers.Proofs.Untouched
import Containers.SortedMap

namespace Containers

/-! ### Arrays -/

namespace DynArray

variable {α υ : Type} [Element α] {P : DynArray α → Prop} {view : DynArray α → υ}

theorem untouched_set (i : Nat) (v : α) (a : DynArray α) : Untouched view a (set i v a) := by
  unfold set
  split
  · trivial
  · rfl

theorem untouched_setChecked (i : Nat) (v : α) (a : DynArray α) :
    Untouched view a (setChecked i v a) := by
  unfold setChecked
  split
  · trivial
  · rfl

theorem untouched_insert (memory : Allocator) (i : Nat) (v : α) (a : DynArray α) :
    Untouched view a (insert memory i v a) := by
  unfold insert
  split
  · rfl
  · exact (Untouched.of_attempt (insertAt_attempt memory i v a)).adaptExcept _

theorem untouched_append (memory : Allocator) (a b : DynArray α) :
    Untouched (Prod.map view view) (a, b) (append memory (a, b)) := by
  -- The second array is emptied only after the first one has taken everything in.
  have hextend := extendBy_attempt memory b.store a
  unfold append
  dsimp only
  generalize extendBy memory b.store a = result at hextend
  cases hextend with
  | done _ => trivial
  | short _ => rfl

theorem untouched_popBack (a : DynArray α) : Untouched view a (popBack a) := by
  rw [popBack_eq_elim]
  exact .of_elim _ fun hnone => congrArg view (popBack?_of_none hnone)

theorem untouched_popFront (a : DynArray α) : Untouched view a (popFront a) := by
  rw [popFront_eq_elim]
  exact .of_elim _ fun hnone => congrArg view (popFront?_of_none hnone)

theorem untouched_remove (i : Nat) (a : DynArray α) : Untouched view a (remove i a) := by
  unfold remove
  split
  · trivial
  · rfl

theorem untouched_removeChecked (i : Nat) (a : DynArray α) :
    Untouched view a (removeChecked i a) := by
  unfold removeChecked
  split
  · trivial
  · rfl

theorem Command.spares (command : Command α) (memory : Allocator) :
    (command.effect memory).Spares P view := by
  cases command with
  | new | ofParameters | ofList | ofBlock | clone => trivial
  | get | front | back => exact Effect.spares_lookAsserted _
  | getChecked => exact Effect.spares_lookChecked _
  | front? | back? => exact Effect.spares_look _
  | set i v => exact Effect.spares_asserted fun a _ => (untouched_set i v a).map _
  | setChecked i v =>
      exact Effect.spares_refusable fun a _ =>
        ((untouched_setChecked i v a).map _).adaptExcept _
  -- What always takes place never fails.
  | setFront? | setBack? | rewrite | popBack? | popFront? | clear | drain =>
      exact fun _ _ => False.elim
  | reserve capacity =>
      exact Effect.spares_refusable fun a _ =>
        (Untouched.of_attempt (reserve_attempt memory capacity a)).silently.adaptExcept _
  | pushBack v =>
      exact Effect.spares_refusable fun a _ =>
        (Untouched.of_attempt (pushBack_attempt memory v a)).silently.adaptExcept _
  | pushFront v =>
      exact Effect.spares_refusable fun a _ =>
        (Untouched.of_attempt (insertAt_attempt memory 0 v a)).silently.adaptExcept _
  | insert i v =>
      exact Effect.spares_failing fun a _ => (untouched_insert memory i v a).silently
  | extendBy more =>
      exact Effect.spares_refusable fun a _ =>
        (Untouched.of_attempt (extendBy_attempt memory more a)).silently.adaptExcept _
  | append =>
      exact Effect.spares_jointRefusable fun a b _ _ =>
        (untouched_append memory a b).silently.adaptExcept _
  | popBack => exact Effect.spares_asserted fun a _ => (untouched_popBack a).map _
  | popFront => exact Effect.spares_asserted fun a _ => (untouched_popFront a).map _
  | remove i => exact Effect.spares_asserted fun a _ => (untouched_remove i a).map _
  | removeChecked i =>
      exact Effect.spares_refusable fun a _ =>
        ((untouched_removeChecked i a).map _).adaptExcept _
  | erase i =>
      exact Effect.spares_asserted fun a _ => ((untouched_remove i a).map _).silently
  | exchange => exact fun _ _ _ _ => False.elim

end DynArray

/-! ### Sequences -/

namespace Sequence

variable {ε σ τ α : Type}

/-- Where an operation of the sequence fails, or finds nothing, the sequence stays as it
was. -/
structure Careful (σ : Type) {α : Type} [Sequence σ α] (memory : Allocator) : Prop where
  set?_of_none : ∀ i (v : α) (s : σ), (Sequence.set? i v s).1 = none →
    (Sequence.set? i v s).2 = s
  popBack?_of_empty : ∀ s : σ, Sequence.size s = 0 → (Sequence.popBack? s).2 = s
  popFront?_of_empty : ∀ s : σ, Sequence.size s = 0 → (Sequence.popFront? s).2 = s
  pushBack : ∀ (v : α) (s : σ), Untouched id s (Sequence.pushBack memory v s)
  pushFront : ∀ (v : α) (s : σ), Untouched id s (Sequence.pushFront memory v s)
  insert : ∀ i (v : α) (s : σ), Untouched id s (Sequence.insert memory i v s)
  erase : ∀ i (s : σ), Untouched id s (Sequence.erase i s)

theorem untouched_carry {β : Type} (whole : σ → τ) {s : σ} {result : EStateM.Result ε σ β}
    (h : Untouched id s result) : Untouched id (whole s) (carry whole result) := by
  cases result with
  | ok reply t => trivial
  | error error t => exact congrArg whole h

/-- A whole is careful if all that it is made of is careful. -/
theorem careful_of_embeds [Sequence τ α] {memory : Allocator}
    (h : ∀ t : τ, ∃ (σ : Type) (_ : Sequence σ α) (whole : σ → τ) (s : σ),
      Careful σ memory ∧ Embeds whole ∧ whole s = t) : Careful τ memory where
  set?_of_none i v t hnone := by
    obtain ⟨σ, _, whole, s, hcareful, hwhole, rfl⟩ := h t
    rw [hwhole.set?_eq] at hnone ⊢
    exact congrArg whole (hcareful.set?_of_none i v s hnone)
  popBack?_of_empty t hempty := by
    obtain ⟨σ, _, whole, s, hcareful, hwhole, rfl⟩ := h t
    rw [hwhole.size_eq] at hempty
    rw [hwhole.popBack?_eq]
    exact congrArg whole (hcareful.popBack?_of_empty s hempty)
  popFront?_of_empty t hempty := by
    obtain ⟨σ, _, whole, s, hcareful, hwhole, rfl⟩ := h t
    rw [hwhole.size_eq] at hempty
    rw [hwhole.popFront?_eq]
    exact congrArg whole (hcareful.popFront?_of_empty s hempty)
  pushBack v t := by
    obtain ⟨σ, _, whole, s, hcareful, hwhole, rfl⟩ := h t
    rw [hwhole.pushBack_eq]
    exact untouched_carry whole (hcareful.pushBack v s)
  pushFront v t := by
    obtain ⟨σ, _, whole, s, hcareful, hwhole, rfl⟩ := h t
    rw [hwhole.pushFront_eq]
    exact untouched_carry whole (hcareful.pushFront v s)
  insert i v t := by
    obtain ⟨σ, _, whole, s, hcareful, hwhole, rfl⟩ := h t
    rw [hwhole.insert_eq]
    exact untouched_carry whole (hcareful.insert i v s)
  erase i t := by
    obtain ⟨σ, _, whole, s, hcareful, hwhole, rfl⟩ := h t
    rw [hwhole.erase_eq]
    exact untouched_carry whole (hcareful.erase i s)

section

variable [Sequence σ α] {memory : Allocator}

theorem Careful.set (h : Careful σ memory) (i : Nat) (v : α) (s : σ) :
    Untouched id s (Sequence.set i v s) := by
  have hnone := h.set?_of_none i v s
  unfold Sequence.set
  generalize Sequence.set? i v s = result at hnone
  obtain ⟨previous?, t⟩ := result
  cases previous? with
  | some previous => trivial
  | none => exact hnone rfl

theorem Careful.spares {P : σ → Prop} (h : Careful σ memory) (command : Command α) :
    (command.effect memory : Effect σ (Reply α)).Spares P id := by
  cases command with
  | get? | front? | back? => exact Effect.spares_look _
  | set? | popBack? | popFront? | clear => exact fun _ _ => False.elim
  | set i v => exact Effect.spares_refusable fun s _ => (h.set i v s).map _
  | pushBack v => exact Effect.spares_refusable fun s _ => (h.pushBack v s).silently
  | pushFront v => exact Effect.spares_refusable fun s _ => (h.pushFront v s).silently
  | insert i v => exact Effect.spares_refusable fun s _ => (h.insert i v s).silently
  | erase i => exact Effect.spares_refusable fun s _ => (h.erase i s).map _

/-- What is seen as a list gives nothing away only if it is empty, and then it stays as
it was. -/
theorem Careful.popFront?_of_none (h : Careful σ memory) {View : σ → List α → Prop}
    (laws : Laws View) {s : σ} {xs : List α} (hs : View s xs)
    (hnone : (Sequence.popFront? s).1 = none) : (Sequence.popFront? s).2 = s := by
  rw [laws.popFront?_fst hs, List.head?_eq_none_iff] at hnone
  apply h.popFront?_of_empty
  rw [laws.size_eq hs, hnone, List.length_nil]

theorem Careful.popBack?_of_none (h : Careful σ memory) {View : σ → List α → Prop}
    (laws : Laws View) {s : σ} {xs : List α} (hs : View s xs)
    (hnone : (Sequence.popBack? s).1 = none) : (Sequence.popBack? s).2 = s := by
  rw [laws.popBack?_fst hs, List.getLast?_eq_none_iff] at hnone
  apply h.popBack?_of_empty
  rw [laws.size_eq hs, hnone, List.length_nil]

end

end Sequence

/-! ### The backends -/

section

variable {α : Type}

/-- A chain that is taken apart in vain is put together again. -/
theorem Chain.untouched_erase (i : Nat) (c : Chain α) :
    Untouched id c (erase i c) := by
  unfold erase
  split
  · rfl
  · dsimp only
    have hjoin := join_split c i
    generalize (c.split i).1 = before at hjoin
    generalize (c.split i).2 = after at hjoin
    obtain ⟨nodes⟩ := after
    cases nodes with
    | nil => exact hjoin
    | cons v rest => trivial

theorem Chain.careful (memory : Allocator) : Sequence.Careful (Chain α) memory where
  set?_of_none i v c hnone := by
    have hlength : c.nodes.length ≤ i := List.getElem?_eq_none_iff.mp hnone
    exact congrArg Chain.mk (List.set_eq_of_length_le hlength)
  popBack?_of_empty c hempty := by
    obtain rfl : c = ⟨[]⟩ := congrArg Chain.mk (List.eq_nil_of_length_eq_zero hempty)
    rfl
  popFront?_of_empty c hempty := by
    obtain rfl : c = ⟨[]⟩ := congrArg Chain.mk (List.eq_nil_of_length_eq_zero hempty)
    rfl
  pushBack _ _ := trivial
  pushFront _ _ := trivial
  insert i v c := by
    change Untouched id c (Chain.insert i v c)
    unfold Chain.insert
    split
    · rfl
    · trivial
  erase := untouched_erase

end

variable {α : Type} [Element α]

theorem DynArray.careful (memory : Allocator) : Sequence.Careful (DynArray α) memory where
  set?_of_none i v a hnone := by
    change (DynArray.set? i v a).2 = a
    change (DynArray.set? i v a).1 = none at hnone
    unfold DynArray.set? at hnone ⊢
    cases hget : a.get? i with
    | some previous => simp [hget] at hnone
    | none => rfl
  popBack?_of_empty a hempty := by
    have hnil : a.toList = [] := List.eq_nil_of_length_eq_zero (a.size_eq_length ▸ hempty)
    apply popBack?_of_none
    rw [popBack?_fst, hnil, List.getLast?_nil]
  popFront?_of_empty a hempty := by
    have hnil : a.toList = [] := List.eq_nil_of_length_eq_zero (a.size_eq_length ▸ hempty)
    apply popFront?_of_none
    rw [popFront?_fst, hnil, List.head?_nil]
  pushBack v a := (Untouched.of_attempt (pushBack_attempt memory v a)).adaptExcept _
  pushFront v a := (Untouched.of_attempt (insertAt_attempt memory 0 v a)).adaptExcept _
  insert i v a := by
    refine Untouched.adaptExcept ?_ Error.array
    unfold insertChecked
    split
    · rfl
    · exact .of_attempt (insertAt_attempt memory i v a)
  erase i a := (untouched_removeChecked i a).adaptExcept _

namespace Ring

/-- A reservation that fails is refused before anything is reserved. -/
theorem reserve_eq_error {memory : Allocator} {additional : Nat} {r s : Ring α} {error : Error}
    (h : reserve memory additional r = .error error s) : s = r := by
  unfold reserve at h
  split at h
  · exact (EStateM.Result.error.inj h).2.symm
  · split at h
    · exact (EStateM.Result.error.inj h).2.symm
    · split at h
      · contradiction
      · dsimp only at h
        split at h
        · contradiction
        · exact (EStateM.Result.error.inj h).2.symm

/-- An element is placed only after room was made for it. -/
theorem untouched_place (memory : Allocator) (place : Ring α → Ring α) (r : Ring α) :
    Untouched id r (match reserve memory 1 r with
      | .ok _ s => .ok () (place s)
      | .error error s => .error error s : EStateM.Result Error (Ring α) Unit) := by
  cases hreserve : reserve memory 1 r with
  | ok _ s => trivial
  | error error s => exact reserve_eq_error hreserve

theorem careful (memory : Allocator) : Sequence.Careful (Ring α) memory where
  set?_of_none i v r hnone := by
    change (Ring.set? i v r).2 = r
    change (Ring.set? i v r).1 = none at hnone
    unfold Ring.set? at hnone ⊢
    cases hget : r.get? i with
    | some previous => simp [hget] at hnone
    | none => rfl
  popBack?_of_empty r hempty := by
    change (Ring.popBack? r).2 = r
    exact congrArg Prod.snd (if_pos hempty)
  popFront?_of_empty r hempty := by
    change (Ring.popFront? r).2 = r
    exact congrArg Prod.snd (if_pos hempty)
  pushBack v r := untouched_place memory (fun s => s.spread.placeBack v) r
  pushFront v r := untouched_place memory (fun s => s.spread.placeFront v) r
  insert i v r := by
    change Untouched id r (Ring.insert memory i v r)
    unfold Ring.insert
    split
    · rfl
    · exact untouched_place memory (fun s => s.spread.placeAt i v) r
  erase i r := by
    change Untouched id r (Ring.erase i r)
    unfold Ring.erase
    split
    · rfl
    · trivial

end Ring

theorem Backend.careful (memory : Allocator) : Sequence.Careful (Backend α) memory :=
  Sequence.careful_of_embeds fun b => by
    cases b with
    | array a => exact ⟨_, _, array, a, DynArray.careful memory, embeds_array, rfl⟩
    | chain c => exact ⟨_, _, chain, c, Chain.careful memory, embeds_chain, rfl⟩
    | ring r => exact ⟨_, _, ring, r, Ring.careful memory, embeds_ring, rfl⟩

/-! ### Deques, queues and stacks -/

namespace Deque

theorem careful (memory : Allocator) : Sequence.Careful (Deque Plan (Backend α)) memory :=
  Sequence.careful_of_embeds fun d =>
    ⟨_, _, Deque.mk d.table, d.backend, Backend.careful memory, embeds d.table, rfl⟩

theorem Sound.popFront?_of_none {d : Deque Plan (Backend α)} (h : d.Sound)
    (hnone : (Sequence.popFront? d).1 = none) : (Sequence.popFront? d).2 = d := by
  obtain ⟨xs, hd⟩ := h
  exact (careful .addressSpace).popFront?_of_none laws hd hnone

theorem Sound.popBack?_of_none {d : Deque Plan (Backend α)} (h : d.Sound)
    (hnone : (Sequence.popBack? d).1 = none) : (Sequence.popBack? d).2 = d := by
  obtain ⟨xs, hd⟩ := h
  exact (careful .addressSpace).popBack?_of_none laws hd hnone

/-- Tables are compared before anything is exchanged. -/
theorem untouched_exchange {π σ : Type} (d e : Deque π σ) :
    Untouched id (d, e) (exchange (d, e)) := by
  unfold exchange
  dsimp only
  split
  · rfl
  · split
    · rfl
    · trivial

theorem Command.spares (command : Command Plan α) (memory : Allocator) :
    (command.effect memory).Spares (Sound (α := α)) id := by
  cases command with
  | ofTable | ofListIn => trivial
  | sequence command => exact (careful memory).spares command
  | front | back => exact Effect.spares_lookAsserted _
  | popFront =>
      refine Effect.spares_asserted fun d hd => .map ?_ _
      rw [popFront_eq_elim]
      exact .of_elim _ hd.popFront?_of_none
  | popBack =>
      refine Effect.spares_asserted fun d hd => .map ?_ _
      rw [popBack_eq_elim]
      exact .of_elim _ hd.popBack?_of_none
  | exchange =>
      refine Effect.spares_jointAsserted fun d e _ _ => ?_
      rw [Prod.map_id]
      exact (untouched_exchange d e).silently

end Deque

namespace Queue

theorem Command.spares (command : Command Plan α) (memory : Allocator) :
    (command.effect memory).Spares (Sound (α := α)) id := by
  cases command with
  | ofTable | ofListIn => trivial
  | push v =>
      refine Effect.spares_refusable fun q _ => .silently ?_
      rw [push_eq_carry]
      exact Sequence.untouched_carry mk ((Deque.careful memory).pushBack v q.deque)
  | front? | back? => exact Effect.spares_look _
  | front | back => exact Effect.spares_lookAsserted _
  | pop? => exact Effect.spares_total (Reply.optional <$> Queue.pop?)
  | clear => exact fun _ _ => False.elim
  | pop =>
      refine Effect.spares_asserted fun q hq => .map ?_ _
      rw [pop_eq_elim]
      exact .of_elim _ fun hnone => congrArg mk (hq.popFront?_of_none hnone)
  | exchange =>
      refine Effect.spares_jointAsserted fun q r _ _ => .silently ?_
      rw [Prod.map_id, exchange_eq_carry]
      exact Sequence.untouched_carry (Prod.map mk mk)
        (Deque.untouched_exchange q.deque r.deque)

end Queue

namespace Stack

theorem Command.spares (command : Command Plan α) (memory : Allocator) :
    (command.effect memory).Spares (Sound (α := α)) id := by
  cases command with
  | ofTable | ofListIn => trivial
  | push v =>
      refine Effect.spares_refusable fun s _ => .silently ?_
      rw [push_eq_carry]
      exact Sequence.untouched_carry mk ((Deque.careful memory).pushBack v s.deque)
  | top? => exact Effect.spares_look _
  | top => exact Effect.spares_lookAsserted _
  | pop? => exact Effect.spares_total (Reply.optional <$> Stack.pop?)
  | clear => exact fun _ _ => False.elim
  | pop =>
      refine Effect.spares_asserted fun s hs => .map ?_ _
      rw [pop_eq_elim]
      exact .of_elim _ fun hnone => congrArg mk (hs.popBack?_of_none hnone)
  | exchange =>
      refine Effect.spares_jointAsserted fun s t _ _ => .silently ?_
      rw [Prod.map_id, exchange_eq_carry]
      exact Sequence.untouched_carry (Prod.map mk mk)
        (Deque.untouched_exchange s.deque t.deque)

end Stack

/-! ### Priority queues -/

namespace PriorityQueue

variable {P : PriorityQueue α → Prop}

/-- All that can be read of a priority queue, besides the number of its elements. -/
structure Look (α : Type) where
  elements : List α
  capacity : Nat
  policy : Policy
  reallocations : Nat
  less : α → α → Bool

def look (q : PriorityQueue α) : Look α :=
  ⟨q.toList, q.capacity, q.heap.policy, q.heap.reallocations, q.less⟩

/-- Adds no more than one element.  More than one are added one after the other, and what
is then refused may not be the first of them. -/
def Command.IsSingle : Command α → Prop
  | pushAll _ => False
  | _ => True

/-- An empty heap is written again, but nothing of it can be read. -/
theorem look_pop?_of_none {q : PriorityQueue α} (hnone : (pop? q).1 = none) :
    (pop? q).2.look = q.look := by
  have hnil : q.toList = [] := by
    rwa [pop?_fst, List.head?_eq_none_iff] at hnone
  obtain ⟨heap, less⟩ := q
  -- The ends change places before it shows that there is nothing to take away.
  have hlist : (heap.rewrite Heap.swapEnds).toList = heap.toList := by
    change heap.toList = [] at hnil
    rw [DynArray.toList_rewrite, hnil]
    rfl
  have hback : (DynArray.popBack? (heap.rewrite Heap.swapEnds)).1 = none := by
    rw [DynArray.popBack?_fst, hlist]
    exact List.getLast?_eq_none_iff.mpr hnil
  have hrest := DynArray.popBack?_of_none hback
  unfold pop?
  dsimp only
  generalize DynArray.popBack? (heap.rewrite Heap.swapEnds) = result at hback hrest
  obtain ⟨v?, rest⟩ := result
  obtain rfl : v? = none := hback
  obtain rfl : rest = heap.rewrite Heap.swapEnds := hrest
  simp only [look, toList, hlist]
  rfl

theorem Command.spares {command : Command α} (h : command.IsSingle) (memory : Allocator) :
    (command.effect memory).Spares P look := by
  cases command with
  | new | ofList => trivial
  | push v =>
      exact Effect.spares_refusable fun q _ =>
        (Untouched.of_attempt (push_attempt memory v q)).silently
  | pushAll => contradiction
  | top? => exact Effect.spares_look _
  | top => exact Effect.spares_lookAsserted _
  | pop? => exact Effect.spares_total (Reply.optional <$> PriorityQueue.pop?)
  | drain => exact Effect.spares_total (Reply.elements <$> PriorityQueue.drain)
  | clear => exact fun _ _ => False.elim
  | pop =>
      refine Effect.spares_asserted fun q _ => .map ?_ _
      rw [pop_eq_elim]
      exact .of_elim _ look_pop?_of_none
  | exchange => exact fun _ _ _ _ => False.elim

end PriorityQueue

/-! ### Maps -/

namespace SortedMap

variable {κ ν : Type} [Element (κ × ν)] {P : SortedMap κ ν → Prop}

theorem insertAt_eq_carry (memory : Allocator) (i : Nat) (entry : κ × ν) (m : SortedMap κ ν) :
    insertAt memory i entry m =
      Sequence.carry (mk · m.less) (DynArray.insert memory i entry m.entries) := by
  unfold insertAt Sequence.carry
  dsimp only
  cases DynArray.insert memory i entry m.entries <;> rfl

theorem untouched_insertAt (memory : Allocator) (i : Nat) (entry : κ × ν) (m : SortedMap κ ν) :
    Untouched id m (insertAt memory i entry m) := by
  rw [insertAt_eq_carry]
  exact Sequence.untouched_carry (mk · m.less) (DynArray.untouched_insert memory i entry m.entries)

theorem untouched_insert (memory : Allocator) (key : κ) (value : ν) (m : SortedMap κ ν) :
    Untouched id m (insert memory key value m) := by
  unfold insert
  split
  · rfl
  · exact untouched_insertAt memory _ (key, value) m

theorem untouched_insertOrAssign (memory : Allocator) (key : κ) (value : ν)
    (m : SortedMap κ ν) : Untouched id m (insertOrAssign memory key value m) := by
  unfold insertOrAssign
  split
  · split
    · trivial
    · rfl
  · rename_i i _
    have hinsert := untouched_insertAt memory i (key, value) m
    generalize insertAt memory i (key, value) m = result at hinsert
    cases result with
    | ok _ n => trivial
    | error failure n => exact hinsert

theorem untouched_remove (key : κ) (m : SortedMap κ ν) : Untouched id m (remove key m) := by
  unfold remove
  split
  · rename_i i _
    have hremove : Untouched id m.entries (DynArray.remove i m.entries) :=
      DynArray.untouched_remove i m.entries
    dsimp only
    generalize DynArray.remove i m.entries = result at hremove
    cases result with
    | ok entry entries => trivial
    | error violation entries => exact congrArg (SortedMap.mk · m.less) hremove
  · rfl

theorem Command.spares (command : Command κ ν) (memory : Allocator) :
    (command.effect memory).Spares P id := by
  cases command with
  | new => trivial
  | insert key value =>
      exact Effect.spares_failing fun m _ => (untouched_insert memory key value m).silently
  | insertOrAssign key value =>
      exact Effect.spares_failing fun m _ => (untouched_insertOrAssign memory key value m).map _
  | set? key value => exact Effect.spares_total (Reply.optional <$> SortedMap.set? key value)
  | clear => exact fun _ _ => False.elim
  | get? => exact Effect.spares_look _
  | find => exact Effect.spares_lookChecked _
  | remove key => exact Effect.spares_failing fun m _ => (untouched_remove key m).map _
  | exchange => exact fun _ _ _ _ => False.elim

end SortedMap

/-- Whatever fails, in either place and for whatever reason, leaves what is in both places
as it was: arrays, what can stand behind a deque, a ring that is asked for room, deques,
queues, stacks, priority queues and maps, with all that they consist of.  Of a priority
queue this is said of all that can be read of it.  Elements that are added to it in one go
are added one after the other, and those before the one that is refused stay. -/
theorem failed_operations_change_nothing {κ ν : Type} [Element (κ × ν)] (place : Place)
    (memory : Allocator) :
    (∀ (w : Workspace (DynArray α)) (command : DynArray.Command α),
        w.Withstands place (command.effect memory)) ∧
      (∀ (w : Workspace (Backend α)) (command : Sequence.Command α),
        w.Withstands place (command.effect memory)) ∧
      (∀ (r s : Ring α) (additional : Nat) (error : Error),
        Ring.reserve memory additional r = .error error s → s = r) ∧
      (∀ (earlier : List (Place × Allocator × Deque.Command Plan α))
          (command : Deque.Command Plan α),
        ((Workspace.vacant : Workspace (Deque Plan (Backend α))).runEach
          Deque.Command.effect earlier).2.Withstands place (command.effect memory)) ∧
      (∀ (earlier : List (Place × Allocator × Queue.Command Plan α))
          (command : Queue.Command Plan α),
        ((Workspace.vacant : Workspace (Queue Plan (Backend α))).runEach
          Queue.Command.effect earlier).2.Withstands place (command.effect memory)) ∧
      (∀ (earlier : List (Place × Allocator × Stack.Command Plan α))
          (command : Stack.Command Plan α),
        ((Workspace.vacant : Workspace (Stack Plan (Backend α))).runEach
          Stack.Command.effect earlier).2.Withstands place (command.effect memory)) ∧
      (∀ (w : Workspace (PriorityQueue α)) (command : PriorityQueue.Command α),
        command.IsSingle → (w.perform place (command.effect memory)).1.IsFailure →
          (w.perform place (command.effect memory)).2.map PriorityQueue.look =
            w.map PriorityQueue.look) ∧
      ∀ (w : Workspace (SortedMap κ ν)) (command : SortedMap.Command κ ν),
        w.Withstands place (command.effect memory) := by
  refine ⟨fun w command => ?_, fun w command => ?_, fun r s additional error => ?_,
    fun earlier command => ?_, fun earlier command => ?_, fun earlier command => ?_,
    fun w command hsingle => ?_, fun w command => ?_⟩
  · exact Workspace.withstands_of_spares (command.spares memory) w.holds_true place
  · exact Workspace.withstands_of_spares ((Backend.careful memory).spares command)
      w.holds_true place
  · exact Ring.reserve_eq_error
  · have hsound := Deque.Command.run_sound earlier
    exact Workspace.withstands_of_spares (command.spares memory) hsound place
  · have hsound := Queue.Command.run_sound earlier
    exact Workspace.withstands_of_spares (command.spares memory) hsound place
  · have hsound := Stack.Command.run_sound earlier
    exact Workspace.withstands_of_spares (command.spares memory) hsound place
  · exact Workspace.perform_spares (PriorityQueue.Command.spares hsingle memory)
      w.holds_true place
  · exact Workspace.withstands_of_spares (command.spares memory) w.holds_true place

namespace FailedOperationsWitness

/-- Two arrays whose elements do not fit into one of them. -/
def arrays : Workspace (DynArray UInt8) :=
  (Workspace.vacant.runEach DynArray.Command.effect
    [(.first, .addressSpace, .ofList [1, 2, 3]),
      (.second, .addressSpace, .ofList [4, 5, 6, 7, 8, 9])]).2

/-- A full ring. -/
def rings : Workspace (Backend UInt8) :=
  ⟨((Ring.ofList .addressSpace [1, 2, 3, 4, 5, 6, 7, 8]).map .ring).toOption, none⟩

/-- An array and a chain, and then no memory for more. -/
def onDeques : List (Place × Allocator × Deque.Command Plan UInt8) :=
  [(.first, .addressSpace, .ofListIn .array [1, 2]), (.second, .exhausted, .ofTable .chain)]

def leftDeques : Workspace (Deque Plan (Backend UInt8)) :=
  (Workspace.vacant.runEach Deque.Command.effect onDeques).2

/-- A queue over a ring from which all has left. -/
def onQueues : List (Place × Allocator × Queue.Command Plan UInt8) :=
  [(.first, .addressSpace, .ofListIn .ring [1]), (.first, .exhausted, .pop)]

def leftQueues : Workspace (Queue Plan (Backend UInt8)) :=
  (Workspace.vacant.runEach Queue.Command.effect onQueues).2

def onStacks : List (Place × Allocator × Stack.Command Plan UInt8) :=
  [(.first, .addressSpace, .ofTable .ring), (.first, .exhausted, .push 1)]

def leftStacks : Workspace (Stack Plan (Backend UInt8)) :=
  (Workspace.vacant.runEach Stack.Command.effect onStacks).2

def emptied : Workspace (PriorityQueue UInt8) :=
  (Workspace.vacant.runEach PriorityQueue.Command.effect
    [(.first, .addressSpace, .ofList (fun a b => decide (a < b)) [2, 1]),
      (.first, .exhausted, .pop), (.first, .exhausted, .pop)]).2

def maps : Workspace (SortedMap UInt8 UInt8) :=
  (Workspace.vacant.runEach SortedMap.Command.effect
    [(.first, .addressSpace, .new fun a b => decide (a < b)),
      (.first, .addressSpace, .insert 1 10)]).2

/-- What happens to them is refused for lack of memory, or asserts what does not hold. -/
theorem failed_operations_change_nothing_of_each_kind :
    (arrays.perform .first (DynArray.Command.append.effect .exhausted)).2 = arrays ∧
      (rings.perform .first ((Sequence.Command.pushBack 2).effect .exhausted)).2 = rings ∧
      (∃ error, Ring.reserve .exhausted 1 (Ring.empty : Ring UInt8) = .error error .empty) ∧
      (leftDeques.perform .first (Deque.Command.exchange.effect .exhausted)).2 = leftDeques ∧
      (leftQueues.perform .first (Queue.Command.pop.effect .exhausted)).2 = leftQueues ∧
      (leftStacks.perform .first (Stack.Command.top.effect .exhausted)).2 = leftStacks ∧
      (emptied.perform .first (PriorityQueue.Command.pop.effect .exhausted)).2.map
          PriorityQueue.look = emptied.map PriorityQueue.look ∧
      (maps.perform .first ((SortedMap.Command.insert 1 20).effect .exhausted)).2 = maps := by
  obtain ⟨harrays, hrings, hreserve, hdeques, hqueues, hstacks, hpriority, hmaps⟩ :=
    failed_operations_change_nothing (α := UInt8) (κ := UInt8) (ν := UInt8) .first .exhausted
  refine ⟨harrays _ _ (by decide +kernel), hrings _ _ (by decide +kernel), ?_,
    hdeques onDeques _ (by decide +kernel), hqueues onQueues _ (by decide +kernel),
    hstacks onStacks _ (by decide +kernel), hpriority _ _ trivial (by decide +kernel),
    hmaps _ _ (by decide +kernel)⟩
  have hshort : ∃ error s, Ring.reserve .exhausted 1 (Ring.empty : Ring UInt8) = .error error s :=
    ⟨_, _, rfl⟩
  obtain ⟨error, s, herror⟩ := hshort
  obtain rfl := hreserve _ _ _ _ herror
  exact ⟨error, herror⟩

end FailedOperationsWitness

end Containers
