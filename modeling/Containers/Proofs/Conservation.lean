/-
Elements are neither lost nor made up.  What two arrays hold at the end of a run, with
all that was given away, dropped or overwritten in it, is what they held at the
beginning with all that was put in.
-/
import Containers.Proofs.Contents
import Mathlib.Algebra.Order.Group.Multiset

namespace Containers

/-! ### Elements of lists -/

section Lists

variable {α : Type} (xs : List α) (i : Nat) (v : α)

theorem coe_eraseIdx_add : (↑(xs.eraseIdx i) + ↑xs[i]?.toList : Multiset α) = ↑xs := by
  cases hget : xs[i]? with
  | none => simp [List.eraseIdx_of_length_le (List.getElem?_eq_none_iff.mp hget)]
  | some v =>
      obtain ⟨hi, rfl⟩ := List.getElem?_eq_some_iff.mp hget
      rw [add_comm]
      exact Multiset.coe_eq_coe.mpr (List.getElem_cons_eraseIdx_perm hi)

theorem coe_insertIdx (h : i ≤ xs.length) :
    (↑(xs.insertIdx i v) : Multiset α) = ↑xs + ↑[v] := by
  rw [add_comm]
  exact Multiset.coe_eq_coe.mpr (List.perm_insertIdx v xs h)

/-- What is overwritten makes room for as much. -/
theorem coe_set_add : (↑(xs.set i v) + ↑xs[i]?.toList : Multiset α) =
    ↑xs + (↑xs[i]?.toList : Multiset α).map fun _ => v := by
  cases hget : xs[i]? with
  | none => simp [List.set_eq_of_length_le (List.getElem?_eq_none_iff.mp hget)]
  | some previous =>
      have hi : i < xs.length := (List.getElem?_eq_some_iff.mp hget).1
      have hset : (↑(xs.set i v) : Multiset α) = ↑[v] + ↑(xs.eraseIdx i) :=
        Multiset.coe_eq_coe.mpr (List.set_perm_cons_eraseIdx hi v)
      have herase := coe_eraseIdx_add xs i
      rw [hget] at herase
      rw [hset, add_assoc, herase, add_comm]
      rfl

theorem coe_dropLast_add : (↑xs.dropLast + ↑xs.getLast?.toList : Multiset α) = ↑xs := by
  cases hlast : xs.getLast? with
  | none => simp [List.getLast?_eq_none_iff.mp hlast]
  | some last =>
      obtain ⟨before, rfl⟩ := List.getLast?_eq_some_iff.mp hlast
      rw [List.dropLast_concat, Multiset.coe_add]
      rfl

theorem coe_tail_add : (↑xs.tail + ↑xs.head?.toList : Multiset α) = ↑xs := by
  cases xs with
  | nil => rfl
  | cons first rest =>
      rw [add_comm]
      rfl

end Lists

/-! ### What moves -/

namespace Outcome

variable {α : Type}

/-- Only an operation that takes place moves anything. -/
def moved (f : Reply α → List α) : Outcome (Reply α) → Multiset α
  | returned reply | accepted reply => ↑(f reply)
  | refused _ | violated _ | vacant => 0

@[simp] theorem moved_nil (outcome : Outcome (Reply α)) : outcome.moved (fun _ => []) = 0 := by
  cases outcome <;> rfl

@[simp] theorem moved_held_asserted (violation : Violation) (v? : Option α) :
    (asserted violation (v?.map .element)).moved Reply.held = ↑v?.toList := by
  cases v? <;> rfl

@[simp] theorem moved_held_checked (error : Error) (v? : Option α) :
    (checked error (v?.map .element)).moved Reply.held = ↑v?.toList := by
  cases v? <;> rfl

@[simp] theorem moved_held_optional (v? : Option α) :
    (returned (.optional v?)).moved Reply.held = ↑v?.toList := rfl

@[simp] theorem moved_map_held (f : α → α) (outcome : Outcome (Reply α)) :
    outcome.moved (fun reply => reply.held.map f) = (outcome.moved Reply.held).map f := by
  cases outcome <;> simp [moved]

end Outcome

/-- What a place contributes; a vacant one contributes nothing. -/
def contents {α : Type} : Option (List α) → List α
  | some xs => xs
  | none => []

@[simp] theorem contents_some {α : Type} (xs : List α) : contents (some xs) = xs := rfl

@[simp] theorem contents_none {α : Type} : contents (none : Option (List α)) = [] := rfl

namespace DynArray

variable {α : Type} [Element α]

/-- What an operation puts in that ends with the given reply.  A copy counts as put in,
and an overwriting value does if there was something to overwrite. -/
def Command.putIn (here : List α) (reply : Reply α) : Command α → List α
  | ofList xs | ofBlock xs => xs
  | clone => here
  | set _ v | setChecked _ v | setFront? v | setBack? v => reply.held.map fun _ => v
  | rewrite f => (f here.toArray).val.toList
  | pushBack v | pushFront v | insert _ v => [v]
  | extendBy more => Storage.toList more
  | new | ofParameters _ | get _ | getChecked _ | front | back | front? | back? | reserve _
  | append | popBack | popFront | popBack? | popFront? | remove _ | removeChecked _ | erase _
  | clear | drain | exchange => []

/-- What an operation gives away, drops or overwrites that ends with the given reply.  An
array that is replaced by a new one drops its elements. -/
def Command.givenOut (here other : List α) (reply : Reply α) : Command α → List α
  | new | ofParameters _ | ofList _ | ofBlock _ | rewrite _ | clear => here
  | clone => other
  | erase i => here[i]?.toList
  | set _ _ | setChecked _ _ | setFront? _ | setBack? _ | popBack | popFront | popBack?
  | popFront? | remove _ | removeChecked _ | drain => reply.held
  | get _ | getChecked _ | front | back | front? | back? | reserve _ | pushBack _ | pushFront _
  | insert _ _ | extendBy _ | append | exchange => []

/-- The elements in both places are, with what was given out, those from before with
what was put in. -/
def Balanced (command : Command α) (here other : Option (List α))
    (result : Outcome (Reply α) × Option (List α) × Option (List α)) : Prop :=
  (↑(contents result.2.1) + ↑(contents result.2.2) : Multiset α) +
      result.1.moved (fun reply => command.givenOut (contents here) (contents other) reply) =
    ↑(contents here) + ↑(contents other) +
      result.1.moved (fun reply => command.putIn (contents here) reply)

/-- An operation that does not take place, and changes nothing. -/
theorem balanced_of_same {command : Command α} {here other : Option (List α)}
    {result : Outcome (Reply α) × Option (List α) × Option (List α)}
    (hsame : result.2 = (here, other)) (hmoved : ∀ f, result.1.moved f = 0) :
    Balanced command here other result := by
  simp [Balanced, hsame, hmoved]

theorem balanced_of_work {command : Command α}
    {change : List α → Outcome (Reply α) × List α} (hwork : command.onLists = .work change)
    (h : ∀ xs ys, ↑(change xs).2 + (change xs).1.moved (fun reply => command.givenOut xs ys reply) =
      ↑xs + (change xs).1.moved (fun reply => command.putIn xs reply))
    (here other : Option (List α)) :
    Balanced command here other (Workspace.step here other command.onLists) := by
  rw [hwork]
  cases here with
  | none => exact balanced_of_same rfl fun _ => rfl
  | some xs =>
      have hxs := h xs (contents other)
      simp only [Balanced, Workspace.step, contents_some]
      rw [add_right_comm, hxs, add_right_comm]

/-- A new array drops what was in its place. -/
theorem balanced_of_make {command : Command α} {xs : List α}
    (hmake : command.onLists = .make (.ok xs) .nothing)
    (hin : ∀ here, command.putIn here .nothing = xs)
    (hout : ∀ here other, command.givenOut here other .nothing = here)
    (here other : Option (List α)) :
    Balanced command here other (Workspace.step here other command.onLists) := by
  rw [hmake]
  simp only [Balanced, Workspace.step, Outcome.moved, contents_some, hin, hout]
  ac_rfl

theorem Command.balanced (command : Command α) (here other : Option (List α)) :
    Balanced command here other (Workspace.step here other command.onLists) := by
  cases command with
  | new => exact balanced_of_make rfl (fun _ => rfl) (fun _ _ => rfl) here other
  | ofParameters parameters =>
      cases hpolicy : Policy.ofParameters parameters with
      | ok policy =>
          have hmake : (ofParameters parameters : Command α).onLists = .make (.ok []) .nothing := by
            simp [onLists, hpolicy]
          exact balanced_of_make hmake (fun _ => rfl) (fun _ _ => rfl) here other
      | error fault =>
          simp only [onLists, hpolicy]
          exact balanced_of_same rfl fun _ => rfl
  | ofList xs | ofBlock xs => exact balanced_of_make rfl (fun _ => rfl) (fun _ _ => rfl) here other
  | clone =>
      cases here with
      | none => exact balanced_of_same rfl fun _ => rfl
      | some xs =>
          simp only [Balanced, onLists, Workspace.step, Outcome.moved, contents_some, givenOut,
            putIn]
          ac_rfl
  | append | exchange =>
      cases here with
      | none => exact balanced_of_same rfl fun _ => rfl
      | some xs =>
          cases other with
          | none => exact balanced_of_same rfl fun _ => rfl
          | some ys =>
              simp [Balanced, onLists, Workspace.step, givenOut, putIn, List.perm_append_comm]
  | get _ | getChecked _ | front | back | front? | back? | reserve _ =>
      apply balanced_of_work rfl
      intro xs ys
      simp only [givenOut, putIn, Outcome.moved_nil]
  | set i v | setChecked i v =>
      apply balanced_of_work rfl
      intro xs ys
      simpa only [givenOut, putIn, Outcome.moved_map_held, Outcome.moved_held_asserted,
        Outcome.moved_held_checked] using coe_set_add xs i v
  | setFront? v =>
      apply balanced_of_work rfl
      intro xs ys
      simpa only [givenOut, putIn, Outcome.moved_map_held, Outcome.moved_held_optional,
        List.head?_eq_getElem?] using coe_set_add xs 0 v
  | setBack? v =>
      apply balanced_of_work rfl
      intro xs ys
      simpa only [givenOut, putIn, Outcome.moved_map_held, Outcome.moved_held_optional,
        List.getLast?_eq_getElem?] using coe_set_add xs (xs.length - 1) v
  | rewrite f =>
      apply balanced_of_work rfl
      intro xs ys
      exact add_comm _ _
  | pushBack v =>
      apply balanced_of_work rfl
      intro xs ys
      exact (add_zero _).trans (Multiset.coe_add xs [v]).symm
  | pushFront v =>
      apply balanced_of_work rfl
      intro xs ys
      exact (add_zero _).trans (add_comm (↑[v] : Multiset α) ↑xs)
  | extendBy more =>
      apply balanced_of_work rfl
      intro xs ys
      exact (add_zero _).trans (Multiset.coe_add xs (Storage.toList more)).symm
  | insert i v =>
      apply balanced_of_work rfl
      intro xs ys
      by_cases hi : i ≤ xs.length
      · simp only [if_pos hi, givenOut, putIn, Outcome.moved_nil, add_zero]
        exact coe_insertIdx xs i v hi
      · simp only [if_neg hi, Outcome.moved]
  | popBack | popBack? =>
      apply balanced_of_work rfl
      intro xs ys
      simpa only [givenOut, putIn, Outcome.moved_nil, Outcome.moved_held_asserted,
        Outcome.moved_held_optional, add_zero] using coe_dropLast_add xs
  | popFront | popFront? =>
      apply balanced_of_work rfl
      intro xs ys
      simpa only [givenOut, putIn, Outcome.moved_nil, Outcome.moved_held_asserted,
        Outcome.moved_held_optional, add_zero] using coe_tail_add xs
  | remove i | removeChecked i =>
      apply balanced_of_work rfl
      intro xs ys
      simpa only [givenOut, putIn, Outcome.moved_nil, Outcome.moved_held_asserted,
        Outcome.moved_held_checked, add_zero] using coe_eraseIdx_add xs i
  | erase i =>
      apply balanced_of_work rfl
      intro xs ys
      have herase := coe_eraseIdx_add xs i
      cases hget : xs[i]? with
      | none => simpa [hget, Outcome.asserted, Outcome.moved] using herase
      | some v => simpa [hget, givenOut, putIn, Outcome.asserted, Outcome.moved] using herase
  | clear | drain =>
      apply balanced_of_work rfl
      intro xs ys
      exact add_comm _ _

/-! ### Runs -/

/-- The same of arrays: an operation that lacks memory moves nothing. -/
theorem Command.balanced_effect (memory : Allocator) (command : Command α)
    (here other : Option (DynArray α)) :
    Balanced command (here.map toList) (other.map toList)
      ((Workspace.step here other (command.effect memory)).1,
        (Workspace.step here other (command.effect memory)).2.1.map toList,
        (Workspace.step here other (command.effect memory)).2.2.map toList) := by
  have hstep := command.actsOn memory here other _ _ (rel_toList_iff.mpr rfl)
    (rel_toList_iff.mpr rfl)
  generalize Workspace.step here other (command.effect memory) = result at hstep
  obtain ⟨outcome, left, left'⟩ := result
  rcases hstep with htogether | ⟨hshort, hsame⟩
  · have hbalanced := command.balanced (here.map toList) (other.map toList)
    obtain ⟨houtcome, hleft, hleft'⟩ := htogether
    rw [rel_toList_iff] at hleft hleft'
    rwa [houtcome.eq, hleft, hleft']
  · obtain ⟨rfl, rfl⟩ := Prod.mk.inj hsame
    apply balanced_of_same rfl
    intro f
    cases outcome with
    | refused error => rfl
    | returned | accepted | violated | vacant => exact hshort.elim

/-- The elements in both places. -/
def heldIn (w : Workspace (DynArray α)) : Multiset α :=
  ↑(contents (w.first.map toList)) + ↑(contents (w.second.map toList))

/-- All that the operations of a run put in, and all that they gave away, dropped or
overwrote. -/
def Command.ledger :
    Workspace (DynArray α) → List (Place × Allocator × Command α) → Multiset α × Multiset α
  | _, [] => (0, 0)
  | w, (place, memory, command) :: rest =>
    let here := contents ((w.get place).map toList)
    let other := contents ((w.getOther place).map toList)
    let (outcome, left) := w.perform place (command.effect memory)
    let (later, laterOut) := ledger left rest
    (outcome.moved (fun reply => command.putIn here reply) + later,
      outcome.moved (fun reply => command.givenOut here other reply) + laterOut)

theorem heldIn_eq (w : Workspace (DynArray α)) (place : Place) :
    heldIn w = ↑(contents ((w.get place).map toList)) +
      ↑(contents ((w.getOther place).map toList)) := by
  cases place with
  | first => rfl
  | second => exact add_comm _ _

theorem run_balanced (w : Workspace (DynArray α))
    (operations : List (Place × Allocator × Command α)) :
    heldIn (w.runEach Command.effect operations).2 + (Command.ledger w operations).2 =
      heldIn w + (Command.ledger w operations).1 := by
  induction operations generalizing w with
  | nil => rfl
  | cons operation rest ih =>
      obtain ⟨place, memory, command⟩ := operation
      have hfirst := command.balanced_effect memory (w.get place) (w.getOther place)
      obtain ⟨houtcome, hleft, hleft'⟩ := Workspace.perform_eq w place (command.effect memory)
      rw [← houtcome, ← hleft, ← hleft', Balanced, ← heldIn_eq, ← heldIn_eq] at hfirst
      simp only [Workspace.runEach, List.map_cons, Workspace.run, Command.ledger]
      generalize w.perform place (command.effect memory) = performed at hfirst ⊢
      have hrest := ih performed.2
      simp only [Workspace.runEach] at hrest
      rw [← add_assoc, add_right_comm, hrest, add_right_comm, hfirst, add_assoc]

/-- Every run of operations on two arrays in which none lacks memory has the outcomes that
it has on the plain lists of their elements, and leaves the elements that it leaves there,
whatever the policies and the capacities are.  Whether or not memory is lacking, all that
the arrays hold and all that they gave away, dropped or overwrote is what they held at first
and what was put in.  Each operation finds memory of its own, and a run may end after any
step. -/
theorem run_keeps_elements (w : Workspace (DynArray α))
    (operations : List (Place × Allocator × Command α)) :
    ((∀ outcome ∈ (w.runEach Command.effect operations).1, ¬ outcome.IsShortage) →
      let commands := operations.map fun operation => (operation.1, operation.2.2)
      (w.runEach Command.effect operations).1 = (Command.runOnLists (w.map toList) commands).1 ∧
        (w.runEach Command.effect operations).2.map toList =
          (Command.runOnLists (w.map toList) commands).2) ∧
      heldIn (w.runEach Command.effect operations).2 + (Command.ledger w operations).2 =
        heldIn w + (Command.ledger w operations).1 :=
  ⟨run_onLists, run_balanced w operations⟩

namespace ConservationWitness

/-- One and a half, one quarter and two. -/
def byHalf : Policy.Parameters := ⟨⟨0x3ff8000000000000⟩, ⟨0x3fd0000000000000⟩, 2⟩

/-- No block is granted that takes more than eight bytes. -/
def scarce : Allocator := .upTo 8

/-- Two arrays of different policies that grow, change places and are appended; one of them
is then replaced by a copy of the other.  What needs no memory finds little of it. -/
def operations : List (Place × Allocator × Command UInt8) :=
  [(.first, .addressSpace, .ofParameters byHalf),
    (.second, .addressSpace, .ofList [1, 2, 3, 4, 5]), (.first, .addressSpace, .pushBack 6),
    (.first, .addressSpace, .pushFront 7), (.first, .addressSpace, .insert 1 8),
    (.second, scarce, .set 4 9), (.second, scarce, .erase 0), (.first, scarce, .exchange),
    (.second, .addressSpace, .append), (.second, scarce, .popFront?),
    (.second, scarce, .remove 6), (.first, scarce, .pushBack 1),
    (.second, .addressSpace, .clone), (.first, scarce, .drain)]

/-- What is left of them. -/
def left : Workspace (DynArray UInt8) :=
  (Workspace.vacant.runEach Command.effect operations).2

theorem run_keeps_elements_across_places :
    (∀ outcome ∈ (Workspace.vacant.runEach Command.effect operations).1, ¬ outcome.IsShortage) ∧
      left.map toList =
        (Command.runOnLists .vacant
          (operations.map fun operation => (operation.1, operation.2.2))).2 ∧
      (Command.ledger .vacant operations).1 =
        heldIn left + (Command.ledger .vacant operations).2 ∧
      heldIn left = {8, 6, 2, 3, 4, 9} := by
  have hmemory : ∀ outcome ∈ (Workspace.vacant.runEach Command.effect operations).1,
      ¬ outcome.IsShortage := by decide +kernel
  obtain ⟨hlists, hbalanced⟩ := run_keeps_elements .vacant operations
  have hnothing : heldIn (.vacant : Workspace (DynArray UInt8)) = 0 := rfl
  rw [hnothing, zero_add] at hbalanced
  exact ⟨hmemory, (hlists hmemory).2, hbalanced.symm, by decide +kernel⟩

end ConservationWitness

end DynArray

end Containers
