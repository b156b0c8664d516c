/-
The keys of a sorted map go up strictly, in whatever order they came in and
whichever predicate the map was given in an exchange.  So the entries are read in
ascending order, no two of them share a class of keys, and there are as many of them
as classes.
-/
import Containers.Proofs.FiniteMap
import Mathlib.Data.Finset.Card

namespace Containers

/-! ### Reading from the front -/

namespace Cursor

variable {σ α : Type} [Storage σ α]

/-- Reading on from the front hands out all that is left, and then nothing. -/
theorem moves_next (store : σ) {front left : Nat} (h : front + left = Storage.size store) :
    (⟨store, front, Storage.size store⟩ : Cursor σ).moves (List.replicate (left + 1) .next) =
      ((Storage.toList store).drop front).map (fun a => .element (some a)) ++
        [.element none] := by
  have hlength : (Storage.toList store).length = front + left :=
    (h.trans (Storage.size_eq_length store)).symm
  induction left generalizing front with
  | zero =>
      have hend : (Storage.toList store).drop front = [] := List.drop_of_length_le (by omega)
      rw [← h, hend]
      simp [moves, move, next]
  | succ left ih =>
      have hlt : front < Storage.size store := by omega
      have hrest := @ih (front + 1) (by omega) (by omega)
      rw [List.drop_eq_getElem_cons (by omega), List.replicate_succ, List.map_cons,
        List.cons_append, ← hrest]
      simp only [moves, move, next, if_pos hlt, Storage.get?_eq_getElem?]
      rw [List.getElem?_eq_getElem (by omega)]

end Cursor

namespace SortedMap

variable {κ ν : Type} {less : κ → κ → Bool}

/-! ### Ascending entries -/

theorem Ascending.less_of_lt {entries : List (κ × ν)} (h : Ascending less entries) {i j : Nat}
    {e f : κ × ν} (hij : i < j) (hi : entries[i]? = some e) (hj : entries[j]? = some f) :
    less e.1 f.1 = true := by
  obtain ⟨hilt, rfl⟩ := List.getElem?_eq_some_iff.mp hi
  obtain ⟨hjlt, rfl⟩ := List.getElem?_eq_some_iff.mp hj
  exact List.pairwise_iff_getElem.mp h i j hilt hjlt hij

theorem Ascending.not_tied {entries : List (κ × ν)} (h : Ascending less entries) {i j : Nat}
    {e f : κ × ν} (hij : i ≠ j) (hi : entries[i]? = some e) (hj : entries[j]? = some f) :
    ¬ Tied less e.1 f.1 := by
  rintro ⟨hef, hfe⟩
  rcases Nat.lt_or_gt_of_ne hij with hlt | hgt
  · simp [h.less_of_lt hlt hi hj] at hef
  · simp [h.less_of_lt hgt hj hi] at hfe

/-- Keys in ascending order are in different classes. -/
theorem Ascending.nodup_classes (hweak : WeakOrder less) {entries : List (κ × ν)}
    (h : Ascending less entries) : (entries.map fun e => hweak.classOf e.1).Nodup := by
  rw [List.Nodup, List.pairwise_map]
  refine h.imp ?_
  intro e f hless heq
  have htied : Tied less e.1 f.1 := hweak.classOf_eq_iff.mp heq
  simp [htied.1] at hless

variable [Element (κ × ν)]

theorem Proper.size_eq_card {m : SortedMap κ ν} (h : m.Proper) :
    m.size = (m.toList.map fun e => h.weak.classOf e.1).toFinset.card := by
  have hsize : m.size = m.toList.length := DynArray.size_eq_length m.entries
  rw [List.toFinset_card_of_nodup (h.ascending.nodup_classes h.weak), List.length_map, hsize]

/-- The entries are read in the order in which they are kept. -/
theorem moves_cursor (m : SortedMap κ ν) :
    m.cursor.moves (List.replicate (m.size + 1) .next) =
      m.toList.map (fun e => .element (some e)) ++ [.element none] :=
  Cursor.moves_next m.entries.store (Nat.zero_add m.size)

/-- Every map that a run leaves behind has its keys in strictly ascending order of the
predicate that it now holds, whatever predicates that order the maps of the run were
made with.  It is read in that order, no two of its keys are tied, and its size is the
number of classes of its keys. -/
theorem run_keeps_ascending (operations : List (Place × Allocator × Command κ ν))
    (horders : ∀ operation ∈ operations, operation.2.2.Orders) (place : Place)
    (m : SortedMap κ ν)
    (hm : m ∈ (Workspace.vacant.runEach Command.effect operations).2.get place) :
    (∀ (i j : Nat) (e f : κ × ν), i < j → m.toList[i]? = some e → m.toList[j]? = some f →
        m.less e.1 f.1 = true) ∧
      m.cursor.moves (List.replicate (m.size + 1) .next) =
        m.toList.map (fun e => .element (some e)) ++ [.element none] ∧
      (∀ (i j : Nat) (e f : κ × ν), i ≠ j → m.toList[i]? = some e → m.toList[j]? = some f →
        ¬ Tied m.less e.1 f.1) ∧
      ∃ hweak : WeakOrder m.less,
        m.size = (m.toList.map fun e => hweak.classOf e.1).toFinset.card := by
  have hproper : m.Proper := run_proper operations horders place m hm
  refine ⟨?_, moves_cursor m, ?_, hproper.weak, hproper.size_eq_card⟩
  · intro i j e f hij hi hj
    exact hproper.ascending.less_of_lt hij hi hj
  · intro i j e f hij hi hj
    exact hproper.ascending.not_tied hij hi hj

namespace AscendingKeysWitness

/-- How far a key is from one hundred. -/
def distance (key : UInt8) : Nat := (100 - key.toNat) + (key.toNat - 100)

/-- A map by size and one by distance change places after keys that only one of them
tells apart; a refused key, an overwritten value and a removal follow.  A third map is
refused when memory has run out. -/
def operations : List (Place × Allocator × Command UInt8 UInt8) :=
  [(.first, .addressSpace, .new (lessBy UInt8.toNat)),
    (.second, .addressSpace, .new (lessBy distance)), (.first, .addressSpace, .insert 110 1),
    (.first, .addressSpace, .insert 90 2), (.first, .addressSpace, .insert 100 3),
    (.second, .addressSpace, .insert 110 4), (.second, .addressSpace, .insert 90 5),
    (.second, .exhausted, .insertOrAssign 90 6), (.second, .exhausted, .insert 99 7),
    (.first, .exhausted, .new (lessBy distance)), (.first, .exhausted, .exchange),
    (.first, .exhausted, .insert 5 8), (.first, .exhausted, .set? 101 9),
    (.first, .exhausted, .remove 50)]

theorem operations_order : ∀ operation ∈ operations, operation.2.2.Orders := by
  simp [operations, Command.Orders, weakOrder_lessBy]

def left : Option (SortedMap UInt8 UInt8) :=
  (Workspace.vacant.runEach Command.effect operations).2.get .first

theorem run_keeps_ascending_exchanged :
    ∃ m ∈ left, m.toList = [(99, 9), (110, 6), (5, 8)] ∧ m.less 110 5 = true ∧
      ¬ Tied m.less 99 5 ∧ ∃ hweak : WeakOrder m.less,
        m.size = (m.toList.map fun e => hweak.classOf e.1).toFinset.card := by
  have hsome : left.isSome = true := by decide +kernel
  obtain ⟨m, hm⟩ := Option.isSome_iff_exists.mp hsome
  have hlist : left.map toList = some [(99, 9), (110, 6), (5, 8)] := by decide +kernel
  rw [hm, Option.map_some, Option.some_inj] at hlist
  obtain ⟨hascending, -, happart, hsize⟩ :=
    run_keeps_ascending operations operations_order .first m hm
  have hless : m.less 110 5 = true :=
    hascending 1 2 (110, 6) (5, 8) (by decide) (by simp [hlist]) (by simp [hlist])
  have hnot : ¬ Tied m.less 99 5 :=
    happart 0 2 (99, 9) (5, 8) (by decide) (by simp [hlist]) (by simp [hlist])
  exact ⟨m, hm, hlist, hless, hnot, hsize⟩

end AscendingKeysWitness

end SortedMap

end Containers
