/-
A ring, read through the list that it shows.  What lies so many steps after the head
is all that the operations move; which slot that is, is settled by the first few
lemmas.
-/
import Containers.Sequence.Ring
import Containers.Proofs.Run

namespace Containers

namespace Ring

variable {α : Type}

/-! ### Slots -/

theorem position_lt {r : Ring α} {i : Nat} (hhead : r.head < r.slots.size)
    (hi : i < r.slots.size) : r.position i < r.slots.size := by
  unfold position
  split <;> omega

theorem eq_of_position_eq {r : Ring α} {i j : Nat} (hi : i < r.slots.size)
    (hj : j < r.slots.size) (h : r.position i = r.position j) : i = j := by
  unfold position at h
  split at h <;> split at h <;> omega

theorem position_one_lt {r : Ring α} (hhead : r.head < r.slots.size) :
    r.position 1 < r.slots.size := by
  unfold position
  split <;> omega

/-- From the next slot on, everything is one step nearer. -/
theorem read_next {r s : Ring α} (hslots : s.slots = r.slots) (hhead : r.head < r.slots.size)
    (hnext : s.head = r.position 1) {i : Nat} (hi : i + 1 < r.slots.size) :
    s.read i = r.read (i + 1) := by
  have hpos : s.position i = r.position (i + 1) := by
    unfold position at hnext ⊢
    rw [hslots, hnext]
    split <;> split <;> split <;> omega
  unfold read
  rw [hpos, hslots]

@[simp] theorem head_write (r : Ring α) (i : Nat) (content : Option α) :
    (r.write i content).head = r.head := rfl

@[simp] theorem size_write (r : Ring α) (i : Nat) (content : Option α) :
    (r.write i content).size = r.size := rfl

@[simp] theorem size_slots_write (r : Ring α) (i : Nat) (content : Option α) :
    (r.write i content).slots.size = r.slots.size :=
  Array.size_setIfInBounds

@[simp] theorem position_write (r : Ring α) (i j : Nat) (content : Option α) :
    (r.write i content).position j = r.position j := by
  unfold position
  rw [head_write, size_slots_write]

/-- Steps that are less than the number of slots lead to different slots. -/
theorem read_write {r : Ring α} {i j : Nat} (content : Option α) (hhead : r.head < r.slots.size)
    (hi : i < r.slots.size) (hj : j < r.slots.size) :
    (r.write i content).read j = if j = i then content else r.read j := by
  have hpos : r.position i < r.slots.size := position_lt hhead hi
  unfold read
  rw [position_write]
  change ((r.slots.setIfInBounds (r.position i) content)[r.position j]?).join = _
  split
  · rename_i heq
    rw [heq, Array.getElem?_setIfInBounds_self_of_lt hpos, Option.join_some]
  · rename_i hne
    rw [Array.getElem?_setIfInBounds_ne fun heq => hne (eq_of_position_eq hi hj heq).symm]

/-! ### Lists -/

/-- The elements of a list lie one behind the other from the head on. -/
structure Shows (r : Ring α) (xs : List α) : Prop where
  size_eq : r.size = xs.length
  size_le : r.size ≤ r.slots.size
  head_lt : 0 < r.slots.size → r.head < r.slots.size
  read_eq : ∀ i < xs.length, r.read i = xs[i]?

namespace Shows

variable {r : Ring α} {xs : List α}

theorem get?_eq (h : r.Shows xs) (i : Nat) : r.get? i = xs[i]? := by
  unfold get?
  rw [h.size_eq]
  split
  · rename_i hi
    exact h.read_eq i hi
  · rename_i hi
    rw [List.getElem?_eq_none (Nat.le_of_not_lt hi)]

theorem toList_eq (h : r.Shows xs) : r.toList = xs := by
  unfold toList
  rw [h.size_eq, funext h.get?_eq]
  clear h
  induction xs with
  | nil => rfl
  | cons x xs ih =>
      rw [List.length_cons, List.range_succ_eq_map, List.filterMap_cons, List.filterMap_map]
      exact congrArg (x :: ·) ih

theorem set (h : r.Shows xs) {i : Nat} (v : α) (hi : i < xs.length) :
    (r.write i (some v)).Shows (xs.set i v) := by
  have hsize := h.size_eq
  have hle := h.size_le
  have hhead : r.head < r.slots.size := h.head_lt (by omega)
  constructor
  · simpa using hsize
  · simpa using hle
  · simpa using fun _ => hhead
  · intro j hj
    rw [List.length_set] at hj
    rw [read_write (some v) hhead (by omega) (by omega), List.getElem?_set]
    by_cases heq : j = i
    · rw [if_pos heq, if_pos heq.symm, if_pos hi]
    · rw [if_neg heq, if_neg (Ne.symm heq), h.read_eq j hj]

end Shows

theorem shows_nil {r : Ring α} (h : r.slots = #[]) (hsize : r.size = 0) : r.Shows [] where
  size_eq := hsize
  size_le := by omega
  head_lt := by simp [h]
  read_eq := by simp

/-- A list, and a free slot for one more element. -/
structure Roomy (r : Ring α) (xs : List α) : Prop extends Shows r xs where
  size_lt : r.size < r.slots.size

theorem Roomy.head_lt_size {r : Ring α} {xs : List α} (h : r.Roomy xs) : r.head < r.slots.size :=
  h.head_lt (Nat.zero_lt_of_lt h.size_lt)

/-! ### The ends -/

theorem Roomy.placeBack {r : Ring α} {xs : List α} (h : r.Roomy xs) (v : α) :
    (r.placeBack v).Shows (xs ++ [v]) := by
  have hsize := h.size_eq
  have hlt := h.size_lt
  constructor
  · simpa [Ring.placeBack] using hsize
  · simpa [Ring.placeBack] using Nat.succ_le_of_lt hlt
  · simpa [Ring.placeBack] using fun _ => h.head_lt_size
  · intro i hi
    rw [List.length_append, List.length_singleton] at hi
    change (r.write r.size (some v)).read i = _
    rw [read_write (some v) h.head_lt_size hlt (by omega)]
    split
    · rename_i heq
      rw [heq, hsize, List.getElem?_concat_length]
    · rename_i hne
      rw [List.getElem?_append_left (by omega), h.read_eq i (by omega)]

/-- The new head is one step in front of the old one. -/
theorem Roomy.placeFront {r : Ring α} {xs : List α} (h : r.Roomy xs) (v : α) :
    (r.placeFront v).Shows (v :: xs) := by
  have hsize := h.size_eq
  have hlt := h.size_lt
  have hhead := h.head_lt_size
  unfold Ring.placeFront
  dsimp only
  generalize hturned : ({ r with
    head := if r.head = 0 then r.slots.size - 1 else r.head - 1, size := r.size + 1 } : Ring α) =
      turned
  -- The ring with its head moved still has to be filled; its next slot is the old head.
  have hslots : r.slots = turned.slots := by rw [← hturned]
  have hsize' : turned.size = r.size + 1 := by rw [← hturned]
  have hhead' : turned.head < turned.slots.size := by
    rw [← hturned]
    dsimp only
    split <;> omega
  have hnext : r.head = turned.position 1 := by
    rw [← hturned]
    unfold position
    dsimp only
    split <;> split <;> omega
  rw [hslots] at hlt
  constructor
  · rw [size_write, hsize', hsize, List.length_cons]
  · rw [size_write, size_slots_write, hsize']
    exact hlt
  · rw [head_write, size_slots_write]
    exact fun _ => hhead'
  · intro i hi
    rw [List.length_cons] at hi
    rw [read_write (some v) hhead' (by omega) (by omega)]
    cases i with
    | zero => rfl
    | succ i =>
        rw [if_neg (Nat.succ_ne_zero i), List.getElem?_cons_succ,
          ← read_next hslots hhead' hnext (by omega), h.read_eq i (by omega)]

theorem Shows.popBack? {r : Ring α} {xs : List α} (h : r.Shows xs) :
    (Ring.popBack? r).1 = xs.getLast? ∧ (Ring.popBack? r).2.Shows xs.dropLast := by
  have hsize := h.size_eq
  have hle := h.size_le
  unfold Ring.popBack?
  split
  · rename_i hzero
    obtain rfl : xs = [] := List.eq_nil_of_length_eq_zero (by omega)
    exact ⟨rfl, h⟩
  · rename_i hpos
    have hhead : r.head < r.slots.size := h.head_lt (by omega)
    constructor
    · rw [List.getLast?_eq_getElem?, ← hsize, h.read_eq _ (by omega)]
    · constructor
      · simpa using congrArg (· - 1) hsize
      · simpa using Nat.le_trans (Nat.sub_le _ 1) hle
      · simpa using fun _ => hhead
      · intro i hi
        rw [List.length_dropLast] at hi
        change (r.write (r.size - 1) none).read i = _
        rw [read_write none hhead (by omega) (by omega), if_neg (by omega),
          List.getElem?_dropLast, if_pos hi, h.read_eq i (by omega)]

theorem Shows.popFront? {r : Ring α} {xs : List α} (h : r.Shows xs) :
    (Ring.popFront? r).1 = xs.head? ∧ (Ring.popFront? r).2.Shows xs.tail := by
  have hsize := h.size_eq
  have hle := h.size_le
  unfold Ring.popFront?
  split
  · rename_i hzero
    obtain rfl : xs = [] := List.eq_nil_of_length_eq_zero (by omega)
    exact ⟨rfl, h⟩
  · rename_i hpos
    have hhead : r.head < r.slots.size := h.head_lt (by omega)
    constructor
    · rw [List.head?_eq_getElem?, h.read_eq 0 (by omega)]
    · constructor
      · simpa using congrArg (· - 1) hsize
      · simpa using Nat.le_trans (Nat.sub_le _ 1) hle
      · simpa using fun _ => position_one_lt hhead
      · intro i hi
        rw [List.length_tail] at hi
        have hshort : i + 1 < r.slots.size := by omega
        have hnext := read_next (r := r.write 0 none)
          (s := { r.write 0 none with head := r.position 1, size := r.size - 1 }) rfl
          (by simpa using hhead) (position_write r 0 1 none).symm (by simpa using hshort)
        rw [read_write none hhead (by omega) hshort, if_neg (Nat.succ_ne_zero i),
          h.read_eq (i + 1) (by omega)] at hnext
        rw [List.getElem?_tail]
        exact hnext

/-! ### The middle -/

/-- What moving elements about leaves alone. -/
structure SameFrame (r s : Ring α) : Prop where
  head_eq : s.head = r.head
  size_eq : s.size = r.size
  slots_size_eq : s.slots.size = r.slots.size

theorem sameFrame_write (r : Ring α) (i : Nat) (content : Option α) :
    SameFrame r (r.write i content) :=
  ⟨head_write r i content, size_write r i content, size_slots_write r i content⟩

theorem SameFrame.trans {r s t : Ring α} (h : SameFrame r s) (h' : SameFrame s t) :
    SameFrame r t :=
  ⟨h'.head_eq.trans h.head_eq, h'.size_eq.trans h.size_eq, h'.slots_size_eq.trans h.slots_size_eq⟩

theorem sameFrame_openGap (i count : Nat) (r : Ring α) : SameFrame r (openGap i count r) := by
  induction count generalizing r with
  | zero => exact ⟨rfl, rfl, rfl⟩
  | succ count ih => exact (sameFrame_write r _ _).trans (ih _)

theorem sameFrame_closeGap (i count : Nat) (r : Ring α) : SameFrame r (closeGap i count r) := by
  induction count generalizing i r with
  | zero => exact ⟨rfl, rfl, rfl⟩
  | succ count ih => exact (sameFrame_write r _ _).trans (ih _ _)

/-- The elements behind a gap were one step nearer before it was opened. -/
theorem read_openGap {i count j : Nat} {r : Ring α} (hhead : r.head < r.slots.size)
    (hroom : i + count < r.slots.size) (hj : j < r.slots.size) :
    (openGap i count r).read j =
      if i < j ∧ j ≤ i + count then r.read (j - 1) else r.read j := by
  induction count generalizing r with
  | zero =>
      rw [if_neg (by omega)]
      rfl
  | succ count ih =>
      -- The last element moves first, into a slot that none of the others is read from.
      have hwrite : ∀ k < r.slots.size,
          (r.write (i + count + 1) (r.read (i + count))).read k =
            if k = i + count + 1 then r.read (i + count) else r.read k :=
        fun k hk => read_write _ hhead (by omega) hk
      have hgap := ih (r := r.write (i + count + 1) (r.read (i + count))) (by simpa using hhead)
        (by simp; omega) (by simpa using hj)
      refine hgap.trans ?_
      by_cases hlast : j = i + count + 1
      · rw [if_neg (by omega), hwrite j hj, if_pos hlast, if_pos (by omega), hlast]
        rfl
      · by_cases hmoved : i < j ∧ j ≤ i + count
        · rw [if_pos hmoved, hwrite (j - 1) (by omega), if_neg (by omega), if_pos (by omega)]
        · rw [if_neg hmoved, hwrite j hj, if_neg hlast, if_neg (by omega)]

/-- The elements that fill a gap were one step farther before it was closed. -/
theorem read_closeGap {i count j : Nat} {r : Ring α} (hhead : r.head < r.slots.size)
    (hroom : i + count < r.slots.size) (hj : j < r.slots.size) :
    (closeGap i count r).read j =
      if i ≤ j ∧ j < i + count then r.read (j + 1) else r.read j := by
  induction count generalizing i r with
  | zero =>
      rw [if_neg (by omega)]
      rfl
  | succ count ih =>
      -- The first element moves first, so the others are still where they were.
      have hwrite : ∀ k < r.slots.size,
          (r.write i (r.read (i + 1))).read k =
            if k = i then r.read (i + 1) else r.read k :=
        fun k hk => read_write _ hhead (by omega) hk
      have hgap := ih (i := i + 1) (r := r.write i (r.read (i + 1))) (by simpa using hhead)
        (by simp; omega) (by simpa using hj)
      refine hgap.trans ?_
      by_cases hfirst : j = i
      · rw [if_neg (by omega), hwrite j hj, if_pos hfirst, if_pos (by omega), hfirst]
      · by_cases hmoved : i + 1 ≤ j ∧ j < i + 1 + count
        · rw [if_pos hmoved, hwrite (j + 1) (by omega), if_neg (by omega), if_pos (by omega)]
        · rw [if_neg hmoved, hwrite j hj, if_neg hfirst, if_neg (by omega)]

theorem Roomy.placeAt {r : Ring α} {xs : List α} (h : r.Roomy xs) {i : Nat} (v : α)
    (hi : i ≤ xs.length) : (r.placeAt i v).Shows (xs.insertIdx i v) := by
  have hsize := h.size_eq
  have hlt := h.size_lt
  have hframe := sameFrame_openGap i (r.size - i) r
  have hhead : (openGap i (r.size - i) r).head < (openGap i (r.size - i) r).slots.size := by
    rw [hframe.head_eq, hframe.slots_size_eq]
    exact h.head_lt_size
  have hlength : (xs.insertIdx i v).length = xs.length + 1 :=
    List.length_insertIdx_of_le_length hi v
  constructor
  · rw [hlength, ← hsize]
    rfl
  · change r.size + 1 ≤ ((openGap i (r.size - i) r).write i (some v)).slots.size
    rw [size_slots_write, hframe.slots_size_eq]
    exact hlt
  · intro _
    change ((openGap i (r.size - i) r).write i (some v)).head <
      ((openGap i (r.size - i) r).write i (some v)).slots.size
    rw [head_write, size_slots_write]
    exact hhead
  · intro j hj
    change ((openGap i (r.size - i) r).write i (some v)).read j = _
    rw [read_write (some v) hhead (by rw [hframe.slots_size_eq]; omega)
      (by rw [hframe.slots_size_eq]; omega), List.getElem?_insertIdx,
      read_openGap h.head_lt_size (by omega) (by omega)]
    by_cases hbefore : j < i
    · rw [if_neg (by omega), if_neg (by omega), if_pos hbefore, h.read_eq j (by omega)]
    · rw [if_neg hbefore]
      by_cases hat : j = i
      · rw [if_pos hat, if_pos hat, if_pos (by omega)]
      · rw [if_neg hat, if_neg hat, if_pos (by omega), h.read_eq (j - 1) (by omega)]

theorem Shows.removeAt {r : Ring α} {xs : List α} (h : r.Shows xs) {i : Nat}
    (hi : i < xs.length) : (r.removeAt i).Shows (xs.eraseIdx i) := by
  have hsize := h.size_eq
  have hle := h.size_le
  have hframe := sameFrame_closeGap i (r.size - 1 - i) r
  have hslots := hframe.slots_size_eq
  have hrhead : r.head < r.slots.size := h.head_lt (by omega)
  have hhead : (closeGap i (r.size - 1 - i) r).head <
      (closeGap i (r.size - 1 - i) r).slots.size := by
    rw [hframe.head_eq, hslots]
    exact hrhead
  have hlength : (xs.eraseIdx i).length = xs.length - 1 := List.length_eraseIdx_of_lt hi
  constructor
  · rw [hlength, ← hsize]
    rfl
  · change r.size - 1 ≤ ((closeGap i (r.size - 1 - i) r).write (r.size - 1) none).slots.size
    rw [size_slots_write]
    omega
  · intro _
    change ((closeGap i (r.size - 1 - i) r).write (r.size - 1) none).head <
      ((closeGap i (r.size - 1 - i) r).write (r.size - 1) none).slots.size
    rw [head_write, size_slots_write]
    exact hhead
  · intro j hj
    change ((closeGap i (r.size - 1 - i) r).write (r.size - 1) none).read j = _
    rw [read_write none hhead (by omega) (by omega), if_neg (by omega),
      read_closeGap hrhead (by omega) (by omega), List.getElem?_eraseIdx]
    by_cases hbefore : j < i
    · rw [if_neg (by omega), if_pos hbefore, h.read_eq j (by omega)]
    · rw [if_pos (by omega), if_neg hbefore, h.read_eq (j + 1) (by omega)]

theorem Shows.erase_of_lt {r : Ring α} {xs : List α} (h : r.Shows xs) {i : Nat} {v : α}
    (hv : xs[i]? = some v) : Ring.erase i r = .ok v (r.removeAt i) := by
  rw [Ring.erase, h.get?_eq, hv]

/-! ### Room -/

variable [Element α]

theorem spread_roomy {r : Ring α} {xs : List α} (h : r.Shows xs)
    (hroom : r.size + 1 ≤ r.capacity) : r.spread.Roomy xs := by
  unfold spread
  split
  · rename_i hlt
    exact { h with size_lt := hlt }
  · generalize hcount : min (2 * r.size + 1) r.capacity = count
    have hlt : r.size < count := by omega
    refine { size_eq := h.size_eq, size_le := ?_, head_lt := ?_, read_eq := ?_, size_lt := ?_ }
    · simpa using Nat.le_of_lt hlt
    · simp
    · intro i hi
      have hsize := h.size_eq
      have hicount : i < count := by omega
      simp only [read, position, Nat.zero_add, Array.size_ofFn, hicount, if_true]
      rw [Array.getElem?_ofFn, dif_pos hicount, Option.join_some]
      exact h.get?_eq i
    · simpa using hlt

/-- A reservation that is met leaves the slots alone. -/
theorem reserve_attempt (memory : Allocator) {r : Ring α} {xs : List α} (h : r.Shows xs) :
    Attempt Error.IsShortage r (fun s => s.spread.Roomy xs) (reserve memory 1 r) := by
  unfold reserve
  split
  · exact .short trivial
  · rename_i required hsum
    obtain ⟨rfl, hmax⟩ := sizeSum?_eq_some_iff.mp hsum
    split
    · exact .short trivial
    · split
      · rename_i hroom
        exact .done (spread_roomy h hroom)
      · rename_i hfull
        dsimp only
        split
        · refine .done (spread_roomy { h with } ?_)
          unfold capacity at hfull ⊢
          split
          · rename_i hbytes
            rw [if_pos hbytes] at hfull
            omega
          · exact Nat.le_trans (Nat.le_max_left _ _) (Nat.le_max_right _ _)
        · exact .short trivial

/-- What is done to a ring with a free slot is done after a reservation. -/
theorem reserved_attempt (memory : Allocator) {r : Ring α} {xs ys : List α} (h : r.Shows xs)
    {place : Ring α → Ring α} (hplace : ∀ s : Ring α, s.Roomy xs → (place s).Shows ys) :
    Attempt Error.IsShortage r (fun s => s.Shows ys)
      (match reserve memory 1 r with
      | .ok _ r => .ok () (place r.spread)
      | .error error r => .error error r) := by
  have hreserve := reserve_attempt memory h
  generalize reserve memory 1 r = result at hreserve ⊢
  cases hreserve with
  | done hroomy => exact .done (hplace _ hroomy)
  | short hshort => exact .short hshort

theorem pushBack_attempt (memory : Allocator) (v : α) {r : Ring α} {xs : List α}
    (h : r.Shows xs) :
    Attempt Error.IsShortage r (fun s => s.Shows (xs ++ [v])) (pushBack memory v r) :=
  reserved_attempt memory h fun _ hs => hs.placeBack v

theorem pushFront_attempt (memory : Allocator) (v : α) {r : Ring α} {xs : List α}
    (h : r.Shows xs) :
    Attempt Error.IsShortage r (fun s => s.Shows (v :: xs)) (pushFront memory v r) :=
  reserved_attempt memory h fun _ hs => hs.placeFront v

theorem insert_attempt (memory : Allocator) {i : Nat} (v : α) {r : Ring α} {xs : List α}
    (h : r.Shows xs) (hi : i ≤ xs.length) :
    Attempt Error.IsShortage r (fun s => s.Shows (xs.insertIdx i v)) (insert memory i v r) := by
  unfold insert
  rw [h.size_eq, if_neg (Nat.not_lt.mpr hi)]
  exact reserved_attempt memory h fun _ hs => hs.placeAt v hi

theorem pushBackAll_shows {memory : Allocator} {vs xs : List α} {r s : Ring α} (h : r.Shows xs)
    (hpush : pushBackAll memory vs r = .ok () s) : s.Shows (xs ++ vs) := by
  induction vs generalizing r xs with
  | nil =>
      obtain rfl : r = s := by simpa [pushBackAll] using hpush
      rw [List.append_nil]
      exact h
  | cons v vs ih =>
      have hfirst := pushBack_attempt memory v h
      unfold pushBackAll at hpush
      generalize pushBack memory v r = result at hfirst hpush
      cases hfirst with
      | short hshort => contradiction
      | done hdone =>
          have hrest := ih hdone hpush
          rw [List.append_assoc, List.singleton_append] at hrest
          exact hrest

theorem ofList_shows {memory : Allocator} {xs : List α} {r : Ring α}
    (h : ofList memory xs = .ok r) : r.Shows xs := by
  unfold ofList at h
  cases hpush : pushBackAll memory xs (empty : Ring α) with
  | error error s =>
      rw [hpush] at h
      contradiction
  | ok reply s =>
      rw [hpush] at h
      obtain rfl := Except.ok.inj h
      exact pushBackAll_shows (shows_nil rfl rfl) hpush

end Ring

end Containers
