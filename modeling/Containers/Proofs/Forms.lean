/-
The forms of one operation.  An asserted operation is violated exactly where the checked one
reports what is missing, and elsewhere both hand out the same and leave the same.  Adding and
taking away at the ends is inserting and removing at the first and the last index.
-/
import Containers.Proofs.Twins

namespace Containers

namespace DynArray

variable {α : Type} [Element α]

/-- What an operation shows, and what it leaves here and in the other place. -/
def Command.results (memory : Allocator) (a : DynArray α) (other : Option (DynArray α))
    (command : Command α) : Outcome (Reply α) × Option (DynArray α) × Option (DynArray α) :=
  Workspace.step (some a) other (command.effect memory)

/-! ### Asserted and checked -/

/-- An operation that asserts the index, what it hands out of the element there, and the
operation that checks the index.  Where access is for writing, the element is overwritten and
the previous one is handed out. -/
inductive Command.AtIndex (i : Nat) : Command α → (α → Reply α) → Command α → Prop
  | get : AtIndex i (.get i) .element (.getChecked i)
  | set (v : α) : AtIndex i (.set i v) .element (.setChecked i v)
  | remove : AtIndex i (.remove i) .element (.removeChecked i)
  | erase : AtIndex i (.erase i) (fun _ => .nothing) (.removeChecked i)

/-- An operation that asserts that there are elements, its violation, which element it is
about, and the operation that hands out none where there are none. -/
inductive Command.AtEnd : Command α → Access → (List α → Option α) → Command α → Prop
  | front : AtEnd .front .front List.head? .front?
  | back : AtEnd .back .back List.getLast? .back?
  | popFront : AtEnd .popFront .pop List.head? .popFront?
  | popBack : AtEnd .popBack .pop List.getLast? .popBack?

/-- How the two forms of an operation end: where the element is missing, the one is violated,
the other reports it, and nothing is changed; otherwise both are about the same element.
They always leave the same. -/
structure Agree (Missing : Prop) (element? : Option α) (violation : Violation)
    (missing : Outcome (Reply α)) (handed : α → Reply α) (found : α → Outcome (Reply α))
    (before : Option (DynArray α) × Option (DynArray α))
    (asserted checked : Outcome (Reply α) × Option (DynArray α) × Option (DynArray α)) : Prop where
  violated_iff : (∃ violation, asserted.1 = .violated violation) ↔ Missing
  missing_iff : checked.1 = missing ↔ Missing
  violated : Missing → asserted.1 = .violated violation
  found : ¬ Missing → ∃ v, element? = some v ∧ asserted.1 = .returned (handed v) ∧
    checked.1 = found v
  unchanged : Missing → asserted.2 = before
  left_eq : asserted.2 = checked.2

section

variable {Missing : Prop} {element? : Option α} {violation : Violation}
  {missing : Outcome (Reply α)} {handed : α → Reply α} {found : α → Outcome (Reply α)}
  {before left : Option (DynArray α) × Option (DynArray α)}

theorem agree_missing (h : Missing) :
    Agree Missing element? violation missing handed found before
      (.violated violation, before) (missing, before) where
  violated_iff := iff_of_true ⟨violation, rfl⟩ h
  missing_iff := iff_of_true rfl h
  violated _ := rfl
  found hthere := absurd h hthere
  unchanged _ := rfl
  left_eq := rfl

theorem agree_found {v : α} (hthere : ¬ Missing) (hv : element? = some v)
    (hne : found v ≠ missing) :
    Agree Missing element? violation missing handed found before
      (.returned (handed v), left) (found v, left) where
  violated_iff := iff_of_false nofun hthere
  missing_iff := iff_of_false hne hthere
  violated h := absurd h hthere
  found _ := ⟨v, hv, rfl, rfl⟩
  unchanged h := absurd h hthere
  left_eq := rfl

end

section

variable (memory : Allocator) {a b : DynArray α} (other : Option (DynArray α)) {i : Nat}

theorem step_asserted_elim {take : EStateM Violation (DynArray α) α} {violation : Violation}
    {taken? : Option α} (h : take a = taken?.elim (.error violation b) (.ok · b)) :
    Workspace.step (some a) other (.asserted (Reply.element <$> take)) =
      (.asserted violation (taken?.map .element), some b, other) := by
  cases taken? with
  | none => exact Workspace.step_asserted_error _ other h
  | some v => exact Workspace.step_asserted_ok _ other h

/-- There is no element with the index. -/
theorem Command.AtIndex.results_none {asserted checked : Command α} {handed : α → Reply α}
    (h : Command.AtIndex i asserted handed checked) (hget : a.get? i = none) :
    asserted.results memory a other = (.violated (.index i a.size), some a, other) ∧
      checked.results memory a other =
        (.refused (.array (.outOfRange i a.size)), some a, other) := by
  have hremove : DynArray.remove i a = .error (.index i a.size) a := by
    rw [DynArray.remove, hget]
  have hchecked : DynArray.removeChecked i a = .error (.outOfRange i a.size) a := by
    rw [DynArray.removeChecked, hget]
  cases h with
  | get =>
      simp [Command.results, Command.effect, Workspace.step, Effect.lookAsserted,
        Effect.lookChecked, DynArray.get, DynArray.getChecked, hget, Except.map, Except.mapError]
  | set v =>
      have hset : DynArray.set i v a = .error (.index i a.size) a := by rw [DynArray.set, hget]
      have hsetChecked : DynArray.setChecked i v a = .error (.outOfRange i a.size) a := by
        rw [DynArray.setChecked, hget]
      exact ⟨Workspace.step_asserted_error _ other hset,
        Workspace.step_refusable_error _ _ other hsetChecked⟩
  | remove =>
      exact ⟨Workspace.step_asserted_error _ other hremove,
        Workspace.step_refusable_error _ _ other hchecked⟩
  | erase =>
      exact ⟨Workspace.step_asserted_error _ other (map_of_error hremove),
        Workspace.step_refusable_error _ _ other hchecked⟩

/-- The element with the index is `v`. -/
theorem Command.AtIndex.results_some {asserted checked : Command α} {handed : α → Reply α}
    (h : Command.AtIndex i asserted handed checked) {v : α} (hget : a.get? i = some v) :
    ∃ b, asserted.results memory a other = (.returned (handed v), some b, other) ∧
      checked.results memory a other = (.accepted (.element v), some b, other) := by
  have hremove : DynArray.remove i a = .ok v (a.removeAt i) := by
    rw [DynArray.remove, hget]
  have hchecked : DynArray.removeChecked i a = .ok v (a.removeAt i) := by
    rw [DynArray.removeChecked, hget]
  cases h with
  | get =>
      refine ⟨a, ?_⟩
      simp [Command.results, Command.effect, Workspace.step, Effect.lookAsserted,
        Effect.lookChecked, DynArray.get, DynArray.getChecked, hget, Except.map, Except.mapError]
  | set w =>
      have hset : DynArray.set i w a = .ok v (a.put i w) := by rw [DynArray.set, hget]
      have hsetChecked : DynArray.setChecked i w a = .ok v (a.put i w) := by
        rw [DynArray.setChecked, hget]
      exact ⟨a.put i w, Workspace.step_asserted_ok _ other hset,
        Workspace.step_refusable_ok _ _ other hsetChecked⟩
  | remove =>
      exact ⟨a.removeAt i, Workspace.step_asserted_ok _ other hremove,
        Workspace.step_refusable_ok _ _ other hchecked⟩
  | erase =>
      exact ⟨a.removeAt i, Workspace.step_asserted_ok _ other (map_of_ok hremove),
        Workspace.step_refusable_ok _ _ other hchecked⟩

/-- Operations with an asserted and with a checked index agree. -/
theorem Command.AtIndex.agree {asserted checked : Command α} {handed : α → Reply α}
    (h : Command.AtIndex i asserted handed checked) (memory : Allocator) (a : DynArray α)
    (other : Option (DynArray α)) :
    Agree (a.size ≤ i) a.toList[i]? (.index i a.size) (.refused (.array (.outOfRange i a.size)))
      handed (fun v => .accepted (.element v)) (some a, other)
      (asserted.results memory a other) (checked.results memory a other) := by
  have hget := get?_eq_getElem? a i
  cases helement : a.toList[i]? with
  | none =>
      obtain ⟨hasserted, hchecked⟩ := h.results_none memory other (hget.trans helement)
      rw [hasserted, hchecked]
      refine agree_missing ?_
      rw [size_eq_length]
      exact List.getElem?_eq_none_iff.mp helement
  | some v =>
      obtain ⟨b, hasserted, hchecked⟩ := h.results_some memory other (hget.trans helement)
      rw [hasserted, hchecked]
      refine agree_found ?_ rfl nofun
      rw [size_eq_length, Nat.not_le]
      exact (List.getElem?_eq_some_iff.mp helement).1

/-- An operation that asserts that there is the element `element?`, and one that hands out
this option, agree. -/
theorem agree_of_option {asserted partly : Command α} {access : Access} {element? : Option α}
    {left : DynArray α} (hempty : a.toList = [] ↔ element? = none)
    (hsame : element? = none → left = a)
    (hasserted : asserted.results memory a other =
      (.asserted (.empty access .array) (element?.map .element), some left, other))
    (hpartly : partly.results memory a other =
      (.returned (.optional element?), some left, other)) :
    Agree (a.toList = []) element? (.empty access .array) (.returned (.optional none)) .element
      (fun v => .returned (.optional (some v))) (some a, other)
      (asserted.results memory a other) (partly.results memory a other) := by
  rw [hasserted, hpartly]
  cases element? with
  | none =>
      rw [hsame rfl]
      exact agree_missing (hempty.mpr rfl)
  | some v => exact agree_found (fun hnil => nomatch hempty.mp hnil) rfl nofun

/-- Operations on an end that is asserted to be there and on one that is not agree. -/
theorem Command.AtEnd.agree {access : Access} {asserted partly : Command α}
    {element? : List α → Option α} (h : Command.AtEnd asserted access element? partly)
    (memory : Allocator) (a : DynArray α) (other : Option (DynArray α)) :
    Agree (a.toList = []) (element? a.toList) (.empty access .array) (.returned (.optional none))
      .element (fun v => .returned (.optional (some v))) (some a, other)
      (asserted.results memory a other) (partly.results memory a other) := by
  cases h with
  | front =>
      refine agree_of_option memory other List.head?_eq_none_iff.symm (fun _ => rfl) ?_ ?_
      · simp only [results, effect, Workspace.step, Effect.lookAsserted, DynArray.front,
          front?_eq_head?]
        cases a.toList.head? <;> rfl
      · rw [← front?_eq_head?]
        rfl
  | back =>
      refine agree_of_option memory other List.getLast?_eq_none_iff.symm (fun _ => rfl) ?_ ?_
      · simp only [results, effect, Workspace.step, Effect.lookAsserted, DynArray.back,
          back?_eq_getLast?]
        cases a.toList.getLast? <;> rfl
      · rw [← back?_eq_getLast?]
        rfl
  | popFront =>
      refine agree_of_option memory other List.head?_eq_none_iff.symm
        (fun hnone => popFront?_of_none ((popFront?_fst a).trans hnone)) ?_ ?_
      · exact step_asserted_elim other (popFront?_fst a ▸ popFront_eq_elim a)
      · rw [← popFront?_fst]
        rfl
  | popBack =>
      refine agree_of_option memory other List.getLast?_eq_none_iff.symm
        (fun hnone => popBack?_of_none ((popBack?_fst a).trans hnone)) ?_ ?_
      · exact step_asserted_elim other (popBack?_fst a ▸ popBack_eq_elim a)
      · rw [← popBack?_fst]
        rfl

end

/-! ### At the ends -/

/-- The same is shown, and the arrays that are left differ at most in how their elements are
kept. -/
structure SameResults
    (left right : Outcome (Reply α) × Option (DynArray α) × Option (DynArray α)) : Prop where
  outcome_eq : left.1 = right.1
  twin : Option.Rel (Twin 0) left.2.1 right.2.1
  other_eq : left.2.2 = right.2.2

/-- Both take the element `v` away, and the arrays that are left differ at most in how their
elements are kept. -/
structure SameTaken (v? : Option α)
    (left right : Outcome (Reply α) × Option (DynArray α) × Option (DynArray α)) : Prop where
  taken : ∃ v, v? = some v ∧ left.1 = .returned (.optional (some v)) ∧
    right.1 = .returned (.element v)
  twin : Option.Rel (Twin 0) left.2.1 right.2.1
  other_eq : left.2.2 = right.2.2

section

variable (memory : Allocator) (a : DynArray α) (other : Option (DynArray α))

theorem sameResults_self (results : Outcome (Reply α) × Option (DynArray α) × Option (DynArray α)) :
    SameResults results results where
  outcome_eq := rfl
  twin := by cases results.2.1 with
    | none => exact .none
    | some a => exact .some (twin_self a)
  other_eq := rfl

/-- An index that is at most the size is no violation. -/
theorem results_insert_ok {i : Nat} (hi : i ≤ a.size) {v : α} {b : DynArray α}
    (h : insertAt memory i v a = .ok () b) :
    (Command.insert i v).results memory a other = (.accepted .nothing, some b, other) := by
  have hinsert : insert memory i v a = .ok () b := by
    rw [insert, if_neg (Nat.not_lt.mpr hi), EStateM.adaptExcept, h]
  simp [Command.results, Command.effect, Workspace.step, Effect.failing, Reply.silently,
    map_of_ok hinsert]

theorem results_insert_error {i : Nat} (hi : i ≤ a.size) {v : α} {b : DynArray α}
    {error : ArrayError} (h : insertAt memory i v a = .error error b) :
    (Command.insert i v).results memory a other = (.refused (.array error), some b, other) := by
  have hinsert : insert memory i v a = .error (.refused (.array error)) b := by
    rw [insert, if_neg (Nat.not_lt.mpr hi), EStateM.adaptExcept, h]
    rfl
  simp [Command.results, Command.effect, Workspace.step, Effect.failing, Reply.silently,
    map_of_error hinsert]

/-- Adding at the back is inserting behind the last element. -/
theorem pushBack_sameResults (v : α) :
    SameResults ((Command.pushBack v).results memory a other)
      ((Command.insert a.size v).results memory a other) := by
  -- Both make room in the same way, and part only once there is room.
  have hreserve := reserveOne_attempt memory a
  generalize hresult : reserveOne memory a = result at hreserve
  cases hreserve with
  | @done b hdone =>
      have hpush : pushBack memory v a = .ok () { b with store := Storage.push b.store v } := by
        rw [pushBack, hresult]
      have hinsert : insertAt memory a.size v a =
          .ok () { b with store := Storage.insert b.store a.size v } := by
        rw [insertAt, hresult]
      have hlist : Storage.toList (Storage.push b.store v) =
          Storage.toList (Storage.insert b.store a.size v) := by
        rw [Storage.toList_push, Storage.toList_insert, size_eq_length, ← hdone.1.toList_eq]
        exact List.insertIdx_length_self.symm
      have hleft : (Command.pushBack v).results memory a other =
          (.accepted .nothing, some { b with store := Storage.push b.store v }, other) :=
        Workspace.step_refusable_ok (fun _ => Reply.nothing) .array other hpush
      rw [hleft, results_insert_ok memory a other (Nat.le_refl _) hinsert]
      exact ⟨rfl, .some ((twin_self b).refill hlist), rfl⟩
  | @short error hshort =>
      have hpush : pushBack memory v a = .error error a := by rw [pushBack, hresult]
      have hinsert : insertAt memory a.size v a = .error error a := by rw [insertAt, hresult]
      have hleft : (Command.pushBack v).results memory a other =
          (.refused (.array error), some a, other) :=
        Workspace.step_refusable_error (fun _ => Reply.nothing) .array other hpush
      rw [hleft, results_insert_error memory a other (Nat.le_refl _) hinsert]
      exact sameResults_self _

/-- Adding at the front is inserting in front of the first element. -/
theorem pushFront_sameResults (v : α) :
    SameResults ((Command.pushFront v).results memory a other)
      ((Command.insert 0 v).results memory a other) := by
  cases hresult : insertAt memory 0 v a with
  | ok _ b =>
      have hleft : (Command.pushFront v).results memory a other =
          (.accepted .nothing, some b, other) :=
        Workspace.step_refusable_ok (fun _ => Reply.nothing) .array other hresult
      rw [hleft, results_insert_ok memory a other (Nat.zero_le _) hresult]
      exact sameResults_self _
  | error error b =>
      have hleft : (Command.pushFront v).results memory a other =
          (.refused (.array error), some b, other) :=
        Workspace.step_refusable_error (fun _ => Reply.nothing) .array other hresult
      rw [hleft, results_insert_error memory a other (Nat.zero_le _) hresult]
      exact sameResults_self _

/-- Taking the last element away is removing at the last index. -/
theorem popBack?_sameTaken (h : a.toList ≠ []) :
    SameTaken a.toList.getLast? (Command.popBack?.results memory a other)
      ((Command.remove (a.size - 1)).results memory a other) := by
  obtain ⟨v, hv⟩ := Option.ne_none_iff_exists'.mp (mt List.getLast?_eq_none_iff.mp h)
  have hget : a.get? (a.size - 1) = some v := by
    rw [get?_eq_getElem?, size_eq_length, ← List.getLast?_eq_getElem?, hv]
  have hremove : remove (a.size - 1) a = .ok v (a.removeAt (a.size - 1)) := by
    rw [remove, hget]
  have hleft : Command.popBack?.results memory a other =
      (.returned (.optional (some v)), some (popBack? a).2, other) := by
    rw [← hv, ← popBack?_fst]
    rfl
  have hright : (Command.remove (a.size - 1)).results memory a other =
      (.returned (.element v), some (a.removeAt (a.size - 1)), other) :=
    Workspace.step_asserted_ok Reply.element other hremove
  have hlist : (popBack? a).2.toList = (a.removeAt (a.size - 1)).toList := by
    rw [(popBack?_narrowed a).toList_eq, toList_removeAt, size_eq_length]
    exact List.dropLast_eq_eraseIdx (Nat.sub_add_cancel (List.length_pos_iff.mpr h))
  rw [hleft, hright]
  exact ⟨⟨v, hv, rfl, rfl⟩,
    .some ((twin_self a).moved (popBack?_moved a) (removeAt_moved hget) hlist), rfl⟩

/-- Taking the first element away is removing at the first index. -/
theorem popFront?_sameTaken (h : a.toList ≠ []) :
    SameTaken a.toList.head? (Command.popFront?.results memory a other)
      ((Command.remove 0).results memory a other) := by
  obtain ⟨v, hv⟩ := Option.ne_none_iff_exists'.mp (mt List.head?_eq_none_iff.mp h)
  have hget : a.get? 0 = some v := by
    rw [get?_eq_getElem?, ← List.head?_eq_getElem?, hv]
  have hremove : remove 0 a = .ok v (a.removeAt 0) := by
    rw [remove, hget]
  have hpop : popFront? a = (some v, a.removeAt 0) := by
    rw [popFront?, hget]
  have hleft : Command.popFront?.results memory a other =
      (.returned (.optional (popFront? a).1), some (popFront? a).2, other) := rfl
  have hright : (Command.remove 0).results memory a other =
      (.returned (.element v), some (a.removeAt 0), other) :=
    Workspace.step_asserted_ok Reply.element other hremove
  rw [hleft, hright, hpop]
  exact ⟨⟨v, hv, rfl, rfl⟩, .some (twin_self _), rfl⟩

end

/-- On every array, an operation that asserts an index is violated exactly where the one that
checks it reports that it is out of range, which is where there is no element with the index,
and an operation that asserts that there are elements is violated exactly where its sibling
hands out none, which is where there are none.  Elsewhere both are about the same element and
leave the same.  Adding at the back and at the front show and leave what inserting at the size
and at zero do, refusals included, and so do taking away the last and the first element of an
array that has one, and removing at the last index and at zero. -/
theorem forms_agree (memory : Allocator) (a : DynArray α) (other : Option (DynArray α)) :
    (∀ (i : Nat) (asserted checked : Command α) (handed : α → Reply α),
      Command.AtIndex i asserted handed checked →
        Agree (a.size ≤ i) a.toList[i]? (.index i a.size)
          (.refused (.array (.outOfRange i a.size))) handed
          (fun v => .accepted (.element v)) (some a, other)
          (asserted.results memory a other) (checked.results memory a other)) ∧
    (∀ (access : Access) (asserted partly : Command α) (element? : List α → Option α),
      Command.AtEnd asserted access element? partly →
        Agree (a.toList = []) (element? a.toList) (.empty access .array)
          (.returned (.optional none)) .element
          (fun v => .returned (.optional (some v))) (some a, other)
          (asserted.results memory a other) (partly.results memory a other)) ∧
    (∀ v, SameResults ((Command.pushBack v).results memory a other)
      ((Command.insert a.size v).results memory a other)) ∧
    (∀ v, SameResults ((Command.pushFront v).results memory a other)
      ((Command.insert 0 v).results memory a other)) ∧
    (a.toList ≠ [] →
      SameTaken a.toList.getLast? (Command.popBack?.results memory a other)
          ((Command.remove (a.size - 1)).results memory a other) ∧
        SameTaken a.toList.head? (Command.popFront?.results memory a other)
          ((Command.remove 0).results memory a other)) :=
  ⟨fun _ _ _ _ h => h.agree memory a other, fun _ _ _ _ h => h.agree memory a other,
    pushBack_sameResults memory a other, pushFront_sameResults memory a other,
    fun h => ⟨popBack?_sameTaken memory a other h, popFront?_sameTaken memory a other h⟩⟩

namespace FormsWitness

/-- Grow by one half, shrink at a quarter, never below two. -/
def byHalf : Policy.Parameters := ⟨⟨0x3ff8000000000000⟩, ⟨0x3fd0000000000000⟩, 2⟩

/-- Three elements where there is room for eight. -/
def operations : List (Place × Allocator × Command UInt8) :=
  [(.first, .addressSpace, .ofParameters byHalf), (.first, .addressSpace, .reserve 8),
    (.first, .addressSpace, .pushBack 1), (.first, .addressSpace, .pushBack 2),
    (.first, .addressSpace, .pushBack 3)]

def left : Option (DynArray UInt8) :=
  (Workspace.vacant.runEach Command.effect operations).2.get .first

/-- The array is sparse as soon as an element is taken away, in whatever form. -/
theorem forms_agree_at_shrink_line :
    ∃ a ∈ left, a.toList = [1, 2, 3] ∧ a.capacity = 8 ∧
      ((Command.remove 2).results .addressSpace a none).2.1.map capacity = some 5 ∧
      ((Command.remove 2).results .addressSpace a none).2 =
        ((Command.removeChecked 2).results .addressSpace a none).2 ∧
      ((Command.removeChecked 3).results .addressSpace a none).1 =
        .refused (.array (.outOfRange 3 a.size)) ∧
      (Command.popBack.results .addressSpace a none).2 =
        (Command.popBack?.results .addressSpace a none).2 ∧
      SameTaken (some 3) (Command.popBack?.results .addressSpace a none)
        ((Command.remove (a.size - 1)).results .addressSpace a none) := by
  have hsome : left.isSome = true := by decide +kernel
  obtain ⟨a, ha⟩ := Option.isSome_iff_exists.mp hsome
  have hlist : left.map toList = some [1, 2, 3] := by decide +kernel
  have hnumbers : left.map (fun a => (a.capacity,
      ((Command.remove 2).results .addressSpace a none).2.1.map capacity)) =
        some (8, some 5) := by decide +kernel
  rw [ha, Option.map_some, Option.some_inj] at hlist hnumbers
  obtain ⟨hcapacity, hshrunk⟩ := Prod.mk.inj hnumbers
  obtain ⟨hindex, hend, -, -, htaken⟩ := forms_agree .addressSpace a none
  have hmissing : a.size ≤ 3 := by
    rw [size_eq_length, hlist]
    decide
  have hback := (htaken (by rw [hlist]; exact List.cons_ne_nil _ _)).1
  rw [hlist] at hback
  exact ⟨a, ha, hlist, hcapacity, hshrunk, (hindex 2 _ _ _ .remove).left_eq,
    (hindex 3 _ _ _ .remove).missing_iff.mpr hmissing, (hend _ _ _ _ .popBack).left_eq, hback⟩

end FormsWitness

end DynArray

end Containers
