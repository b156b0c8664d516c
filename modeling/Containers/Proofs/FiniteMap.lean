/-
A sorted map is a finite map whose keys are classes of tied keys.  What the entries
say about each class is all that the operations look at and all that they change.
-/
import Containers.Proofs.SearchSpec
import Containers.Proofs.Spots
import Mathlib.Logic.Function.Basic

namespace Containers

namespace SortedMap

variable {κ ν : Type} {less : κ → κ → Bool}

/-! ### Entries by class -/

/-- The entry for each class of keys. -/
def byClass (hweak : WeakOrder less) (entries : List (κ × ν)) :
    hweak.Class → Option (κ × ν) :=
  Quotient.lift (fun key => entries.find? fun e => decide (Tied less e.1 key)) (by
    intro a b hab
    have hsame : ∀ e : κ × ν, decide (Tied less e.1 a) = decide (Tied less e.1 b) := by
      intro e
      rw [decide_eq_decide]
      exact ⟨fun h => hweak.tied_trans h hab, fun h => hweak.tied_trans h (Tied.symm hab)⟩
    exact congrArg entries.find? (funext hsame))

theorem byClass_classOf (hweak : WeakOrder less) (entries : List (κ × ν)) (key : κ) :
    byClass hweak entries (hweak.classOf key) =
      entries.find? fun e => decide (Tied less e.1 key) := rfl

theorem byClass_nil (hweak : WeakOrder less) :
    byClass hweak ([] : List (κ × ν)) = fun _ => none := by
  funext c
  obtain ⟨key, rfl⟩ := hweak.exists_classOf_eq c
  rfl

theorem byClass_eq_none (hweak : WeakOrder less) {entries : List (κ × ν)} {key : κ}
    (h : ∀ e ∈ entries, ¬ Tied less e.1 key) :
    byClass hweak entries (hweak.classOf key) = none := by
  rw [byClass_classOf, List.find?_eq_none]
  intro e he
  simpa using h e he

/-- An entry speaks for its class, unless an earlier one does. -/
theorem byClass_append_cons (hweak : WeakOrder less) {before after : List (κ × ν)}
    {entry : κ × ν} (h : ∀ e ∈ before, ¬ Tied less e.1 entry.1) :
    byClass hweak (before ++ entry :: after) =
      Function.update (byClass hweak (before ++ after)) (hweak.classOf entry.1) (some entry) := by
  funext c
  obtain ⟨key, rfl⟩ := hweak.exists_classOf_eq c
  by_cases htied : Tied less entry.1 key
  · have hbefore : before.find? (fun e => decide (Tied less e.1 entry.1)) = none :=
      byClass_eq_none hweak h
    rw [hweak.classOf_eq_iff.mpr htied.symm, Function.update_self, byClass_classOf,
      List.find?_append, hbefore, Option.none_or,
      List.find?_cons_of_pos (by simpa using hweak.tied_refl entry.1)]
  · have hne : hweak.classOf key ≠ hweak.classOf entry.1 := fun heq =>
      htied (hweak.classOf_eq_iff.mp heq).symm
    rw [Function.update_of_ne hne, byClass_classOf, byClass_classOf, List.find?_append,
      List.find?_append, List.find?_cons_of_neg (by simpa using htied)]

/-- The class of an entry that is taken out has none. -/
theorem byClass_append (hweak : WeakOrder less) {before after : List (κ × ν)} {entry : κ × ν}
    (h : ∀ e ∈ before ++ after, ¬ Tied less e.1 entry.1) :
    byClass hweak (before ++ after) =
      Function.update (byClass hweak (before ++ entry :: after)) (hweak.classOf entry.1) none := by
  have hbefore : ∀ e ∈ before, ¬ Tied less e.1 entry.1 := fun e he =>
    h e (List.mem_append_left after he)
  rw [byClass_append_cons hweak hbefore, Function.update_idem, eq_comm,
    Function.update_eq_self_iff]
  exact (byClass_eq_none hweak h).symm

/-- What is less than a key or greater than it is not tied with it. -/
theorem Cut.not_tied {before after : List (κ × ν)} {key : κ} (h : Cut less key before after) :
    ∀ e ∈ before ++ after, ¬ Tied less e.1 key := by
  intro e he htied
  rcases List.mem_append.mp he with he | he
  · have hless := h.lesser e he
    rw [htied.1] at hless
    contradiction
  · have hless := h.greater e he
    rw [htied.2] at hless
    contradiction

/-- A tied key makes the same cut. -/
theorem Cut.of_tied (hweak : WeakOrder less) {before after : List (κ × ν)} {key key' : κ}
    (h : Cut less key before after) (htied : Tied less key key') : Cut less key' before after where
  lesser e he := hweak.less_of_less_of_tied (h.lesser e he) htied
  greater e he := hweak.less_of_tied_of_less htied.symm (h.greater e he)

theorem Cut.byClass_taken (hweak : WeakOrder less) {before after : List (κ × ν)} {entry : κ × ν}
    (h : Cut less entry.1 before after) :
    byClass hweak (before ++ entry :: after) (hweak.classOf entry.1) = some entry := by
  have hbefore : ∀ e ∈ before, ¬ Tied less e.1 entry.1 := fun e he =>
    h.not_tied e (List.mem_append_left after he)
  rw [byClass_append_cons hweak hbefore, Function.update_self]

theorem Cut.ascending {before after : List (κ × ν)} {entry : κ × ν}
    (h : Cut less entry.1 before after) (hasc : Ascending less (before ++ after)) :
    Ascending less (before ++ entry :: after) := by
  obtain ⟨hbefore, hafter, hacross⟩ := List.pairwise_append.mp hasc
  refine List.pairwise_append.mpr ⟨hbefore, List.pairwise_cons.mpr ⟨h.greater, hafter⟩, ?_⟩
  intro e he f hf
  rcases List.mem_cons.mp hf with rfl | hf
  · exact h.lesser e he
  · exact hacross e he f hf

/-! ### Maps in order -/

variable [Element (κ × ν)]

/-- The keys go up strictly, by a predicate that orders. -/
structure Proper (m : SortedMap κ ν) : Prop where
  weak : WeakOrder m.less
  ascending : Ascending m.less m.toList

/-- A map that says about the class of a key what is given, and about all other
classes what `m` says. -/
structure Replaced (m : SortedMap κ ν) (hweak : WeakOrder m.less) (key : κ)
    (content : Option (κ × ν)) (n : SortedMap κ ν) : Prop where
  less_eq : n.less = m.less
  ascending : Ascending m.less n.toList
  byClass_eq : byClass hweak n.toList =
    Function.update (byClass hweak m.toList) (hweak.classOf key) content

theorem Replaced.proper {m n : SortedMap κ ν} {hweak : WeakOrder m.less} {key : κ}
    {content : Option (κ × ν)} (h : Replaced m hweak key content n) : n.Proper where
  weak := h.less_eq ▸ hweak
  ascending := h.less_eq ▸ h.ascending

/-- The spot of a key whose class has an entry. -/
theorem Proper.search_taken {m : SortedMap κ ν} (h : m.Proper) {key : κ} {entry : κ × ν}
    (hentry : byClass h.weak m.toList (h.weak.classOf key) = some entry) :
    ∃ before after, m.search key = .taken before.length ∧
      m.toList = before ++ entry :: after ∧ Cut m.less entry.1 before after ∧
      Tied m.less key entry.1 := by
  have hlocated := search_located h.weak h.ascending key
  generalize hspot : m.search key = spot at hlocated
  generalize hlist : m.toList = entries at hlocated hentry
  cases hlocated with
  | @taken before after found hcut htied =>
      have hcut' := hcut.of_tied h.weak htied.symm
      rw [h.weak.classOf_eq_iff.mpr htied.symm, hcut'.byClass_taken h.weak] at hentry
      obtain rfl := Option.some.inj hentry
      exact ⟨before, after, rfl, rfl, hcut', htied.symm⟩
  | @free before after hcut =>
      rw [byClass_eq_none h.weak hcut.not_tied] at hentry
      contradiction

/-- The spot of a key whose class has no entry. -/
theorem Proper.search_free {m : SortedMap κ ν} (h : m.Proper) {key : κ}
    (hentry : byClass h.weak m.toList (h.weak.classOf key) = none) :
    ∃ before after, m.search key = .free before.length ∧
      m.toList = before ++ after ∧ Cut m.less key before after := by
  have hlocated := search_located h.weak h.ascending key
  generalize hspot : m.search key = spot at hlocated
  generalize hlist : m.toList = entries at hlocated hentry
  cases hlocated with
  | @taken before after found hcut htied =>
      have hcut' := hcut.of_tied h.weak htied.symm
      rw [h.weak.classOf_eq_iff.mpr htied.symm, hcut'.byClass_taken h.weak] at hentry
      contradiction
  | @free before after hcut => exact ⟨before, after, rfl, rfl, hcut⟩

/-- Puts an entry where a cut is, in place of an entry with a tied key. -/
theorem replaced_of_taken {m n : SortedMap κ ν} {hweak : WeakOrder m.less} {key : κ}
    {before after : List (κ × ν)} {old entry : κ × ν} (hasc : Ascending m.less m.toList)
    (hlist : m.toList = before ++ old :: after) (hcut : Cut m.less old.1 before after)
    (htied : Tied m.less key old.1) (hless : n.less = m.less) (hkey : entry.1 = old.1)
    (hn : n.toList = before ++ entry :: after) : Replaced m hweak key (some entry) n := by
  have hcut' : Cut m.less entry.1 before after := hkey.symm ▸ hcut
  have hrest : Ascending m.less (before ++ after) := by
    rw [hlist] at hasc
    exact hasc.sublist (List.sublist_cons_self old after |>.append_left before)
  refine ⟨hless, hn ▸ hcut'.ascending hrest, ?_⟩
  have hold : ∀ e ∈ before, ¬ Tied m.less e.1 old.1 := fun e he =>
    hcut.not_tied e (List.mem_append_left after he)
  have hnew : ∀ e ∈ before, ¬ Tied m.less e.1 entry.1 := hkey.symm ▸ hold
  rw [hn, hlist, byClass_append_cons hweak hold, byClass_append_cons hweak hnew, hkey,
    hweak.classOf_eq_iff.mpr htied, Function.update_idem]

/-- Takes the entry at a cut out. -/
theorem replaced_of_removed {m n : SortedMap κ ν} {hweak : WeakOrder m.less} {key : κ}
    {before after : List (κ × ν)} {old : κ × ν} (hasc : Ascending m.less m.toList)
    (hlist : m.toList = before ++ old :: after) (hcut : Cut m.less old.1 before after)
    (htied : Tied m.less key old.1) (hless : n.less = m.less)
    (hn : n.toList = before ++ after) : Replaced m hweak key none n := by
  refine ⟨hless, ?_, ?_⟩
  · rw [hlist] at hasc
    rw [hn]
    exact hasc.sublist (List.sublist_cons_self old after |>.append_left before)
  · rw [hn, hlist, byClass_append hweak hcut.not_tied, hweak.classOf_eq_iff.mpr htied]

/-- Puts an entry where the cut for its key is. -/
theorem replaced_of_free {m n : SortedMap κ ν} {hweak : WeakOrder m.less} {entry : κ × ν}
    {before after : List (κ × ν)} (hasc : Ascending m.less m.toList)
    (hlist : m.toList = before ++ after) (hcut : Cut m.less entry.1 before after)
    (hless : n.less = m.less) (hn : n.toList = before ++ entry :: after) :
    Replaced m hweak entry.1 (some entry) n := by
  have hnew : ∀ e ∈ before, ¬ Tied m.less e.1 entry.1 := fun e he =>
    hcut.not_tied e (List.mem_append_left after he)
  refine ⟨hless, hn ▸ hcut.ascending (hlist ▸ hasc), ?_⟩
  rw [hn, hlist, byClass_append_cons hweak hnew]

/-! ### What the operations do with a key -/

/-- What becomes of a key whose class has the given entry. -/
structure OnTaken (memory : Allocator) (m : SortedMap κ ν) (hweak : WeakOrder m.less) (key : κ)
    (entry : κ × ν) : Prop where
  entry?_eq : m.entry? key = some entry
  get?_eq : m.get? key = some entry.2
  find_eq : m.find key = .ok entry.2
  contains_eq : m.contains key = true
  insert_eq : ∀ value, insert memory key value m = .error (.refused .alreadyExists) m
  set?_eq : ∀ value, ∃ n, set? key value m = (some entry.2, n) ∧
    Replaced m hweak key (some (entry.1, value)) n
  insertOrAssign_eq : ∀ value, ∃ n, insertOrAssign memory key value m = .ok (some entry.2) n ∧
    Replaced m hweak key (some (entry.1, value)) n
  remove_eq : ∃ n, remove key m = .ok entry.2 n ∧ Replaced m hweak key none n

/-- What becomes of a key whose class has no entry.  Only the lack of memory keeps a
new entry out, and then the map stays as it was; with room for it, it is taken in. -/
structure OnFree (memory : Allocator) (m : SortedMap κ ν) (hweak : WeakOrder m.less) (key : κ) :
    Prop where
  entry?_eq : m.entry? key = none
  get?_eq : m.get? key = none
  find_eq : m.find key = .error .notFound
  contains_eq : m.contains key = false
  insert_attempt : ∀ value, Attempt Failure.IsShortage m
    (Replaced m hweak key (some (key, value))) (insert memory key value m)
  set?_eq : ∀ value, set? key value m = (none, m)
  insertOrAssign_eq : ∀ value,
    (∃ n, insertOrAssign memory key value m = .ok none n ∧
      Replaced m hweak key (some (key, value)) n) ∨
    ∃ failure, insertOrAssign memory key value m = .error failure m ∧ failure.IsShortage
  remove_eq : remove key m = .error (.refused .notFound) m
  insert_ok : m.toList.length < m.entries.capacity → ∀ value,
    ∃ n, insert memory key value m = .ok () n ∧ insertOrAssign memory key value m = .ok none n

theorem Proper.onTaken {m : SortedMap κ ν} (h : m.Proper) (memory : Allocator) {key : κ}
    {entry : κ × ν} (hentry : byClass h.weak m.toList (h.weak.classOf key) = some entry) :
    OnTaken memory m h.weak key entry := by
  obtain ⟨before, after, hsearch, hlist, hcut, htied⟩ := h.search_taken hentry
  have hpresent := present_of_taken memory hsearch hlist
  have hassigned : ∀ value n, Holding m (before ++ (entry.1, value) :: after) n →
      Replaced m h.weak key (some (entry.1, value)) n := fun value n hn =>
    replaced_of_taken h.ascending hlist hcut htied hn.less_eq rfl hn.toList_eq
  exact
    { entry?_eq := hpresent.entry?_eq
      get?_eq := hpresent.get?_eq
      find_eq := hpresent.find_eq
      contains_eq := hpresent.contains_eq
      insert_eq := hpresent.insert_eq
      set?_eq := fun value => (hpresent.set?_eq value).imp fun n hn =>
        ⟨hn.1, hassigned value n hn.2⟩
      insertOrAssign_eq := fun value => (hpresent.insertOrAssign_eq value).imp fun n hn =>
        ⟨hn.1, hassigned value n hn.2⟩
      remove_eq := hpresent.remove_eq.imp fun n hn =>
        ⟨hn.1, replaced_of_removed h.ascending hlist hcut htied hn.2.less_eq hn.2.toList_eq⟩ }

theorem Proper.onFree {m : SortedMap κ ν} (h : m.Proper) (memory : Allocator) {key : κ}
    (hentry : byClass h.weak m.toList (h.weak.classOf key) = none) :
    OnFree memory m h.weak key := by
  obtain ⟨before, after, hsearch, hlist, hcut⟩ := h.search_free hentry
  have habsent := absent_of_free memory hsearch hlist
  have hadded : ∀ value n, Holding m (before ++ (key, value) :: after) n →
      Replaced m h.weak key (some (key, value)) n := by
    intro value n hn
    have hcut' : Cut m.less (key, value).1 before after := hcut
    exact replaced_of_free h.ascending hlist hcut' hn.less_eq hn.toList_eq
  exact
    { entry?_eq := habsent.entry?_eq
      get?_eq := habsent.get?_eq
      find_eq := habsent.find_eq
      contains_eq := habsent.contains_eq
      insert_attempt := fun value => (habsent.insert_attempt value).mono (hadded value)
      set?_eq := habsent.set?_eq
      insertOrAssign_eq := fun value => (habsent.insertOrAssign_eq value).imp_left fun hok =>
        hok.imp fun n hn => ⟨hn.1, hadded value n hn.2⟩
      remove_eq := habsent.remove_eq
      insert_ok := habsent.insert_ok }

/-! ### Runs -/

theorem proper_of_nil {m : SortedMap κ ν} (hweak : WeakOrder m.less) (h : m.toList = []) :
    m.Proper := by
  refine ⟨hweak, ?_⟩
  rw [h]
  exact List.Pairwise.nil

theorem new_eq_ok {memory : Allocator} {less : κ → κ → Bool} {m : SortedMap κ ν}
    (h : new memory less = .ok m) : m.less = less ∧ m.toList = [] := by
  unfold new at h
  split at h
  · rename_i entries hnew
    obtain rfl := Except.ok.inj h
    exact ⟨rfl, (DynArray.ofPolicy_widened hnew).1.toList_eq⟩
  · contradiction

theorem toList_clear (m : SortedMap κ ν) : m.clear.toList = [] := DynArray.toList_clear m.entries

theorem Proper.insert {m : SortedMap κ ν} (h : m.Proper) (memory : Allocator) (key : κ)
    (value : ν) : (leftBy (SortedMap.insert memory key value m)).Proper := by
  cases hentry : byClass h.weak m.toList (h.weak.classOf key) with
  | some entry =>
      rw [(h.onTaken memory hentry).insert_eq value]
      exact h
  | none =>
      have hinsert := (h.onFree memory hentry).insert_attempt value
      exact hinsert.leftBy h fun n hn => hn.proper

theorem Proper.insertOrAssign {m : SortedMap κ ν} (h : m.Proper) (memory : Allocator) (key : κ)
    (value : ν) : (leftBy (SortedMap.insertOrAssign memory key value m)).Proper := by
  cases hentry : byClass h.weak m.toList (h.weak.classOf key) with
  | some entry =>
      obtain ⟨n, hassign, hn⟩ := (h.onTaken memory hentry).insertOrAssign_eq value
      rw [hassign]
      exact hn.proper
  | none =>
      rcases (h.onFree memory hentry).insertOrAssign_eq value with
        ⟨n, hassign, hn⟩ | ⟨failure, hassign, -⟩
      · rw [hassign]
        exact hn.proper
      · rw [hassign]
        exact h

theorem Proper.set? {m : SortedMap κ ν} (h : m.Proper) (memory : Allocator) (key : κ)
    (value : ν) : (SortedMap.set? key value m).2.Proper := by
  cases hentry : byClass h.weak m.toList (h.weak.classOf key) with
  | some entry =>
      obtain ⟨n, hset, hn⟩ := (h.onTaken memory hentry).set?_eq value
      rw [hset]
      exact hn.proper
  | none =>
      rw [(h.onFree memory hentry).set?_eq value]
      exact h

theorem Proper.remove {m : SortedMap κ ν} (h : m.Proper) (memory : Allocator) (key : κ) :
    (leftBy (SortedMap.remove key m)).Proper := by
  cases hentry : byClass h.weak m.toList (h.weak.classOf key) with
  | some entry =>
      obtain ⟨n, hremove, hn⟩ := (h.onTaken memory hentry).remove_eq
      rw [hremove]
      exact hn.proper
  | none =>
      rw [(h.onFree memory hentry).remove_eq]
      exact h

/-- A predicate that a map is made with orders the keys. -/
def Command.Orders : Command κ ν → Prop
  | new less => WeakOrder less
  | _ => True

theorem Command.keeps_proper (memory : Allocator) {command : Command κ ν}
    (h : command.Orders) : (command.effect memory).Keeps Proper := by
  cases command with
  | new less =>
      intro m hm
      obtain ⟨rfl, hnil⟩ := new_eq_ok hm
      exact proper_of_nil h hnil
  | insert key value =>
      refine Effect.keeps_failing fun m hm => ?_
      rw [leftBy_silently]
      exact hm.insert memory key value
  | insertOrAssign key value =>
      refine Effect.keeps_failing fun m hm => ?_
      rw [leftBy_map]
      exact hm.insertOrAssign memory key value
  | set? key value => exact Effect.keeps_total fun m hm => hm.set? memory key value
  | get? key => exact Effect.keeps_look _
  | find key => exact Effect.keeps_lookChecked _
  | remove key =>
      refine Effect.keeps_failing fun m hm => ?_
      rw [leftBy_map]
      exact hm.remove memory key
  | clear => exact fun m hm => proper_of_nil (m := m.clear) hm.weak (toList_clear m)
  | exchange => exact fun m n hm hn => ⟨hn, hm⟩

theorem run_proper (operations : List (Place × Allocator × Command κ ν))
    (horders : ∀ operation ∈ operations, operation.2.2.Orders) :
    (Workspace.vacant.runEach Command.effect operations).2.Holds Proper :=
  Workspace.holds_runEach fun operation hmem =>
    Command.keeps_proper operation.2.1 (horders operation hmem)

/-- A map whose entries have a class each, and whose operations look at the class of
a key and change nothing but what the entries say about it. -/
structure ActsAsFiniteMap (memory : Allocator) (m : SortedMap κ ν) (hweak : WeakOrder m.less) :
    Prop where
  apart : m.toList.Pairwise fun e f => ¬ Tied m.less e.1 f.1
  found_iff : ∀ key entry, byClass hweak m.toList (hweak.classOf key) = some entry ↔
    entry ∈ m.toList ∧ Tied m.less entry.1 key
  taken : ∀ key entry, byClass hweak m.toList (hweak.classOf key) = some entry →
    OnTaken memory m hweak key entry
  free : ∀ key, byClass hweak m.toList (hweak.classOf key) = none → OnFree memory m hweak key
  cleared : byClass hweak m.clear.toList = fun _ => none
  fresh : ∀ n : SortedMap κ ν, new memory m.less = .ok n →
    n.less = m.less ∧ byClass hweak n.toList = fun _ => none

theorem Proper.found_iff {m : SortedMap κ ν} (h : m.Proper) (key : κ) (entry : κ × ν) :
    byClass h.weak m.toList (h.weak.classOf key) = some entry ↔
      entry ∈ m.toList ∧ Tied m.less entry.1 key := by
  constructor
  · intro hfound
    rw [byClass_classOf] at hfound
    exact ⟨List.mem_of_find?_eq_some hfound, by simpa using List.find?_some hfound⟩
  · rintro ⟨hmem, htied⟩
    obtain ⟨before, after, hlist⟩ := List.append_of_mem hmem
    have hasc := h.ascending
    rw [hlist] at hasc
    obtain ⟨-, hafter, hacross⟩ := List.pairwise_append.mp hasc
    have hcut : Cut m.less entry.1 before after := by
      constructor
      · exact fun e he => hacross e he entry List.mem_cons_self
      · exact (List.pairwise_cons.mp hafter).1
    rw [← h.weak.classOf_eq_iff.mpr htied, hlist]
    exact hcut.byClass_taken h.weak

theorem Proper.actsAsFiniteMap {m : SortedMap κ ν} (h : m.Proper) (memory : Allocator) :
    ActsAsFiniteMap memory m h.weak where
  apart := by
    apply h.ascending.imp
    intro e f hless htied
    rw [htied.1] at hless
    contradiction
  found_iff := h.found_iff
  taken _ _ hentry := h.onTaken memory hentry
  free _ hentry := h.onFree memory hentry
  cleared := by rw [toList_clear, byClass_nil]
  fresh n hn := by
    obtain ⟨hless, hnil⟩ := new_eq_ok hn
    rw [hnil]
    exact ⟨hless, byClass_nil h.weak⟩

/-- Every map that a run leaves behind is a finite map from classes of tied keys to
entries, whatever predicates that order the maps of the run were made with. -/
theorem run_acts_as_finite_map (operations : List (Place × Allocator × Command κ ν))
    (horders : ∀ operation ∈ operations, operation.2.2.Orders) (place : Place)
    (m : SortedMap κ ν)
    (hm : m ∈ (Workspace.vacant.runEach Command.effect operations).2.get place) :
    ∃ hweak : WeakOrder m.less, ∀ memory, ActsAsFiniteMap memory m hweak :=
  have hproper : m.Proper := run_proper operations horders place m hm
  ⟨hproper.weak, hproper.actsAsFiniteMap⟩

namespace FiniteMapWitness

/-- The last decimal digit. -/
def lastDigit (key : UInt8) : Nat := key.toNat % 10

/-- Two maps of different orders change places; key 13 is tied with key 3 in one of
them and not in the other.  When memory has run out, there is still room in both. -/
def operations : List (Place × Allocator × Command UInt8 UInt8) :=
  [(.first, .addressSpace, .new (lessBy UInt8.toNat)),
    (.second, .addressSpace, .new (lessBy lastDigit)), (.second, .addressSpace, .insert 3 1),
    (.second, .exhausted, .insert 1 2), (.second, .exhausted, .insert 13 3),
    (.first, .exhausted, .insert 13 4), (.first, .exhausted, .exchange),
    (.first, .exhausted, .insertOrAssign 23 5), (.first, .addressSpace, .insertOrAssign 40 6),
    (.first, .addressSpace, .remove 21)]

theorem operations_order : ∀ operation ∈ operations, operation.2.2.Orders := by
  simp [operations, Command.Orders, weakOrder_lessBy]

def left : Option (SortedMap UInt8 UInt8) :=
  (Workspace.vacant.runEach Command.effect operations).2.get .first

theorem run_acts_as_finite_map_exchanged :
    ∃ m ∈ left, m.toList = [(40, 6), (3, 5)] ∧
      insert .addressSpace 13 7 m = .error (.refused .alreadyExists) m ∧
      ∃ hweak : WeakOrder m.less, ∀ memory, ActsAsFiniteMap memory m hweak := by
  have hsome : left.isSome = true := by decide +kernel
  obtain ⟨m, hm⟩ := Option.isSome_iff_exists.mp hsome
  have hlist : left.map toList = some [(40, 6), (3, 5)] := by decide +kernel
  have htied : left.map (fun m => decide (Tied m.less 3 13)) = some true := by decide +kernel
  rw [hm, Option.map_some, Option.some_inj] at hlist htied
  obtain ⟨hweak, hacts⟩ := run_acts_as_finite_map operations operations_order .first m hm
  have hentry : byClass hweak m.toList (hweak.classOf 13) = some (3, 5) :=
    ((hacts .addressSpace).found_iff 13 (3, 5)).mpr ⟨by simp [hlist], of_decide_eq_true htied⟩
  exact ⟨m, hm, hlist, ((hacts .addressSpace).taken 13 (3, 5) hentry).insert_eq 7, hweak, hacts⟩

end FiniteMapWitness

end SortedMap

end Containers
