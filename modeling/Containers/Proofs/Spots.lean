/-
What a search says about a key, whatever the predicate is.  A search over keys in no
order at all still ends at an index within the entries, and everything that is done
with a key is decided by the spot that it ends at.
-/
import Containers.SortedMap
import Containers.Proofs.Room

namespace Containers

/-! ### Violations -/

/-- No precondition was violated. -/
def Outcome.IsSafe {ρ : Type} : Outcome ρ → Prop
  | violated _ => False
  | _ => True

/-- A step that can be refused, and that finds nothing to violate. -/
def Unviolated {σ τ : Type} : EStateM.Result Failure σ τ → Prop
  | .error (.violated _) _ => False
  | _ => True

theorem Unviolated.map {σ τ υ : Type} {step : EStateM Failure σ τ} {s : σ}
    (h : Unviolated (step s)) (f : τ → υ) : Unviolated ((f <$> step) s) := by
  change Unviolated (EStateM.map f step s)
  unfold EStateM.map
  generalize step s = result at h ⊢
  cases result with
  | ok reply t => trivial
  | error failure t => cases failure <;> exact h

theorem Unviolated.of_attempt {σ : Type} {s : σ} {Done : σ → Prop}
    {result : EStateM.Result Failure σ Unit} (h : Attempt Failure.IsShortage s Done result) :
    Unviolated result := by
  cases h with
  | done _ => trivial
  | @short failure hshort =>
      cases failure with
      | refused error => trivial
      | violated violation => exact hshort

namespace Effect

variable {σ ρ : Type}

/-- No container is found in a state that violates a precondition. -/
def Safe : Effect σ ρ → Prop
  | work step => ∀ s, (step s).1.IsSafe
  | joint step => ∀ s t, (step (s, t)).1.IsSafe
  | make _ _ | copy _ _ | consume _ => True

theorem safe_lookChecked (reply : σ → Except Error ρ) : (lookChecked reply).Safe := by
  intro s
  dsimp only
  split <;> trivial

theorem safe_failing {step : EStateM Failure σ ρ} (h : ∀ s, Unviolated (step s)) :
    (failing step).Safe := by
  intro s
  have hstep := h s
  dsimp only
  generalize step s = result at hstep
  cases result with
  | ok reply t => trivial
  | error failure t =>
      cases failure with
      | refused error => trivial
      | violated violation => exact hstep

end Effect

namespace Workspace

variable {σ ρ : Type}

theorem step_safe {effect : Effect σ ρ} (h : effect.Safe) (here other : Option σ) :
    (step here other effect).1.IsSafe := by
  cases effect with
  | make result reply => cases result <;> trivial
  | copy result reply =>
      cases here with
      | none => trivial
      | some s =>
          simp only [step]
          split <;> trivial
  | work change =>
      cases here with
      | none => trivial
      | some s => exact h s
  | joint change =>
      cases here with
      | none => trivial
      | some s =>
          cases other with
          | none => trivial
          | some t => exact h s t
  | consume reply => cases here <;> trivial

/-- A run of safe effects violates nothing. -/
theorem run_safe {effects : List (Place × Effect σ ρ)} (w : Workspace σ)
    (h : ∀ operation ∈ effects, operation.2.Safe) :
    ∀ outcome ∈ (w.run effects).1, outcome.IsSafe :=
  run_outcomes w fun operation hmem => step_safe (h operation hmem)

end Workspace

namespace SortedMap

variable {κ ν : Type}

/-! ### Where a search ends -/

/-- The index of a taken spot has an entry; that of a free one may be the size. -/
def Spot.Within (size : Nat) : Spot → Prop
  | taken i => i < size
  | free i => i ≤ size

/-- How a spot parts the entries.  Nothing is said about their keys. -/
inductive Parted : List (κ × ν) → Spot → Prop
  | taken (before : List (κ × ν)) (entry : κ × ν) (after : List (κ × ν)) :
      Parted (before ++ entry :: after) (.taken before.length)
  | free (before after : List (κ × ν)) : Parted (before ++ after) (.free before.length)

theorem Parted.within {entries : List (κ × ν)} {spot : Spot} (h : Parted entries spot) :
    spot.Within entries.length := by
  cases h with
  | taken before entry after => simp [Spot.Within]
  | free before after => simp [Spot.Within]

/-- Wherever the bisection stops within the entries, one more look makes a spot of
it. -/
theorem parted_of_le (less : κ → κ → Bool) (key : κ) {entries : List (κ × ν)} {i : Nat}
    (hle : i ≤ entries.length) :
    Parted entries
      (match entries[i]? with
      | some (candidate, _) => if less key candidate then .free i else .taken i
      | none => .free i) := by
  have hlength : (entries.take i).length = i := List.length_take_of_le hle
  have hfree : Parted entries (.free i) := by
    simpa [hlength] using Parted.free (entries.take i) (entries.drop i)
  by_cases hlt : i < entries.length
  · have htaken : Parted entries (.taken i) := by
      have hsplit := Parted.taken (entries.take i) entries[i] (entries.drop (i + 1))
      rwa [hlength, ← List.drop_eq_getElem_cons hlt, List.take_append_drop] at hsplit
    rw [List.getElem?_eq_getElem hlt]
    dsimp only
    split
    · exact hfree
    · exact htaken
  · rw [List.getElem?_eq_none (Nat.le_of_not_lt hlt)]
    exact hfree

variable [Element (κ × ν)] {m : SortedMap κ ν} {key : κ}

theorem size_eq_length (m : SortedMap κ ν) : m.size = m.toList.length :=
  DynArray.size_eq_length m.entries

/-- The bisection stays within the entries, whatever the comparisons answer. -/
theorem search_parted (m : SortedMap κ ν) (key : κ) : Parted m.toList (m.search key) := by
  have hle : partitionPoint (m.isBefore key) 0 m.size ≤ m.toList.length :=
    size_eq_length m ▸ partitionPoint_le (Nat.zero_le m.size)
  have hparted := parted_of_le m.less key hle
  unfold search
  dsimp only
  rw [DynArray.get?_eq_getElem?]
  exact hparted

/-! ### What is done at a spot -/

theorem insertAt_of_room (memory : Allocator) {i : Nat} (entry : κ × ν) {m : SortedMap κ ν}
    (hi : i ≤ m.toList.length) (hroom : m.toList.length < m.entries.capacity) :
    ∃ n, insertAt memory i entry m = .ok () n := by
  obtain ⟨entries, less⟩ := m
  obtain ⟨grown, hinsert⟩ := DynArray.insert_of_room memory entry hi hroom
  exact ⟨⟨grown, less⟩, by simp [insertAt, hinsert]⟩

theorem insertAt_attempt (memory : Allocator) {i : Nat} (entry : κ × ν) {m : SortedMap κ ν}
    (hi : i ≤ m.toList.length) :
    Attempt Failure.IsShortage m
      (fun n => n.less = m.less ∧ n.toList = m.toList.insertIdx i entry)
      (insertAt memory i entry m) := by
  obtain ⟨entries, less⟩ := m
  have hinsert := DynArray.insert_attempt memory entry hi
  unfold insertAt
  dsimp only
  generalize DynArray.insert memory i entry entries = result at hinsert ⊢
  cases hinsert with
  | done hwide => exact .done ⟨rfl, hwide.toList_eq⟩
  | short hshort => exact .short hshort

/-- A map of the same predicate with the given entries. -/
structure Holding (m : SortedMap κ ν) (entries : List (κ × ν)) (n : SortedMap κ ν) : Prop where
  less_eq : n.less = m.less
  toList_eq : n.toList = entries

/-- What every operation makes of a key that has `entry`: it is found, cannot be
inserted, can be overwritten and can be taken out, and the entries around it stay. -/
structure Present (memory : Allocator) (m : SortedMap κ ν) (key : κ)
    (before : List (κ × ν)) (entry : κ × ν) (after : List (κ × ν)) : Prop where
  toList_eq : m.toList = before ++ entry :: after
  search_eq : m.search key = .taken before.length
  entry?_eq : m.entry? key = some entry
  get?_eq : m.get? key = some entry.2
  find_eq : m.find key = .ok entry.2
  contains_eq : m.contains key = true
  insert_eq : ∀ value, insert memory key value m = .error (.refused .alreadyExists) m
  set?_eq : ∀ value, ∃ n, set? key value m = (some entry.2, n) ∧
    Holding m (before ++ (entry.1, value) :: after) n
  insertOrAssign_eq : ∀ value, ∃ n, insertOrAssign memory key value m = .ok (some entry.2) n ∧
    Holding m (before ++ (entry.1, value) :: after) n
  remove_eq : ∃ n, remove key m = .ok entry.2 n ∧ Holding m (before ++ after) n

/-- What every operation makes of a key that has no entry: it is not found, there is
nothing to overwrite or to take out, and it can be inserted.  Only the lack of memory
keeps the new entry out, and then the map stays as it was. -/
structure Absent (memory : Allocator) (m : SortedMap κ ν) (key : κ)
    (before after : List (κ × ν)) : Prop where
  toList_eq : m.toList = before ++ after
  search_eq : m.search key = .free before.length
  entry?_eq : m.entry? key = none
  get?_eq : m.get? key = none
  find_eq : m.find key = .error .notFound
  contains_eq : m.contains key = false
  insert_attempt : ∀ value, Attempt Failure.IsShortage m
    (Holding m (before ++ (key, value) :: after)) (insert memory key value m)
  set?_eq : ∀ value, set? key value m = (none, m)
  insertOrAssign_eq : ∀ value,
    (∃ n, insertOrAssign memory key value m = .ok none n ∧
      Holding m (before ++ (key, value) :: after) n) ∨
    ∃ failure, insertOrAssign memory key value m = .error failure m ∧ failure.IsShortage
  remove_eq : remove key m = .error (.refused .notFound) m
  insert_ok : m.toList.length < m.entries.capacity → ∀ value,
    ∃ n, insert memory key value m = .ok () n ∧ insertOrAssign memory key value m = .ok none n

section Spots

variable {before after : List (κ × ν)} {entry : κ × ν}

theorem present_of_taken (memory : Allocator) (hsearch : m.search key = .taken before.length)
    (hlist : m.toList = before ++ entry :: after) :
    Present memory m key before entry after := by
  have hget : m.entries.get? before.length = some entry := by
    rw [DynArray.get?_eq_getElem?, ← toList, hlist]
    simp
  have hfound : m.entry? key = some entry := by
    unfold entry?
    simp [hsearch, hget]
  have hassigned : ∀ value, Holding m (before ++ (entry.1, value) :: after)
      { m with entries := m.entries.put before.length (entry.1, value) } := by
    intro value
    refine ⟨rfl, ?_⟩
    simp only [toList, DynArray.toList_put]
    rw [← toList, hlist, List.set_append_right before.length _ (Nat.le_refl _)]
    simp
  have hremoved : Holding m (before ++ after) ⟨m.entries.removeAt before.length, m.less⟩ := by
    refine ⟨rfl, ?_⟩
    simp only [toList, DynArray.toList_removeAt]
    rw [← toList, hlist, List.eraseIdx_append_of_length_le (Nat.le_refl _)]
    simp
  constructor
  · exact hlist
  · exact hsearch
  · exact hfound
  · simp [get?, hfound]
  · simp [find, get?, hfound]
  · simp [contains, hsearch]
  · intro value
    simp [insert, hsearch]
  · intro value
    exact ⟨_, by simp [set?, hsearch, hget], hassigned value⟩
  · intro value
    exact ⟨_, by simp [insertOrAssign, DynArray.get, hsearch, hget], hassigned value⟩
  · exact ⟨_, by simp [remove, DynArray.remove, hsearch, hget], hremoved⟩

theorem absent_of_free (memory : Allocator) (hsearch : m.search key = .free before.length)
    (hlist : m.toList = before ++ after) : Absent memory m key before after := by
  have hle : before.length ≤ m.toList.length := by simp [hlist]
  have hfound : m.entry? key = none := by
    unfold entry?
    simp [hsearch]
  have hinsertAt : ∀ value, Attempt Failure.IsShortage m
      (Holding m (before ++ (key, value) :: after))
      (insertAt memory before.length (key, value) m) := by
    intro value
    apply (insertAt_attempt memory (key, value) hle).mono
    rintro n ⟨hless, hn⟩
    rw [hlist, insertIdx_append_length] at hn
    exact ⟨hless, hn⟩
  constructor
  · exact hlist
  · exact hsearch
  · exact hfound
  · simp [get?, hfound]
  · simp [find, get?, hfound]
  · simp [contains, hsearch]
  · intro value
    simpa [insert, hsearch] using hinsertAt value
  · intro value
    simp [set?, hsearch]
  · intro value
    have hinsert := hinsertAt value
    simp only [insertOrAssign, hsearch]
    generalize insertAt memory before.length (key, value) m = result at hinsert ⊢
    cases hinsert with
    | @done n hdone => exact Or.inl ⟨n, rfl, hdone⟩
    | @short failure hshort => exact Or.inr ⟨failure, rfl, hshort⟩
  · simp [remove, hsearch]
  · intro hroom value
    obtain ⟨n, hinsert⟩ := insertAt_of_room memory (key, value) hle hroom
    exact ⟨n, by simp [insert, hsearch, hinsert], by simp [insertOrAssign, hsearch, hinsert]⟩

end Spots

/-- A key has an entry for all operations, or for none of them. -/
theorem present_or_absent (memory : Allocator) (m : SortedMap κ ν) (key : κ) :
    (∃ before entry after, Present memory m key before entry after) ∨
      ∃ before after, Absent memory m key before after := by
  have hparted := search_parted m key
  generalize hspot : m.search key = spot at hparted
  generalize hlist : m.toList = entries at hparted
  cases hparted with
  | taken before entry after =>
      exact Or.inl ⟨before, entry, after, present_of_taken memory hspot hlist⟩
  | free before after => exact Or.inr ⟨before, after, absent_of_free memory hspot hlist⟩

/-! ### Runs -/

theorem insert_unviolated (memory : Allocator) (key : κ) (value : ν) (m : SortedMap κ ν) :
    Unviolated (insert memory key value m) := by
  rcases present_or_absent memory m key with ⟨_, _, _, hpresent⟩ | ⟨_, _, habsent⟩
  · rw [hpresent.insert_eq value]
    trivial
  · exact .of_attempt (habsent.insert_attempt value)

theorem insertOrAssign_unviolated (memory : Allocator) (key : κ) (value : ν)
    (m : SortedMap κ ν) : Unviolated (insertOrAssign memory key value m) := by
  rcases present_or_absent memory m key with ⟨_, _, _, hpresent⟩ | ⟨_, _, habsent⟩
  · obtain ⟨n, hassign, -⟩ := hpresent.insertOrAssign_eq value
    rw [hassign]
    trivial
  · rcases habsent.insertOrAssign_eq value with ⟨n, hassign, -⟩ | ⟨failure, hassign, hshort⟩
    · rw [hassign]
      trivial
    · rw [hassign]
      cases failure with
      | refused error => trivial
      | violated violation => exact hshort

theorem remove_unviolated (memory : Allocator) (key : κ) (m : SortedMap κ ν) :
    Unviolated (remove key m) := by
  rcases present_or_absent memory m key with ⟨_, _, _, hpresent⟩ | ⟨_, _, habsent⟩
  · obtain ⟨n, hremove, -⟩ := hpresent.remove_eq
    rw [hremove]
    trivial
  · rw [habsent.remove_eq]
    trivial

theorem Command.safe (memory : Allocator) (command : Command κ ν) :
    (command.effect memory).Safe := by
  cases command with
  | new less => trivial
  | insert key value =>
      exact Effect.safe_failing fun m => (insert_unviolated memory key value m).map _
  | insertOrAssign key value =>
      exact Effect.safe_failing fun m => (insertOrAssign_unviolated memory key value m).map _
  | set? key value => exact fun _ => trivial
  | get? key => exact fun _ => trivial
  | find key => exact Effect.safe_lookChecked _
  | remove key => exact Effect.safe_failing fun m => (remove_unviolated memory key m).map _
  | clear => exact fun _ => trivial
  | exchange => exact fun _ _ => trivial

/-- No run of operations on maps violates a precondition, whatever the predicates of the
maps answer and whatever memory each operation finds.  Every search, of every key in
every map, ends within the entries; either the key has an entry for all operations on
it, which hand out and change that entry alone, or it has none for all of them, and an
operation that adds one adds no other. -/
theorem operations_agree_on_keys :
    (∀ (w : Workspace (SortedMap κ ν)) (operations : List (Place × Allocator × Command κ ν)),
      ∀ outcome ∈ (w.runEach Command.effect operations).1, outcome.IsSafe) ∧
    ∀ (memory : Allocator) (m : SortedMap κ ν) (key : κ),
      (m.search key).Within m.size ∧
      ((∃ before entry after, Present memory m key before entry after) ∨
        ∃ before after, Absent memory m key before after) := by
  constructor
  · intro w operations
    apply Workspace.run_safe
    intro operation hoperation
    obtain ⟨⟨place, memory, command⟩, -, rfl⟩ := List.mem_map.mp hoperation
    exact command.safe memory
  · intro memory m key
    exact ⟨size_eq_length m ▸ (search_parted m key).within, present_or_absent memory m key⟩

/-- Where every key is less than every other one, and than itself, an entry is never
found again. -/
example :
    ((Workspace.vacant.runEach Command.effect
      [(.first, .addressSpace, .new fun _ _ : UInt8 => true),
        (.first, .addressSpace, .insert 3 (1 : UInt8)),
        (.first, .addressSpace, .insert 3 2)]).2.get .first).map
      (fun m => (m.toList, m.contains 3)) = some ([(3, 1), (3, 2)], false) := by
  decide +kernel

end SortedMap

end Containers
