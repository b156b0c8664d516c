/-
When the capacity changes.  An operation changes the capacity of an array at most once,
and counts it.  There are three reasons to raise it, each with a capacity of its own to
go to, and one to lower it.
-/
import Containers.Proofs.Gauge

namespace Containers

namespace DynArray

variable {α : Type} [Element α]

/-! ### Reasons -/

namespace Command

/-- Works on the array in its place.  All other operations make an array, or exchange
two. -/
def IsChange : Command α → Prop
  | new | ofParameters _ | ofList _ | ofBlock _ | exchange => False
  | _ => True

/-- How many elements are to be taken in at once, with `other` in the other place. -/
def bulk? (other : Option (DynArray α)) : Command α → Option Nat
  | extendBy more => some (Storage.size more)
  | append => other.map size
  | _ => none

/-- Reads, overwrites or copies, drops all elements, or is to take an element from an
array that has none. -/
def SparesRoom (a : DynArray α) : Command α → Prop
  | clone | get _ | getChecked _ | front | back | front? | back? => True
  | set _ _ | setChecked _ _ | setFront? _ | setBack? _ | rewrite _ => True
  | clear | drain => True
  | popBack | popFront | popBack? | popFront? | remove _ | removeChecked _ | erase _ =>
    a.size = 0
  | _ => False

end Command

/-- Why the capacity of `a` was raised to that of `b`. -/
inductive Raised (command : Command α) (other : Option (DynArray α)) (a b : DynArray α) : Prop
  /-- This capacity was asked for. -/
  | reserved (hcommand : command = .reserve b.capacity)
  /-- A full array took an element in, after one step up the path of capacities. -/
  | grown (haddition : command.IsAddition) (hfull : a.size = a.capacity)
      (hsize : b.size = a.size + 1) (hnext : a.policy.grown? a.capacity = some b.capacity)
  /-- There was no room for many elements, and this is the first capacity on the path
  that has it. -/
  | climbed {count : Nat} (hbulk : command.bulk? other = some count)
      (hfull : a.capacity < a.size + count) (hsize : b.size = a.size + count)
      (hclimb : a.policy.climb? (a.size + count) a.capacity = some b.capacity)

/-- Why the capacity of `a` was lowered to that of `b`: an element was taken away, which
left the array sparse. -/
structure Lowered (command : Command α) (a b : DynArray α) : Prop where
  isRemoval : command.IsRemoval
  size_eq : a.size = b.size + 1
  sparse : a.policy.shouldShrink b.size a.capacity = true
  above_min : a.policy.minCapacity < a.capacity
  shrunk : a.policy.shrunk? a.capacity b.size = some b.capacity

/-- What an operation may do to the capacity of the array `a` of which it makes `b`. -/
structure Resized (command : Command α) (other : Option (DynArray α)) (a b : DynArray α) :
    Prop where
  policy_eq : b.policy = a.policy
  counted : b.reallocations = a.reallocations + if b.capacity = a.capacity then 0 else 1
  raised : a.capacity < b.capacity → Raised command other a b
  lowered : b.capacity < a.capacity → Lowered command a b

section

variable {command : Command α} {other : Option (DynArray α)} {a b : DynArray α}

theorem Resized.of_same (hpolicy : b.policy = a.policy) (hcapacity : b.capacity = a.capacity)
    (hcount : b.reallocations = a.reallocations) : Resized command other a b where
  policy_eq := hpolicy
  counted := by simp [hcapacity, hcount]
  raised hless := absurd hcapacity (Nat.ne_of_gt hless)
  lowered hless := absurd hcapacity (Nat.ne_of_lt hless)

theorem Resized.of_raised (hpolicy : b.policy = a.policy) (hless : a.capacity < b.capacity)
    (hcount : b.reallocations = a.reallocations + 1) (hraised : Raised command other a b) :
    Resized command other a b where
  policy_eq := hpolicy
  counted := by simp [Nat.ne_of_gt hless, hcount]
  raised _ := hraised
  lowered hmore := absurd hmore (Nat.lt_asymm hless)

/-- No reason to change the capacity is one for an operation that spares it. -/
theorem Resized.capacity_eq (h : Resized command other a b) (hspares : command.SparesRoom a) :
    b.capacity = a.capacity := by
  rcases Nat.lt_trichotomy b.capacity a.capacity with hless | hsame | hmore
  · have hlowered := h.lowered hless
    have hremoval := hlowered.isRemoval
    have hempty : a.size = 0 := by
      cases command <;> first | contradiction | exact hspares
    have hsize := hlowered.size_eq
    omega
  · exact hsame
  · cases h.raised hmore with
    | reserved hcommand =>
        rw [hcommand] at hspares
        contradiction
    | grown haddition => cases command <;> contradiction
    | climbed hbulk => cases command <;> contradiction

end

/-! ### Single elements -/

theorem le_length_of_attempt {ε : Type} {IsShortage : ε → Prop} {a : DynArray α} {xs : List α}
    {result : EStateM.Result ε (DynArray α) Unit}
    (h : Attempt IsShortage a (Widened a xs) result) (hle : a.toList.length ≤ xs.length) :
    a.toList.length ≤ (leftBy result).toList.length := by
  cases h with
  | done hwide => simpa [hwide.toList_eq] using hle
  | short _ => exact Nat.le_refl _

theorem Command.le_length_of_isAddition {command : Command α} (h : command.IsAddition)
    (memory : Allocator) (a : DynArray α) :
    a.toList.length ≤ ((command.effect memory).after a).toList.length := by
  cases command with
  | pushBack v =>
      simpa [effect] using le_length_of_attempt (pushBack_attempt memory v a) (by simp)
  | pushFront v =>
      simpa [effect, DynArray.pushFront] using
        le_length_of_attempt (insertAt_attempt memory 0 v a) (by simp)
  | insert i v =>
      simp only [effect, Effect.after_failing, leftBy_silently]
      by_cases hi : i ≤ a.toList.length
      · refine le_length_of_attempt (insert_attempt memory v hi) ?_
        simp [List.length_insertIdx_of_le_length hi]
      · rw [DynArray.insert, size_eq_length, if_pos (Nat.lt_of_not_le hi)]
        exact Nat.le_refl _
  | _ => contradiction

theorem length_removeAt_le (i : Nat) (a : DynArray α) :
    (a.removeAt i).toList.length ≤ a.toList.length := by
  simpa using List.length_eraseIdx_le a.toList i

theorem Command.length_le_of_isRemoval {command : Command α} (h : command.IsRemoval)
    (memory : Allocator) (a : DynArray α) :
    ((command.effect memory).after a).toList.length ≤ a.toList.length := by
  have hback : (DynArray.popBack? a).2.toList.length ≤ a.toList.length := by
    simp [(popBack?_narrowed a).toList_eq]
  have hfront : (DynArray.popFront? a).2.toList.length ≤ a.toList.length := by
    simp [(popFront?_narrowed a).toList_eq]
  have hremove : ∀ i, (leftBy (DynArray.remove i a)).toList.length ≤ a.toList.length := by
    intro i
    unfold DynArray.remove
    split
    · exact length_removeAt_le i a
    · exact Nat.le_refl _
  cases command with
  | popBack => simpa [effect, leftBy_popBack] using hback
  | popFront => simpa [effect, leftBy_popFront] using hfront
  | popBack? => exact hback
  | popFront? => exact hfront
  | remove i => simpa [effect] using hremove i
  | removeChecked i =>
      simp only [effect, Effect.after_refusable, leftBy_adaptExcept, leftBy_map]
      unfold DynArray.removeChecked
      split
      · exact length_removeAt_le i a
      · exact Nat.le_refl _
  | erase i => simpa [effect, leftBy_erase] using hremove i
  | _ => contradiction

/-- The way in which the numbers move tells what kind of operation it was. -/
theorem Command.resized_of_isSingle {command : Command α} (h : command.IsSingle)
    (memory : Allocator) (other : Option (DynArray α)) (a : DynArray α) :
    Resized command other a ((command.effect memory).after a) := by
  obtain ⟨hpolicy, hstep⟩ := command.moved h memory a
  have hmore := fun hadds : command.IsAddition => le_length_of_isAddition hadds memory a
  have hless := fun htakes : command.IsRemoval => length_le_of_isRemoval htakes memory a
  have hsame := fun hadds htakes => (overwritten h hadds htakes memory a).gauge_eq
  generalize (command.effect memory).after a = b at hpolicy hstep hmore hless hsame
  refine ⟨hpolicy, hstep.counted, fun hraised => ?_, fun hlowered => ?_⟩
  · obtain ⟨hfull, hsize, hnext⟩ := hstep.of_raised hraised
    simp only [gauge] at hfull hsize
    have haddition : command.IsAddition := by
      refine Classical.byContradiction fun hadds => ?_
      by_cases htakes : command.IsRemoval
      · have hcontra := hless htakes
        omega
      · exact absurd (congrArg Gauge.capacity (hsame hadds htakes)) (Nat.ne_of_gt hraised)
    rw [← size_eq_length] at hfull
    rw [← size_eq_length, ← size_eq_length] at hsize
    exact .grown haddition hfull hsize hnext
  · obtain ⟨hsize, hsparse, hnext⟩ := hstep.of_lowered hlowered
    simp only [gauge] at hsize hsparse hnext
    have hremoval : command.IsRemoval := by
      refine Classical.byContradiction fun htakes => ?_
      by_cases hadds : command.IsAddition
      · have hcontra := hmore hadds
        omega
      · exact absurd (congrArg Gauge.capacity (hsame hadds htakes)) (Nat.ne_of_lt hlowered)
    rw [← size_eq_length, ← size_eq_length] at hsize
    rw [← size_eq_length] at hsparse hnext
    obtain ⟨hmin, -, hlt⟩ := shrunk?_bounds hnext
    exact ⟨hremoval, hsize, hsparse, Nat.lt_of_le_of_lt hmin hlt, hnext⟩

/-! ### All other operations -/

theorem resized_reserve (memory : Allocator) (capacity : Nat) (other : Option (DynArray α))
    (a : DynArray α) :
    Resized (.reserve capacity) other a (leftBy (reserve memory capacity a)) := by
  rw [reserve]
  split
  · rename_i hless
    by_cases hblock : HasBlock memory α capacity
    · rw [reallocate_of_hasBlock a hblock]
      exact .of_raised rfl hless rfl (.reserved rfl)
    · obtain ⟨error, herror⟩ := reallocate_of_not_hasBlock a hblock
      rw [herror]
      exact .of_same rfl rfl rfl
  · exact .of_same rfl rfl rfl

theorem resized_extendBy (memory : Allocator) {more : Element.Store α} {command : Command α}
    {other : Option (DynArray α)} (hbulk : command.bulk? other = some (Storage.size more))
    {a : DynArray α} (ha : a.Bounded) :
    Resized command other a (leftBy (extendBy memory more a)) := by
  have hroom := reserveFor_roomForMany memory (Storage.size more) ha
  rw [extendBy]
  generalize reserveFor memory (Storage.size more) a = result at hroom ⊢
  rw [← size_eq_length] at hroom
  cases hroom with
  | there hroom => exact .of_same rfl rfl rfl
  | @made target hfull hclimb hblock =>
      have henough := (le_of_climb? hclimb).1
      refine .of_raised rfl (Nat.lt_of_lt_of_le hfull henough) rfl
        (.climbed hbulk hfull ?_ hclimb)
      rw [size_eq_length, size_eq_length, Storage.size_eq_length, ← List.length_append]
      exact congrArg List.length (Storage.toList_append a.store more)
  | none hfull hstuck => exact .of_same rfl rfl rfl

/-- The array that is to be emptied is emptied or stays as it is. -/
theorem leftBy_append (memory : Allocator) (a c : DynArray α) :
    (leftBy (append memory (a, c))).1 = leftBy (extendBy memory c.store a) ∧
      ((leftBy (append memory (a, c))).2 = c ∨ (leftBy (append memory (a, c))).2 = c.clear) := by
  unfold append
  dsimp only
  generalize extendBy memory c.store a = result
  cases result with
  | ok _ b => exact ⟨rfl, Or.inr rfl⟩
  | error _ b => exact ⟨rfl, Or.inl rfl⟩

/-- The array here is resized, and the one in the other place keeps its numbers: it can
at most be emptied.  A copy takes the other place. -/
structure ResizedHere (command : Command α) (a : DynArray α) (other : Option (DynArray α))
    (left : Option (DynArray α) × Option (DynArray α)) : Prop where
  here : ∃ b ∈ left.1, Resized command other a b
  there : command ≠ .clone → ∀ c ∈ other, ∃ d ∈ left.2,
    d.policy = c.policy ∧ d.capacity = c.capacity ∧ d.reallocations = c.reallocations

theorem ResizedHere.of_alone {command : Command α} {a b : DynArray α}
    {other : Option (DynArray α)} (h : Resized command other a b) :
    ResizedHere command a other (some b, other) where
  here := ⟨b, rfl, h⟩
  there _ c hc := ⟨c, hc, rfl, rfl, rfl⟩

theorem Command.resizedHere {command : Command α} (h : command.IsChange) (memory : Allocator)
    {a : DynArray α} (ha : a.Bounded) (other : Option (DynArray α)) :
    ResizedHere command a other
      (Workspace.step (some a) other (command.effect memory)).2 := by
  have hwork (hwork : (command.effect memory).IsWork)
      (hresized : Resized command other a ((command.effect memory).after a)) :
      ResizedHere command a other
        (Workspace.step (some a) other (command.effect memory)).2 := by
    rw [Workspace.step_of_isWork hwork]
    exact .of_alone hresized
  by_cases hsingle : command.IsSingle
  · exact hwork (isWork hsingle memory) (resized_of_isSingle hsingle memory other a)
  cases command with
  | reserve capacity =>
      exact hwork trivial (by simpa [effect] using resized_reserve memory capacity other a)
  | extendBy more =>
      exact hwork trivial (by simpa [effect] using resized_extendBy memory rfl ha)
  | clear | drain => exact hwork trivial (.of_same rfl rfl rfl)
  | append =>
      cases other with
      | none => exact .of_alone (.of_same rfl rfl rfl)
      | some c =>
          rw [effect, Workspace.step_jointRefusable, leftBy_adaptExcept, leftBy_silently]
          obtain ⟨hhere, hthere⟩ := leftBy_append memory a c
          refine ⟨⟨_, rfl, ?_⟩, ?_⟩
          · rw [hhere]
            exact resized_extendBy memory rfl ha
          · rintro - _ ⟨⟩
            refine ⟨_, rfl, ?_⟩
            rcases hthere with hsame | hempty
            · simp [hsame]
            · simp [hempty, DynArray.clear]
  | clone =>
      refine ⟨⟨a, ?_, .of_same rfl rfl rfl⟩, fun hne => absurd rfl hne⟩
      simp only [effect, Workspace.step]
      split <;> rfl
  | _ => contradiction

/-- Every operation that works on an array counts whether it changed the capacity.  It
raises it only for one of three reasons and lowers it only for one, each time to the
capacity that goes with the reason, and where there is no element to take, or none is
added or taken, not at all.  An array whose elements are moved to another one keeps its
capacity. -/
theorem run_changes_capacity (operations : List (Place × Allocator × Command α))
    (place : Place) (memory : Allocator) (command : Command α) (hchange : command.IsChange)
    (a : DynArray α)
    (ha : a ∈ (Workspace.vacant.runEach Command.effect operations).2.get place) :
    let before := (Workspace.vacant.runEach Command.effect operations).2
    let after := (Workspace.vacant.runEach Command.effect
      (operations ++ [(place, memory, command)])).2
    (∃ b ∈ after.get place, Resized command (before.getOther place) a b ∧
        (command.SparesRoom a → b.capacity = a.capacity)) ∧
      (command ≠ .clone → ∀ c ∈ before.getOther place, ∃ d ∈ after.getOther place,
        d.policy = c.policy ∧ d.capacity = c.capacity ∧
          d.reallocations = c.reallocations) := by
  intro before after
  have hbounded : a.Bounded := run_bounded operations place a ha
  have hstep := command.resizedHere hchange memory hbounded (before.getOther place)
  rw [← Option.mem_def.mp ha] at hstep
  have hafter : after = (before.perform place (command.effect memory)).2 :=
    Workspace.runEach_concat _ _ operations place memory command
  rw [hafter, Workspace.get_perform_eq, Workspace.getOther_perform_eq]
  obtain ⟨b, hb, hresized⟩ := hstep.here
  exact ⟨⟨b, hb, hresized, hresized.capacity_eq⟩, hstep.there⟩

namespace CapacityChangesWitness

/-- Grow by one half, shrink at a quarter, never below two. -/
def byHalf : Policy.Parameters := ⟨⟨0x3ff8000000000000⟩, ⟨0x3fd0000000000000⟩, 2⟩

/-- One element in the first place and three in the second. -/
def operations : List (Place × Allocator × Command UInt8) :=
  [(.first, .addressSpace, .ofParameters byHalf), (.first, .exhausted, .pushBack 1),
    (.second, .addressSpace, .ofList [7, 8, 9])]

/-- What these operations and others after them leave. -/
def left (later : List (Place × Allocator × Command UInt8)) : Workspace (DynArray UInt8) :=
  (Workspace.vacant.runEach Command.effect (operations ++ later)).2

/-- The numbers of what is in a place. -/
def numbers (later : List (Place × Allocator × Command UInt8)) (place : Place) :
    Option (Nat × Nat × Nat) :=
  ((left later).get place).map fun a => (a.size, a.capacity, a.reallocations)

def appending : List (Place × Allocator × Command UInt8) := [(.first, .addressSpace, .append)]

/-- Four elements do not fit into two, and not into the three of the next step up; the
array that they came from keeps its capacity of four. -/
theorem run_changes_capacity_appended :
    ∃ a ∈ (left []).first, ∃ b ∈ (left appending).first, a.capacity = 2 ∧
      b.capacity = 5 ∧ b.reallocations = a.reallocations + 1 ∧
      Raised .append (left []).second a b ∧
      ∃ c ∈ (left []).second, ∃ d ∈ (left appending).second, c.capacity = 4 ∧
        d.capacity = c.capacity ∧ d.reallocations = c.reallocations := by
  have hbefore : numbers [] .first = some (1, 2, 1) := by decide +kernel
  have hafter : numbers appending .first = some (4, 5, 2) := by decide +kernel
  have hsource : numbers [] .second = some (3, 4, 1) := by decide +kernel
  simp only [numbers, Option.map_eq_some_iff, Prod.mk.injEq] at hbefore hafter hsource
  obtain ⟨a, ha, -, hcapacityA, -⟩ := hbefore
  obtain ⟨b', hb', -, hcapacityB, -⟩ := hafter
  obtain ⟨c, hc, -, hcapacityC, -⟩ := hsource
  obtain ⟨⟨b, hb, hresized, -⟩, hthere⟩ :=
    run_changes_capacity operations .first .addressSpace .append trivial a ha
  obtain rfl : b = b' := Option.mem_unique hb hb'
  obtain ⟨d, hd, -, hcapacityD, hcountD⟩ := hthere nofun c hc
  have hmore : a.capacity < b.capacity := by omega
  refine ⟨a, ha, b, hb, hcapacityA, hcapacityB, ?_, hresized.raised hmore,
    c, hc, d, hd, hcapacityC, hcapacityD, hcountD⟩
  rw [hresized.counted, if_neg (Nat.ne_of_gt hmore)]

end CapacityChangesWitness

end DynArray

end Containers
