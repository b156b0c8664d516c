/-
Adding many elements at once comes to the same as adding them one by one.  Both
climb the path of capacities to the first one that is large enough; one by one, a
block is asked for at every step, all at once only for the last.  If smaller blocks
are granted whenever larger ones are, the last step decides for both.
-/
import Containers.Proofs.Gauge

namespace Containers

/-! ### The path of capacities -/

namespace Policy

theorem climb?_of_le {p : Policy} {required capacity : Nat} (h : required ≤ capacity) :
    p.climb? required capacity = some capacity := by
  rw [climb?, if_pos h]

theorem climb?_of_lt {p : Policy} {required capacity : Nat} (h : capacity < required) :
    p.climb? required capacity = (p.grown? capacity).bind (p.climb? required) := by
  rw [climb?, if_neg (Nat.not_le.mpr h)]
  split <;> simp [*]

end Policy

namespace DynArray

variable {α : Type} [Element α]

theorem HasBlock.of_le {memory : Allocator} (hmono : memory.Monotone) {small large : Nat}
    (h : HasBlock memory α large) (hle : small ≤ large) : HasBlock memory α small :=
  ⟨Nat.le_trans hle h.1, hmono _ _ (Nat.mul_le_mul_right _ hle) h.2⟩

/-- Where the path of capacities from `capacity` on first has room for `required`
elements, there is a block, or no block is needed. -/
def Affords (memory : Allocator) (α : Type) [Element α] (p : Policy)
    (required capacity : Nat) : Prop :=
  ∃ target, p.climb? required capacity = some target ∧
    (target = capacity ∨ HasBlock memory α target)

/-- A full array can afford more if there is a block at the next step up and more can be
afforded from there. -/
theorem affords_of_lt {memory : Allocator} (hmono : memory.Monotone) {p : Policy}
    {required capacity : Nat} (h : capacity < required) :
    Affords memory α p required capacity ↔
      ∃ next, p.grown? capacity = some next ∧ HasBlock memory α next ∧
        Affords memory α p required next := by
  constructor
  · rintro ⟨target, hclimb, hblock⟩
    rw [Policy.climb?_of_lt h, Option.bind_eq_some_iff] at hclimb
    obtain ⟨next, hnext, hclimb⟩ := hclimb
    have hle : next ≤ target := (le_of_climb? hclimb).2
    have hlt : capacity < next := Policy.lt_of_grown? hnext
    have htarget : HasBlock memory α target := hblock.resolve_left (by omega)
    exact ⟨next, hnext, htarget.of_le hmono hle, target, hclimb, Or.inr htarget⟩
  · rintro ⟨next, hnext, hblock, target, hclimb, htarget⟩
    refine ⟨target, ?_, Or.inr ?_⟩
    · rw [Policy.climb?_of_lt h, hnext]
      exact hclimb
    · rcases htarget with rfl | htarget
      · exact hblock
      · exact htarget

/-- What an attempt to take elements in comes to that makes `required` of them.  It
ends well exactly if that can be afforded, and then at the first capacity on the path
with room for them. -/
structure Fills (memory : Allocator) (a : DynArray α) (required : Nat)
    (result : EStateM.Result ArrayError (DynArray α) Unit) : Prop where
  ok_iff : (∃ b, result = .ok () b) ↔ Affords memory α a.policy required a.capacity
  climb?_eq : ∀ b, result = .ok () b → a.policy.climb? required a.capacity = some b.capacity

theorem fills_of_error {memory : Allocator} {a b : DynArray α} {required : Nat}
    {error : ArrayError} (h : ¬ Affords memory α a.policy required a.capacity) :
    Fills memory a required (.error error b) where
  ok_iff := ⟨nofun, fun hafford => absurd hafford h⟩
  climb?_eq := nofun

theorem fills_of_ok {memory : Allocator} {a b : DynArray α} {required : Nat}
    (hclimb : a.policy.climb? required a.capacity = some b.capacity)
    (hblock : b.capacity = a.capacity ∨ HasBlock memory α b.capacity) :
    Fills memory a required (.ok () b) where
  ok_iff := ⟨fun _ => ⟨b.capacity, hclimb, hblock⟩, fun _ => ⟨b, rfl⟩⟩
  climb?_eq := by
    rintro _ ⟨⟩
    exact hclimb

/-! ### One by one -/

/-- The induction is on the elements to come, from any array with room for those that
it has; every step up the path is one of the steps of the climb. -/
theorem pushBackAll_fills {memory : Allocator} (hmono : memory.Monotone) (xs : List α)
    {a : DynArray α} (hfits : a.toList.length ≤ a.capacity) :
    Fills memory a (a.toList.length + xs.length) (pushBackAll memory xs a) := by
  induction xs generalizing a with
  | nil => exact fills_of_ok (Policy.climb?_of_le hfits) (Or.inl rfl)
  | cons v vs ih =>
      have hroom := reserveOne_roomForOne memory a
      rw [pushBackAll, pushBack]
      generalize reserveOne memory a = result at hroom ⊢
      have hlength : ∀ b : DynArray α, b.toList = a.toList →
          ({ b with store := Storage.push b.store v } : DynArray α).toList.length =
            a.toList.length + 1 := by
        intro b hb
        change (Storage.toList (Storage.push b.store v)).length = a.toList.length + 1
        rw [Storage.toList_push, List.length_append, ← hb]
        rfl
      cases hroom with
      | there hne =>
          have hrest := ih (a := { a with store := Storage.push a.store v })
            (by rw [hlength a rfl]; exact Nat.lt_of_le_of_ne hfits hne)
          rw [hlength a rfl, Nat.add_assoc, Nat.add_comm 1] at hrest
          exact ⟨hrest.ok_iff, hrest.climb?_eq⟩
      | @made next hfull hnext hblock =>
          have hlt : a.capacity < a.toList.length + (vs.length + 1) := by omega
          have hup : a.capacity < next := Policy.lt_of_grown? hnext
          have hrest := ih (a := { a.withCapacity next with
              store := Storage.push (a.withCapacity next).store v })
            (by rw [hlength _ (toList_withCapacity a next)]; change _ ≤ next; omega)
          rw [hlength _ (toList_withCapacity a next), Nat.add_assoc, Nat.add_comm 1] at hrest
          constructor
          · rw [List.length_cons, affords_of_lt hmono hlt]
            refine hrest.ok_iff.trans ⟨fun h => ⟨next, hnext, hblock, h⟩, ?_⟩
            rintro ⟨_, hsome, -, h⟩
            rwa [← Option.some.inj (hnext.symm.trans hsome)] at h
          · intro b hb
            rw [List.length_cons, Policy.climb?_of_lt hlt, hnext]
            exact hrest.climb?_eq b hb
      | none hfull hstuck =>
          have hlt : a.capacity < a.toList.length + (vs.length + 1) := by omega
          refine fills_of_error ?_
          rw [List.length_cons, affords_of_lt hmono hlt]
          rintro ⟨next, hnext, hblock, -⟩
          exact hstuck next hnext hblock

/-! ### All at once -/

/-- At most one block is asked for. -/
theorem reserveFor_fills (memory : Allocator) (additional : Nat) {a : DynArray α}
    (ha : a.Bounded) :
    Fills memory a (a.toList.length + additional) (reserveFor memory additional a) ∧
      ∀ b, reserveFor memory additional a = .ok () b →
        b.reallocations ≤ a.reallocations + 1 := by
  have hroom := reserveFor_roomForMany memory additional ha
  generalize reserveFor memory additional a = result at hroom ⊢
  cases hroom with
  | there hroom =>
      refine ⟨fills_of_ok (Policy.climb?_of_le hroom) (Or.inl rfl), ?_⟩
      rintro _ ⟨⟩
      exact Nat.le_succ _
  | made _ hclimb hblock =>
      refine ⟨fills_of_ok hclimb (Or.inr hblock), ?_⟩
      rintro _ ⟨⟩
      exact Nat.le_refl _
  | none hfull hstuck =>
      refine ⟨fills_of_error ?_, nofun⟩
      rintro ⟨target, hclimb, htarget⟩
      have henough := (le_of_climb? hclimb).1
      exact htarget.elim (by omega) (hstuck target hclimb)

theorem extendBy_fills (memory : Allocator) (more : Element.Store α) {a : DynArray α}
    (ha : a.Bounded) :
    Fills memory a (a.toList.length + (Storage.toList more).length) (extendBy memory more a) ∧
      ∀ b, extendBy memory more a = .ok () b → b.reallocations ≤ a.reallocations + 1 := by
  have hreserve := reserveFor_fills memory (Storage.size more) ha
  rw [Storage.size_eq_length] at hreserve
  rw [extendBy, Storage.size_eq_length]
  generalize reserveFor memory (Storage.toList more).length a = result at hreserve ⊢
  obtain ⟨⟨hok, hclimb⟩, hcount⟩ := hreserve
  cases result with
  | ok _ b =>
      refine ⟨⟨?_, ?_⟩, ?_⟩
      · exact ⟨fun _ => hok.mp ⟨b, rfl⟩, fun _ => ⟨_, rfl⟩⟩
      · rintro _ ⟨⟩
        exact hclimb b rfl
      · rintro _ ⟨⟩
        exact hcount b rfl
  | error error b =>
      refine ⟨fills_of_error fun h => ?_, nofun⟩
      obtain ⟨_, hcontra⟩ := hok.mpr h
      contradiction

/-! ### Both ways together -/

/-- Two attempts end well together, and then with the same elements in the same order
and with the same capacity. -/
structure SameFill (left right : EStateM.Result ArrayError (DynArray α) Unit) : Prop where
  ok_iff : (∃ b, left = .ok () b) ↔ ∃ c, right = .ok () c
  same : ∀ b c, left = .ok () b → right = .ok () c →
    b.toList = c.toList ∧ b.capacity = c.capacity

theorem extendBy_sameFill {memory : Allocator} (hmono : memory.Monotone)
    (more : Element.Store α) {a : DynArray α} (ha : a.Bounded) :
    SameFill (extendBy memory more a) (pushBackAll memory (Storage.toList more) a) := by
  obtain ⟨hbulk, -⟩ := extendBy_fills memory more ha
  have hsingle := pushBackAll_fills hmono (Storage.toList more) ha.fits
  refine ⟨hbulk.ok_iff.trans hsingle.ok_iff.symm, ?_⟩
  intro b c hb hc
  constructor
  · rw [(pushBackAll_widened hc).toList_eq]
    exact ((extendBy_attempt memory more a).of_ok hb).toList_eq
  · exact Option.some.inj ((hbulk.climb?_eq b hb).symm.trans (hsingle.climb?_eq c hc))

theorem built_eq_ok_iff {action : EStateM ArrayError (DynArray α) Unit} {a b : DynArray α} :
    built action a = .ok b ↔ action a = .ok () b := by
  refine ⟨built_eq_ok, fun h => ?_⟩
  rw [built, h]

/-- What an array with elements from the start is built from. -/
theorem bind_new_eq_ok_iff {memory : Allocator}
    {action : EStateM ArrayError (DynArray α) Unit} {b : DynArray α} :
    (new memory >>= built action) = .ok b ↔
      ∃ empty, new memory = .ok empty ∧ action empty = .ok () b := by
  constructor
  · intro h
    obtain ⟨empty, hnew, hbuilt⟩ := bind_eq_ok h
    exact ⟨empty, hnew, built_eq_ok hbuilt⟩
  · rintro ⟨empty, hnew, haction⟩
    rw [hnew]
    exact built_eq_ok_iff.mpr haction

theorem append_eq_ok_iff {memory : Allocator} {a other b d : DynArray α} :
    append memory (a, other) = .ok () (b, d) ↔
      extendBy memory other.store a = .ok () b ∧ d = other.clear := by
  rw [append]
  cases extendBy memory other.store a with
  | ok reply c =>
      constructor
      · rintro ⟨⟩
        exact ⟨rfl, rfl⟩
      · rintro ⟨⟨⟩, rfl⟩
        rfl
  | error error c => exact ⟨nofun, fun h => nomatch h.1⟩

/-- An array made from a block has the elements and the capacity of one that is made by
adding them one by one. -/
theorem ofBlock_sameFill {memory : Allocator} (hmono : memory.Monotone) (xs : List α) :
    ((∃ b, ofBlock memory xs = .ok b) ↔ ∃ c, ofList memory xs = .ok c) ∧
      ∀ b c, ofBlock memory xs = .ok b → ofList memory xs = .ok c →
        b.toList = c.toList ∧ b.capacity = c.capacity := by
  have hsame : ∀ empty, new memory = .ok empty →
      SameFill (extend memory xs empty) (pushBackAll memory xs empty) := by
    intro empty hnew
    have hfill := extendBy_sameFill hmono (Storage.ofList xs) (bounded_ofPolicy hnew)
    rwa [Storage.toList_ofList] at hfill
  simp only [ofBlock, ofList, bind_new_eq_ok_iff]
  refine ⟨⟨?_, ?_⟩, ?_⟩
  · rintro ⟨b, empty, hnew, hb⟩
    obtain ⟨c, hc⟩ := (hsame empty hnew).ok_iff.mp ⟨b, hb⟩
    exact ⟨c, empty, hnew, hc⟩
  · rintro ⟨c, empty, hnew, hc⟩
    obtain ⟨b, hb⟩ := (hsame empty hnew).ok_iff.mpr ⟨c, hc⟩
    exact ⟨b, empty, hnew, hb⟩
  · rintro b c ⟨empty, hnew, hb⟩ ⟨empty', hnew', hc⟩
    obtain rfl := Except.ok.inj (hnew.symm.trans hnew')
    exact (hsame empty hnew).same b c hb hc

/-- From every array that a run leaves behind, adding a list at once ends well exactly
if adding its elements one by one does, and then both leave the same elements and the
same capacity, at once by one change of the capacity or none.  It is the same with the
elements of another array, which is emptied and otherwise stays as it is, and with a
new array, which is made at once, one by one, or by adding to an empty one. -/
theorem run_fills_in_bulk (operations : List (Place × Allocator × Command α)) (place : Place)
    (a : DynArray α) (ha : a ∈ (Workspace.vacant.runEach Command.effect operations).2.get place)
    (memory : Allocator) (hmono : memory.Monotone) (xs : List α) :
    SameFill (extend memory xs a) (pushBackAll memory xs a) ∧
      (∀ b, extend memory xs a = .ok () b →
        b.toList = a.toList ++ xs ∧ b.reallocations ≤ a.reallocations + 1) ∧
      (∀ other : DynArray α, other.toList = xs →
        ((∃ b d, append memory (a, other) = .ok () (b, d)) ↔
          ∃ c, pushBackAll memory xs a = .ok () c) ∧
        ∀ b c d, append memory (a, other) = .ok () (b, d) → pushBackAll memory xs a = .ok () c →
          b.toList = c.toList ∧ b.capacity = c.capacity ∧
            b.reallocations ≤ a.reallocations + 1 ∧ d.toList = [] ∧
            d.capacity = other.capacity ∧ d.policy = other.policy ∧
            d.reallocations = other.reallocations) ∧
      ((∃ b, ofBlock memory xs = .ok b) ↔ ∃ c, ofList memory xs = .ok c) ∧
      (∀ b c, ofBlock memory xs = .ok b → ofList memory xs = .ok c →
        b.toList = c.toList ∧ b.capacity = c.capacity) ∧
      ∀ c, ofList memory xs = .ok c ↔
        ∃ empty, new memory = .ok empty ∧ pushBackAll memory xs empty = .ok () c := by
  have hbounded : a.Bounded := run_bounded operations place a ha
  have hsame := fun more => extendBy_sameFill hmono more hbounded
  have hcount := fun more => (extendBy_fills memory more hbounded).2
  have hblock := ofBlock_sameFill hmono xs
  refine ⟨?_, ?_, ?_, hblock.1, hblock.2, fun c => bind_new_eq_ok_iff⟩
  · have hlist := hsame (Storage.ofList xs)
    rwa [Storage.toList_ofList] at hlist
  · intro b hb
    refine ⟨?_, hcount _ b hb⟩
    have hlist := ((extendBy_attempt memory _ a).of_ok hb).toList_eq
    rwa [Storage.toList_ofList] at hlist
  · rintro other rfl
    simp only [append_eq_ok_iff]
    have hother : SameFill (extendBy memory other.store a) (pushBackAll memory other.toList a) :=
      hsame other.store
    refine ⟨⟨?_, ?_⟩, ?_⟩
    · rintro ⟨b, _, hb, -⟩
      exact hother.ok_iff.mp ⟨b, hb⟩
    · intro hc
      obtain ⟨b, hb⟩ := hother.ok_iff.mpr hc
      exact ⟨b, _, hb, rfl⟩
    · rintro b c _ ⟨hb, rfl⟩ hc
      obtain ⟨hlist, hcapacity⟩ := hother.same b c hb hc
      exact ⟨hlist, hcapacity, hcount _ b hb, toList_clear other, rfl, rfl, rfl⟩

namespace BulkAppendWitness

/-- Grow by one half, shrink at a quarter, never below two. -/
def byHalf : Policy.Parameters := ⟨⟨0x3ff8000000000000⟩, ⟨0x3fd0000000000000⟩, 2⟩

/-- An array whose capacity was set to four, off the path from two. -/
def operations : List (Place × Allocator × Command UInt8) :=
  [(.first, .addressSpace, .ofParameters byHalf), (.first, .addressSpace, .reserve 4),
    (.first, .exhausted, .pushBack 1), (.first, .exhausted, .pushFront 2),
    (.first, .exhausted, .pushBack 3)]

def more : List UInt8 := [10, 11, 12, 13, 14, 15, 16, 17, 18]

def left : Option (DynArray UInt8) :=
  (Workspace.vacant.runEach Command.effect operations).2.get .first

/-- Three steps up the path, from four to six, nine and fourteen. -/
theorem run_fills_in_bulk_off_path :
    Allocator.addressSpace.Monotone ∧ ∃ a ∈ left, a.capacity = 4 ∧
      ∃ b, extend .addressSpace more a = .ok () b ∧ b.capacity = 14 ∧
        b.reallocations ≤ a.reallocations + 1 ∧
        ∃ c, pushBackAll .addressSpace more a = .ok () c ∧ c.toList = b.toList ∧
          c.capacity = 14 := by
  have hmono : Allocator.addressSpace.Monotone := Allocator.monotone_upTo _
  have hsome : left.isSome = true := by decide +kernel
  obtain ⟨a, ha⟩ := Option.isSome_iff_exists.mp hsome
  have hcapacity : left.map capacity = some 4 := by decide +kernel
  have hextended :
      left.map (fun a => (built (extend .addressSpace more) a).toOption.map capacity) =
        some (some 14) := by decide +kernel
  rw [ha, Option.map_some, Option.some_inj] at hcapacity hextended
  cases hbuilt : built (extend .addressSpace more) a with
  | error error => simp [hbuilt, Except.toOption] at hextended
  | ok b =>
      have hb : extend .addressSpace more a = .ok () b := built_eq_ok hbuilt
      have hcapacityB : b.capacity = 14 := by simpa [hbuilt, Except.toOption] using hextended
      obtain ⟨hsame, hcount, -⟩ :=
        run_fills_in_bulk operations .first a ha .addressSpace hmono more
      obtain ⟨c, hc⟩ := hsame.ok_iff.mp ⟨b, hb⟩
      obtain ⟨hlist, hclimbed⟩ := hsame.same b c hb hc
      exact ⟨hmono, a, ha, hcapacity, b, hb, hcapacityB, (hcount b hb).2, c, hc, hlist.symm,
        hclimbed.symm.trans hcapacityB⟩

end BulkAppendWitness

end DynArray

end Containers
