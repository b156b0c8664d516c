/-
The standard policy in whole numbers.  Up to `2^53` nothing that it computes is rounded: it
doubles, shrinks at a quarter and halves as integers do.  An array that is filled one element
at a time then has the least power of two with room for its elements as its capacity, and
was reallocated once for each doubling and once when it was made.
-/
import Containers.Proofs.Contents
import Containers.Proofs.Gauge
import Containers.Proofs.PolicyNumbers
import Mathlib.Data.Nat.Log
import Mathlib.Order.Bounds.Basic

namespace Containers

/-! ### Whole numbers -/

namespace Policy

open Binary64

/-- Up to a quarter of all sizes, there is a size to round up to. -/
theorem exists_roundedUp? {x : Rat} (hx : 0 ≤ x) (hle : x ≤ 2 ^ 62) :
    ∃ n, roundedUp? (.finite x) = some n := by
  have hwhole : (Value.finite x).toSize ≤ 2 ^ 62 := by
    have hbelow : ((Value.finite x).toSize : Rat) ≤ x :=
      (Value.le_toSize_iff (Value.toSize_le _) hx).mp le_rfl
    exact_mod_cast hbelow.trans hle
  have hnext : sizeSum? (Value.finite x).toSize 1 = some ((Value.finite x).toSize + 1) := by
    rw [sizeSum?_eq_some_iff]
    exact ⟨rfl, by simp only [maxSize]; omega⟩
  simp only [roundedUp?, hnext]
  split
  · exact ⟨_, rfl⟩
  · exact ⟨_, rfl⟩

/-- There is a step up as long as the product is at most a quarter of all sizes. -/
theorem exists_grown? {p : Policy} {capacity : Nat} (hcapacity : capacity < maxSize)
    (hle : nearest capacity * p.growth ≤ 2 ^ 62) : ∃ target, p.grown? capacity = some target := by
  have hnonneg : 0 ≤ nearest capacity * p.growth :=
    mul_nonneg (nearest_nonneg (Nat.cast_nonneg capacity)) p.growth_pos.le
  have hproduct : nearest (nearest capacity * p.growth) ≤ 2 ^ 62 :=
    nearest_le_of_le hnonneg ⟨1, 62, by norm_num, by norm_num, by norm_num⟩ hle
  have hrange : nearest (nearest capacity * p.growth) < nearest maxSize :=
    calc nearest (nearest capacity * p.growth) ≤ 2 ^ 62 := hproduct
      _ < 2 ^ 63 := by norm_num
      _ ≤ nearest maxSize :=
        le_nearest_of_le ⟨1, 63, by norm_num, by norm_num, by norm_num⟩ (by norm_num [maxSize])
  have hround : Value.round (nearest capacity * p.growth) =
      .finite (nearest (nearest capacity * p.growth)) :=
    Value.round_eq_finite hnonneg
      ((hle.trans (by norm_num)).trans Value.two_pow_le_half_range)
  obtain ⟨n, hup⟩ := exists_roundedUp? (nearest_nonneg hnonneg) hproduct
  have hnext : sizeSum? capacity 1 = some (capacity + 1) :=
    sizeSum?_eq_some_iff.mpr ⟨rfl, hcapacity⟩
  refine ⟨max (max n (capacity + 1)) p.minCapacity, ?_⟩
  simp [grown?, p.growth_spec.1, Value.ofNat_eq_finite hcapacity.le, Value.ofNat_eq_finite le_rfl,
    Value.mul, hround, Value.lt, hrange, hup, hnext]

/-- Up to `2^53` a step up leads to the double, but no lower than the minimum. -/
theorem standard_grown?_eq {capacity : Nat} (hcapacity : capacity ≤ 2 ^ 53) :
    standard.grown? capacity = some (max (2 * capacity) 4) := by
  have hcast : (capacity : Rat) ≤ 2 ^ 53 := by exact_mod_cast hcapacity
  have hdouble : Representable ((capacity : Rat) * 2) := (representable_natCast hcapacity).double
  have hbelow : capacity < maxSize := by
    simp only [maxSize]
    omega
  have hproduct : nearest capacity * standard.growth ≤ 2 ^ 62 := by
    rw [nearest_natCast_of_le hcapacity, standard_growth]
    linarith
  obtain ⟨target, htarget⟩ := exists_grown? hbelow hproduct
  -- The product is a whole number, so rounding up leaves it as it is.
  obtain ⟨n, heq, hlow, hhigh⟩ := grown?_eq_some hcapacity htarget
  rw [standard_growth, nearest_of_representable hdouble] at hlow hhigh
  have hlow' : capacity * 2 ≤ n := by exact_mod_cast hlow
  have hhigh' : n < capacity * 2 + 1 := by exact_mod_cast hhigh
  have hleast : standard.minCapacity = 4 := rfl
  rw [htarget, heq]
  congr 1
  omega

/-- Up to `2^53` a step down leads to the half without its fraction, but no lower than the
minimum and the size, and only if that is less. -/
theorem standard_shrunk?_eq {capacity : Nat} (hcapacity : capacity ≤ 2 ^ 53) (size : Nat) :
    standard.shrunk? capacity size =
      if capacity ≤ 4 ∨ capacity ≤ max (max (capacity / 2) 4) size then none
      else some (max (max (capacity / 2) 4) size) := by
  have hsome (target : Nat) : standard.shrunk? capacity size = some target ↔
      target = max (max (capacity / 2) 4) size ∧ target < capacity := by
    rw [shrunk?_eq_some_iff, standard_smallest hcapacity]
  split
  · rename_i hstays
    rw [Option.eq_none_iff_forall_ne_some]
    rintro target htarget
    obtain ⟨rfl, hlt⟩ := (hsome target).mp htarget
    omega
  · rename_i hless
    exact (hsome _).mpr ⟨rfl, by omega⟩

/-- As long as the capacity and the size are at most `2^53`, the standard policy decides in
whole numbers: a step up doubles, but leads no lower than four; an array is sparse if at most
a quarter of it is in use; and a step down halves, dropping the fraction, but leads no lower
than four and than the size, and is taken only if that is less. -/
theorem standard_computes_in_integers {capacity size : Nat} (hcapacity : capacity ≤ 2 ^ 53)
    (hsize : size ≤ 2 ^ 53) :
    standard.grown? capacity = some (max (2 * capacity) 4) ∧
      (standard.shouldShrink size capacity = true ↔ 4 * size ≤ capacity) ∧
      standard.shrunk? capacity size =
        if capacity ≤ 4 ∨ capacity ≤ max (max (capacity / 2) 4) size then none
        else some (max (max (capacity / 2) 4) size) :=
  ⟨standard_grown?_eq hcapacity, standard_shouldShrink_iff hsize hcapacity,
    standard_shrunk?_eq hcapacity size⟩

/-- The largest odd capacity that is exact, on both sides of the shrink line. -/
theorem standard_computes_in_integers_odd :
    9007199254740991 ≤ 2 ^ 53 ∧ 2251799813685248 ≤ 2 ^ 53 ∧
      standard.grown? 9007199254740991 = some 18014398509481982 ∧
      standard.shouldShrink 2251799813685247 9007199254740991 = true ∧
      standard.shouldShrink 2251799813685248 9007199254740991 = false ∧
      standard.shrunk? 9007199254740991 2251799813685247 = some 4503599627370495 := by
  have hcapacity : 9007199254740991 ≤ 2 ^ 53 := by norm_num
  have hsparse : 2251799813685247 ≤ 2 ^ 53 := by norm_num
  have hdense : 2251799813685248 ≤ 2 ^ 53 := by norm_num
  obtain ⟨hgrown, hbelow, hshrunk⟩ := standard_computes_in_integers hcapacity hsparse
  obtain ⟨-, habove, -⟩ := standard_computes_in_integers hcapacity hdense
  refine ⟨hcapacity, hdense, hgrown, hbelow.mpr (by norm_num), ?_, hshrunk⟩
  rw [Bool.eq_false_iff, Ne, habove]
  norm_num

end Policy

/-! ### Doubling -/

namespace Gauge

/-- The numbers of an array that was doubled `k` times, and only because it was full. -/
structure Doubled (k : Nat) (x : Gauge) : Prop where
  capacity_eq : x.capacity = 4 * 2 ^ k
  reallocations_eq : x.reallocations = 1 + k
  fits : x.size ≤ x.capacity
  needed : k = 0 ∨ x.capacity < 2 * x.size

/-- The numbers of an array into which `n` elements were put, and none taken away. -/
structure Filled (n : Nat) (x : Gauge) : Prop where
  size_eq : x.size = n
  capacity_eq : ∃ p, IsLeast {p | n ≤ p ∧ ∃ k, p = 2 ^ k} p ∧ x.capacity = max 4 p
  counted : x.reallocations = 1 + Nat.log 2 (x.capacity / 4)
  logarithmic : x.reallocations = 1 + (Nat.clog 2 n - 2)

/-- Only a full array is doubled, and then more than half of it is in use. -/
theorem Doubled.step {k : Nat} {x y : Gauge} (hx : Doubled k x) (h : Step .standard x y)
    (hmax : x.capacity ≤ maxSize) (hmore : y.size = x.size + 1) : ∃ j, Doubled j y := by
  obtain ⟨hcapacity, hcount, hfits, hneeded⟩ := hx
  -- Of the five ways in which the numbers move, two leave one more element.
  cases h with
  | still => omega
  | removed | shrunk =>
      simp only at hmore
      omega
  | added hroom =>
      refine ⟨k, hcapacity, hcount, Nat.lt_of_le_of_ne hfits hroom, hneeded.imp_right ?_⟩
      intro hless
      exact hless.trans_le (Nat.mul_le_mul_left 2 (Nat.le_succ _))
  | @grown capacity next count hnext =>
      obtain rfl : capacity = 4 * 2 ^ k := hcapacity
      obtain rfl := Policy.standard_grown?_double hmax hnext
      refine ⟨k + 1, rfl, congrArg (· + 1) hcount, Policy.lt_of_grown? hnext, Or.inr ?_⟩
      change 4 * 2 ^ (k + 1) < 2 * (4 * 2 ^ k + 1)
      omega

/-- The last doubling was needed, so there is no smaller power of two with room. -/
theorem Doubled.clog_eq {k : Nat} {x : Gauge} (h : Doubled k x) :
    k = 0 ∧ Nat.clog 2 x.size ≤ 2 ∨ Nat.clog 2 x.size = k + 2 := by
  obtain ⟨hcapacity, -, hfits, hneeded⟩ := h
  have hupper : Nat.clog 2 x.size ≤ k + 2 := by
    apply Nat.clog_le_of_le_pow
    rw [pow_add]
    omega
  rcases hneeded with rfl | hless
  · exact Or.inl ⟨rfl, hupper⟩
  · have hlower : k + 1 < Nat.clog 2 x.size := by
      rw [Nat.lt_clog_iff_pow_lt one_lt_two, pow_succ]
      omega
    exact Or.inr (by omega)

theorem Doubled.filled {k : Nat} {x : Gauge} (h : Doubled k x) : Filled x.size x := by
  have hleast : IsLeast {p | x.size ≤ p ∧ ∃ k, p = 2 ^ k} (2 ^ Nat.clog 2 x.size) := by
    refine ⟨⟨Nat.le_pow_clog one_lt_two _, _, rfl⟩, ?_⟩
    rintro _ ⟨hroom, j, rfl⟩
    exact Nat.pow_le_pow_right two_pos (Nat.clog_le_of_le_pow hroom)
  have hquarter : x.capacity / 4 = 2 ^ k := by
    rw [h.capacity_eq]
    exact Nat.mul_div_cancel_left _ (by norm_num)
  refine ⟨rfl, ⟨_, hleast, ?_⟩, ?_, ?_⟩
  · rcases h.clog_eq with ⟨rfl, hsmall⟩ | hclog
    · have hpower : 2 ^ Nat.clog 2 x.size ≤ 2 ^ 2 := Nat.pow_le_pow_right two_pos hsmall
      rw [h.capacity_eq]
      omega
    · have hpos : 0 < 2 ^ k := Nat.two_pow_pos k
      rw [h.capacity_eq, hclog, pow_add]
      omega
  · rw [hquarter, Nat.log_pow one_lt_two, h.reallocations_eq]
  · rcases h.clog_eq with ⟨rfl, hsmall⟩ | hclog
    · rw [h.reallocations_eq]
      omega
    · rw [h.reallocations_eq, hclog]
      omega

end Gauge

namespace DynArray

variable {α : Type} [Element α]

/-! ### One element after the other -/

/-- An array of the standard policy that was doubled whenever it was full. -/
structure DoubledUp (a : DynArray α) : Prop where
  policy_eq : a.policy = .standard
  bounded : a.Bounded
  doubled : ∃ k, a.gauge.Doubled k

theorem doubledUp_new {memory : Allocator} {a : DynArray α} (h : new memory = .ok a) :
    a.DoubledUp ∧ a.toList = [] := by
  obtain ⟨hwide, hcapacity⟩ := ofPolicy_widened h
  have hcount : a.reallocations = 1 := by
    rw [reallocate_eq_ok (built_eq_ok h)]
    rfl
  have hbounded : a.Bounded := bounded_ofPolicy h
  exact ⟨⟨hwide.policy_eq, hbounded, 0, hcapacity, hcount, hbounded.fits, Or.inl rfl⟩,
    hwide.toList_eq⟩

theorem DoubledUp.pushBack {memory : Allocator} {v : α} {a b : DynArray α} (ha : a.DoubledUp)
    (h : DynArray.pushBack memory v a = .ok () b) :
    b.DoubledUp ∧ b.toList = a.toList ++ [v] := by
  have hwide : Widened a (a.toList ++ [v]) b := (pushBack_attempt memory v a).of_ok h
  have hmoved : Moved a b := by simpa [h] using pushBack_moved memory v a
  obtain ⟨k, hdoubled⟩ := ha.doubled
  have hmax : a.capacity ≤ maxSize := ha.bounded.within_limit.trans (slotLimit_le_maxSize _)
  have hmore : b.gauge.size = a.gauge.size + 1 := by
    simp [gauge, hwide.toList_eq]
  exact ⟨⟨hmoved.policy_eq.trans ha.policy_eq, hwide.bounded ha.bounded,
    hdoubled.step (ha.policy_eq ▸ hmoved.step) hmax hmore⟩, hwide.toList_eq⟩

theorem Pushed.doubledUp {a b : DynArray α} {xs : List α} (h : Pushed a xs b)
    (ha : a.DoubledUp) : b.DoubledUp ∧ b.toList = a.toList ++ xs := by
  induction h with
  | nil a => exact ⟨ha, (List.append_nil a.toList).symm⟩
  | cons hpush _ ih =>
      obtain ⟨hb, hlist⟩ := ha.pushBack hpush
      obtain ⟨hc, hrest⟩ := ih hb
      rw [hlist, List.append_assoc, List.singleton_append] at hrest
      exact ⟨hc, hrest⟩

/-- What comes of a new array by adding `xs` one by one. -/
theorem Pushed.filled {memory : Allocator} {a b : DynArray α} {xs : List α} (h : Pushed a xs b)
    (ha : new memory = .ok a) : b.toList = xs ∧ b.gauge.Filled xs.length := by
  obtain ⟨hnew, hempty⟩ := doubledUp_new ha
  obtain ⟨hdoubled, hlist⟩ := h.doubledUp hnew
  rw [hempty, List.nil_append] at hlist
  obtain ⟨k, hk⟩ := hdoubled.doubled
  have hfilled : b.gauge.Filled b.toList.length := hk.filled
  rw [hlist] at hfilled
  exact ⟨hlist, hfilled⟩

/-! ### Runs -/

/-- Additions at the back, each with memory of its own. -/
def pushesIn (place : Place) (pushes : List (Allocator × α)) :
    List (Place × Allocator × Command α) :=
  pushes.map fun push => (place, push.1, .pushBack push.2)

theorem run_pushed {w : Workspace (DynArray α)} {place : Place} {a : DynArray α}
    (ha : a ∈ w.get place) {pushes : List (Allocator × α)}
    (hmemory : ∀ outcome ∈ (w.runEach Command.effect (pushesIn place pushes)).1,
      ¬ outcome.IsShortage) :
    ∃ b ∈ (w.runEach Command.effect (pushesIn place pushes)).2.get place,
      Pushed a (pushes.map Prod.snd) b := by
  induction pushes generalizing w a with
  | nil => exact ⟨a, ha, .nil a⟩
  | cons push rest ih =>
      obtain ⟨memory, v⟩ := push
      obtain ⟨hfirst, hrest⟩ := Workspace.forall_runEach_cons.mp hmemory
      obtain ⟨houtcome, hhere, -⟩ :=
        Workspace.perform_eq w place ((Command.pushBack v).effect memory)
      rw [Option.mem_def.mp ha] at houtcome hhere
      obtain ⟨b, hpush, hstep⟩ :=
        step_of_attempt (pushBack_attempt memory v a) (houtcome ▸ hfirst)
      have hb : ((w.perform place ((Command.pushBack v).effect memory)).2.get place) = some b :=
        hhere.trans (congrArg (·.2.1) hstep)
      obtain ⟨c, hc, hpushed⟩ := ih (Option.mem_def.mpr hb) hrest
      exact ⟨c, hc, .cons hpush hpushed⟩

/-- An array that is made under the standard policy and to which elements are added at the
back, or that is made of a list, has the larger of four and the least power of two with room
for its elements as its capacity, if memory never lacks.  Its reallocations are counted by
the logarithm of the capacity, so there are no more than a logarithm of the elements. -/
theorem run_doubles_when_full (w : Workspace (DynArray α)) (place : Place) (memory : Allocator)
    (pushes : List (Allocator × α)) :
    let operations := (place, memory, .new) :: pushesIn place pushes
    ((∀ outcome ∈ (w.runEach Command.effect operations).1, ¬ outcome.IsShortage) →
      ∃ a ∈ (w.runEach Command.effect operations).2.get place,
        a.toList = pushes.map Prod.snd ∧ a.gauge.Filled pushes.length) ∧
      ∀ (xs : List α) (a : DynArray α), ofList memory xs = .ok a →
        a.toList = xs ∧ a.gauge.Filled xs.length := by
  refine ⟨fun hmemory => ?_, fun xs a ha => ?_⟩
  · obtain ⟨hfirst, hrest⟩ := Workspace.forall_runEach_cons.mp hmemory
    obtain ⟨houtcome, hhere, -⟩ :=
      Workspace.perform_eq w place (Command.effect memory (.new : Command α))
    obtain ⟨empty, hnew, hstep⟩ :=
      step_of_made (made_ofPolicy memory .standard) (houtcome ▸ hfirst)
    have hempty := hhere.trans (congrArg (·.2.1) hstep)
    obtain ⟨a, ha, hpushed⟩ := run_pushed (Option.mem_def.mpr hempty) hrest
    have hfilled := hpushed.filled hnew
    rw [List.length_map] at hfilled
    exact ⟨a, ha, hfilled⟩
  · obtain ⟨empty, hnew, hpushed⟩ := bind_eq_ok ha
    exact (pushed_of_pushBackAll (built_eq_ok hpushed)).filled hnew

namespace DoublingWitness

/-- Nine elements, each of which finds the whole address space. -/
def pushes : List (Allocator × UInt8) := List.replicate 9 (.addressSpace, 7)

def operations : List (Place × Allocator × Command UInt8) :=
  (.first, .addressSpace, .new) :: pushesIn .first pushes

def left : Option (DynArray UInt8) :=
  (Workspace.vacant.runEach Command.effect operations).2.get .first

/-- Room for nine elements was doubled twice, that for a list of five once. -/
theorem run_doubles_when_full_nine :
    (∃ a ∈ left, a.capacity = 16 ∧ a.reallocations = 3 ∧ a.gauge.Filled 9) ∧
      ∃ b, ofList .addressSpace ([1, 2, 3, 4, 5] : List UInt8) = .ok b ∧ b.capacity = 8 ∧
        b.gauge.Filled 5 := by
  obtain ⟨hrun, hlist⟩ := run_doubles_when_full Workspace.vacant .first .addressSpace pushes
  have hmemory : ∀ outcome ∈ (Workspace.vacant.runEach Command.effect operations).1,
      ¬ outcome.IsShortage := by decide +kernel
  have hnumbers : left.map (fun a => (a.capacity, a.reallocations)) = some (16, 3) := by
    decide +kernel
  have hroom : (ofList .addressSpace ([1, 2, 3, 4, 5] : List UInt8)).toOption.map capacity =
      some 8 := by decide +kernel
  refine ⟨?_, ?_⟩
  · obtain ⟨a, ha, -, hfilled⟩ := hrun hmemory
    change a ∈ left at ha
    rw [Option.mem_def.mp ha, Option.map_some, Option.some_inj, Prod.mk.injEq] at hnumbers
    exact ⟨a, ha, hnumbers.1, hnumbers.2, hfilled⟩
  · cases hmade : ofList .addressSpace ([1, 2, 3, 4, 5] : List UInt8) with
    | error error =>
        rw [hmade] at hroom
        contradiction
    | ok b =>
        rw [hmade] at hroom
        exact ⟨b, rfl, Option.some.inj hroom, (hlist _ b hmade).2⟩

end DoublingWitness

end DynArray

end Containers
