/-
Which numbers make a policy.  Growth factor and threshold have to denote exact numbers that
leave a band between growing and shrinking, with the one rounding of their product taken into
account; whatever else the patterns may be, a policy is refused.
-/
import Containers.Proofs.NearestEven
import Containers.Proofs.PolicyNumbers
import Containers.Proofs.Room

namespace Containers

namespace Policy

open Binary64

/-- The growth factor denotes `g` and the threshold `s`, and a policy can be followed with
them. -/
structure Admissible (p : Parameters) (g s : Rat) : Prop where
  growth_eq : p.growthFactor.value = .finite g
  threshold_eq : p.shrinkThreshold.value = .finite s
  one_lt_growth : 1 < g
  threshold_pos : 0 < s
  product_lt_one : ∃ r, RoundsTo (s * g) r ∧ r < 1
  one_le_minCapacity : 1 ≤ p.minCapacity

namespace Admissible

variable {p : Parameters} {g s : Rat}

theorem product_nonneg (h : Admissible p g s) : 0 ≤ s * g :=
  mul_nonneg h.threshold_pos.le (one_pos.trans h.one_lt_growth).le

theorem nearest_lt_one (h : Admissible p g s) : nearest (s * g) < 1 := by
  obtain ⟨r, hr, hlt⟩ := h.product_lt_one
  rwa [← (roundsTo_iff h.product_nonneg).mp hr]

/-- A product of one or more is not rounded below one. -/
theorem mul_lt_one (h : Admissible p g s) : s * g < 1 := by
  by_contra hnot
  exact (le_nearest_of_le representable_one (not_lt.mp hnot)).not_gt h.nearest_lt_one

theorem threshold_lt_one (h : Admissible p g s) : s < 1 :=
  calc s < s * g := lt_mul_of_one_lt_right h.threshold_pos h.one_lt_growth
    _ < 1 := h.mul_lt_one

theorem fault?_eq_none (h : Admissible p g s) : fault? p = none := by
  have hround : Value.round (s * g) = .finite (nearest (s * g)) := by
    refine Value.round_eq_finite h.product_nonneg (h.mul_lt_one.le.trans ?_)
    exact one_le_zpow₀ one_le_two (by norm_num)
  have hmin : p.minCapacity ≠ 0 := Nat.one_le_iff_ne_zero.mp h.one_le_minCapacity
  simp [fault?, growsBy, h.growth_eq, h.threshold_eq, h.one_lt_growth, h.threshold_pos, hmin,
    Value.lt, Value.le, Value.mul, hround, h.nearest_lt_one]

end Admissible

theorem ofParameters_eq_ok_iff {p : Parameters} {policy : Policy} :
    ofParameters p = .ok policy ↔ policy.toParameters = p := by
  unfold ofParameters
  constructor
  · intro h
    split at h
    · rw [← Except.ok.inj h]
    · contradiction
  · rintro rfl
    have hfaultless := policy.faultless
    split
    · rfl
    · rename_i fault hfault
      rw [hfaultless] at hfault
      contradiction

/-- The numbers of a policy are admissible. -/
theorem admissible (policy : Policy) :
    Admissible policy.toParameters policy.growth policy.threshold := by
  obtain ⟨hgrowth, hone⟩ := policy.growth_spec
  obtain ⟨hthreshold, hpos, hproduct⟩ := policy.threshold_spec
  have hnonneg : 0 ≤ policy.threshold * policy.growth := (mul_pos hpos policy.growth_pos).le
  exact ⟨hgrowth, hthreshold, hone, hpos, ⟨_, roundsTo_nearest hnonneg, hproduct⟩,
    DynArray.one_le_minCapacity policy⟩

theorem accepted_iff {p : Parameters} :
    (∃ policy, ofParameters p = .ok policy) ↔ ∃ g s, Admissible p g s := by
  constructor
  · rintro ⟨policy, hpolicy⟩
    rw [ofParameters_eq_ok_iff] at hpolicy
    exact ⟨_, _, hpolicy ▸ policy.admissible⟩
  · rintro ⟨g, s, h⟩
    exact ⟨⟨p, h.fault?_eq_none⟩, ofParameters_eq_ok_iff.mpr rfl⟩

/-- Numbers are accepted exactly if they are admissible; a policy keeps the numbers that it was
made of, and these satisfy the band condition without any rounding. -/
theorem ofParameters_accepts_exactly (p : Parameters) :
    ((∃ policy, ofParameters p = .ok policy) ↔ ∃ g s, Admissible p g s) ∧
      ∀ policy, ofParameters p = .ok policy →
        policy.toParameters = p ∧ Admissible p policy.growth policy.threshold ∧
          0 < policy.threshold ∧ policy.threshold < 1 ∧
          policy.threshold * policy.growth < 1 := by
  refine ⟨accepted_iff, fun policy hpolicy => ?_⟩
  rw [ofParameters_eq_ok_iff] at hpolicy
  have hadmissible := policy.admissible
  exact ⟨hpolicy, hpolicy ▸ hadmissible, hadmissible.threshold_pos, hadmissible.threshold_lt_one,
    hadmissible.mul_lt_one⟩

namespace ValidationWitness

/-- The last threshold that goes with a growth factor of three halves. -/
def last : Parameters := ⟨⟨0x3ff8000000000000⟩, ⟨0x3fe5555555555554⟩, 1⟩

/-- The threshold after it.  The exact product is below one by half of the last digit, and is
rounded to one. -/
def next : Parameters := ⟨⟨0x3ff8000000000000⟩, ⟨0x3fe5555555555555⟩, 1⟩

theorem ofParameters_accepts_exactly_up_to_tie :
    (∃ policy, ofParameters last = .ok policy ∧ policy.toParameters = last ∧
      0 < policy.threshold ∧ policy.threshold < 1 ∧ policy.threshold * policy.growth < 1) ∧
      (∃ g s, next.growthFactor.value = .finite g ∧ next.shrinkThreshold.value = .finite s ∧
        s * g = 1 - 2 ^ (-54 : Int)) ∧
      ¬ ∃ g s, Admissible next g s := by
  obtain ⟨-, hsound⟩ := ofParameters_accepts_exactly last
  obtain ⟨hcomplete, -⟩ := ofParameters_accepts_exactly next
  refine ⟨?_, ⟨3 / 2, 6004799503160661 / 9007199254740992, ?_⟩, ?_⟩
  · have hfaultless : fault? last = none := by decide +kernel
    have hpolicy : ofParameters last = .ok ⟨last, hfaultless⟩ := ofParameters_eq_ok_iff.mpr rfl
    obtain ⟨hnumbers, -, hbounds⟩ := hsound _ hpolicy
    exact ⟨_, hpolicy, hnumbers, hbounds⟩
  · exact ⟨by decide +kernel, by decide +kernel, by norm_num⟩
  · rw [← hcomplete]
    rintro ⟨policy, hpolicy⟩
    have hfault : fault? next = some .product := by decide +kernel
    rw [← ofParameters_eq_ok_iff.mp hpolicy, policy.faultless] at hfault
    contradiction

end ValidationWitness

end Policy

end Containers
