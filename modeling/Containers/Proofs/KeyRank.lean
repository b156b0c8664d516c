/-
The rank of a key among ascending entries: how many of their keys are less than it.  A search
ends at the rank, whatever the number of entries is, and its spot is taken exactly if some key
is tied with the one searched for.
-/
import Containers.Proofs.AscendingKeys

namespace Containers

namespace SortedMap

variable {κ ν : Type} {less : κ → κ → Bool} {key : κ}

/-- How many entries have a key that is less than the given one. -/
def rank (less : κ → κ → Bool) (key : κ) (entries : List (κ × ν)) : Nat :=
  entries.countP fun e => less e.1 key

/-- The index of a spot, taken or free. -/
def Spot.index : Spot → Nat
  | taken i => i
  | free i => i

/-- What a spot says about a key: its index is the rank, and it is taken by the only entry with
a tied key, or else a new entry can go there. -/
structure PointsAt (less : κ → κ → Bool) (key : κ) (entries : List (κ × ν)) (spot : Spot) :
    Prop where
  index_eq : spot.index = rank less key entries
  taken_iff : (∃ i, spot = .taken i) ↔ ∃ e ∈ entries, Tied less e.1 key
  free_iff : (∃ i, spot = .free i) ↔ ∀ e ∈ entries, ¬ Tied less e.1 key
  only_tied : ∀ i, spot = .taken i → ∃ e, entries[i]? = some e ∧ Tied less e.1 key ∧
    ∀ j f, entries[j]? = some f → Tied less f.1 key → j = i
  ascending : ∀ i, spot = .free i → ∀ value, Ascending less (entries.insertIdx i (key, value))

/-- Where the lesser keys come first, they are as many as the rank. -/
theorem rank_append {before after : List (κ × ν)} (hbefore : ∀ e ∈ before, less e.1 key = true)
    (hafter : ∀ e ∈ after, less e.1 key = false) :
    rank less key (before ++ after) = before.length := by
  have hnone : after.countP (fun e => less e.1 key) = 0 :=
    List.countP_eq_zero.mpr fun e he => by simp [hafter e he]
  rw [rank, List.countP_append, List.countP_eq_length.mpr hbefore, hnone, Nat.add_zero]

theorem Cut.not_less (hweak : WeakOrder less) {before after : List (κ × ν)}
    (h : Cut less key before after) : ∀ e ∈ after, less e.1 key = false :=
  fun e he => hweak.not_less_of_less (h.greater e he)

theorem pointsAt_taken (hweak : WeakOrder less) {before after : List (κ × ν)} {entry : κ × ν}
    (hasc : Ascending less (before ++ entry :: after)) (hcut : Cut less key before after)
    (htied : Tied less entry.1 key) :
    PointsAt less key (before ++ entry :: after) (.taken before.length) where
  index_eq := by
    have hafter : ∀ e ∈ entry :: after, less e.1 key = false := by
      intro e he
      rcases List.mem_cons.mp he with rfl | he
      · exact htied.1
      · exact hcut.not_less hweak e he
    exact (rank_append hcut.lesser hafter).symm
  taken_iff := by
    have hmem : entry ∈ before ++ entry :: after := by simp
    exact iff_of_true ⟨_, rfl⟩ ⟨entry, hmem, htied⟩
  free_iff := by
    have hmem : entry ∈ before ++ entry :: after := by simp
    exact iff_of_false (by simp) fun hnone => hnone entry hmem htied
  only_tied i hi := by
    obtain rfl := Spot.taken.inj hi
    have hentry : (before ++ entry :: after)[before.length]? = some entry := by simp
    refine ⟨entry, hentry, htied, fun j f hf hsame => ?_⟩
    by_contra hne
    exact hasc.not_tied hne hf hentry (hweak.tied_trans hsame htied.symm)
  ascending i hi := by contradiction

theorem pointsAt_free (hweak : WeakOrder less) {before after : List (κ × ν)}
    (hasc : Ascending less (before ++ after)) (hcut : Cut less key before after) :
    PointsAt less key (before ++ after) (.free before.length) where
  index_eq := (rank_append hcut.lesser (hcut.not_less hweak)).symm
  taken_iff := by
    refine iff_of_false (by simp) ?_
    rintro ⟨e, he, htied⟩
    exact hcut.not_tied e he htied
  free_iff := iff_of_true ⟨_, rfl⟩ hcut.not_tied
  only_tied i hi := by contradiction
  ascending i hi value := by
    obtain rfl := Spot.free.inj hi
    rw [insertIdx_append_length]
    have hnew : Cut less (key, value).1 before after := hcut
    exact hnew.ascending hasc

theorem Located.pointsAt (hweak : WeakOrder less) {entries : List (κ × ν)} {spot : Spot}
    (h : Located less key entries spot) (hasc : Ascending less entries) :
    PointsAt less key entries spot := by
  cases h with
  | taken hcut htied => exact pointsAt_taken hweak hasc hcut htied
  | free hcut => exact pointsAt_free hweak hasc hcut

variable [Element (κ × ν)]

/-- A search in a map with any number of ascending entries points at the rank of the key. -/
theorem search_points_at_rank (m : SortedMap κ ν) (hweak : WeakOrder m.less)
    (hasc : Ascending m.less m.toList) (key : κ) :
    PointsAt m.less key m.toList (m.search key) :=
  (search_located hweak hasc key).pointsAt hweak hasc

namespace KeyRankWitness

/-- Keys in the order of their last digits. -/
def map : SortedMap UInt8 UInt8 :=
  ⟨⟨#[(31, 1), (12, 2), (3, 3), (15, 4), (8, 5)], 8, .standard, 2⟩,
    lessBy fun key => key.toNat % 10⟩

/-- A key that is tied with one that is stored, and one behind all of them. -/
theorem search_points_at_rank_of_digits :
    map.search 25 = .taken 3 ∧ rank map.less 25 map.toList = 3 ∧
      (∃ e ∈ map.toList, Tied map.less e.1 25) ∧
      map.search 19 = .free 5 ∧
      ∀ value, Ascending map.less (map.toList.insertIdx 5 (19, value)) := by
  have hasc : Ascending map.less map.toList := by
    unfold Ascending
    decide +kernel
  have htaken : map.search 25 = .taken 3 := by decide +kernel
  have hfree : map.search 19 = .free 5 := by decide +kernel
  have hpoints := search_points_at_rank map (weakOrder_lessBy _) hasc
  have hrank := (hpoints 25).index_eq
  rw [htaken] at hrank
  exact ⟨htaken, hrank.symm, (hpoints 25).taken_iff.mp ⟨_, htaken⟩, hfree,
    (hpoints 19).ascending 5 hfree⟩

end KeyRankWitness

end SortedMap

end Containers
