/-
Searching among ascending entries.  A search cuts the entries in front of the key:
what is before it is less, what is after it is greater, and at most one entry is
tied with it.
-/
import Containers.SortedMap
import Containers.Proofs.Room
import Containers.Proofs.WeakOrder

namespace Containers

/-- All indices before the partition point have the property and none from it on
does, if every index before one with the property has it, too. -/
theorem partitionPoint_spec {holds : Nat → Bool} {low high : Nat} (hle : low ≤ high)
    (hdown : ∀ i j, low ≤ i → i ≤ j → j < high → holds j = true → holds i = true) :
    low ≤ partitionPoint holds low high ∧
      (∀ i, low ≤ i → i < partitionPoint holds low high → holds i = true) ∧
      ∀ i, partitionPoint holds low high ≤ i → i < high → holds i = false := by
  fun_induction partitionPoint holds low high with
  | case1 low high hlt middle hholds ih =>
      obtain ⟨hlow, hbefore, hafter⟩ := ih (by omega) fun i j hi => hdown i j (by omega)
      refine ⟨by omega, fun i hi hip => ?_, hafter⟩
      by_cases him : i ≤ middle
      · exact hdown i middle hi him (by omega) hholds
      · exact hbefore i (by omega) hip
  | case2 low high hlt middle hholds ih =>
      obtain ⟨hlow, hbefore, hafter⟩ := ih (by omega) fun i j hi hij hj =>
        hdown i j hi hij (by omega)
      refine ⟨hlow, hbefore, fun i hi hih => ?_⟩
      by_cases him : i < middle
      · exact hafter i hi him
      · cases hi' : holds i with
        | false => rfl
        | true => exact absurd (hdown middle i (by omega) (by omega) hih hi') hholds
  | case3 low high hlt => exact ⟨Nat.le_refl _, fun i _ _ => by omega, fun i _ _ => by omega⟩

namespace SortedMap

variable {κ ν : Type}

/-- The keys go up strictly. -/
def Ascending (less : κ → κ → Bool) (entries : List (κ × ν)) : Prop :=
  entries.Pairwise fun e f => less e.1 f.1 = true

/-- The keys before a cut are less than the given one and those after it are
greater. -/
structure Cut (less : κ → κ → Bool) (key : κ) (before after : List (κ × ν)) : Prop where
  lesser : ∀ e ∈ before, less e.1 key = true
  greater : ∀ e ∈ after, less key e.1 = true

/-- How a spot for a key cuts a list of entries. -/
inductive Located (less : κ → κ → Bool) (key : κ) : List (κ × ν) → Spot → Prop
  | taken {before after : List (κ × ν)} {entry : κ × ν} (hcut : Cut less key before after)
      (htied : Tied less entry.1 key) :
      Located less key (before ++ entry :: after) (.taken before.length)
  | free {before after : List (κ × ν)} (hcut : Cut less key before after) :
      Located less key (before ++ after) (.free before.length)

/-- A cut into lesser keys and others, refined by a look at the first of the
others. -/
theorem located_of_cut {less : κ → κ → Bool} (hweak : WeakOrder less) {key : κ}
    {entries : List (κ × ν)} (hasc : Ascending less entries) {p : Nat}
    (hle : p ≤ entries.length) (hbefore : ∀ e ∈ entries.take p, less e.1 key = true)
    (hafter : ∀ e ∈ entries.drop p, less e.1 key = false) :
    Located less key entries
      (match entries[p]? with
      | some (candidate, _) => if less key candidate then .free p else .taken p
      | none => .free p) := by
  have hp : (entries.take p).length = p := List.length_take_of_le hle
  by_cases hlt : p < entries.length
  · have hsplit : entries = entries.take p ++ entries[p] :: entries.drop (p + 1) := by
      rw [← List.drop_eq_getElem_cons hlt, List.take_append_drop]
    have hrest : ∀ e ∈ entries.drop (p + 1), less entries[p].1 e.1 = true := by
      have hdrop : Ascending less (entries.drop p) := hasc.drop
      rw [List.drop_eq_getElem_cons hlt] at hdrop
      exact (List.pairwise_cons.mp hdrop).1
    have hcandidate : less entries[p].1 key = false := by
      apply hafter
      rw [List.drop_eq_getElem_cons hlt]
      exact List.mem_cons_self
    rw [List.getElem?_eq_getElem hlt]
    dsimp only
    cases hless : less key entries[p].1 with
    | true =>
        have hgreater : ∀ e ∈ entries[p] :: entries.drop (p + 1), less key e.1 = true := by
          intro e he
          rcases List.mem_cons.mp he with rfl | he
          · exact hless
          · exact hweak.less_trans hless (hrest e he)
        have hfree := Located.free ⟨hbefore, hgreater⟩
        rw [hp, ← hsplit] at hfree
        exact hfree
    | false =>
        have htied : Tied less entries[p].1 key := ⟨hcandidate, hless⟩
        have hgreater : ∀ e ∈ entries.drop (p + 1), less key e.1 = true := by
          intro e he
          exact hweak.less_of_tied_of_less htied.symm (hrest e he)
        have htaken := Located.taken ⟨hbefore, hgreater⟩ htied
        rw [hp, ← hsplit] at htaken
        exact htaken
  · have hend : entries.drop p = [] := List.drop_of_length_le (by omega)
    have hgreater : ∀ e ∈ entries.drop p, less key e.1 = true := by
      rw [hend]
      exact fun e he => absurd he List.not_mem_nil
    have hfree := Located.free ⟨hbefore, hgreater⟩
    rw [hp, List.take_append_drop] at hfree
    rw [List.getElem?_eq_none (by omega)]
    exact hfree

variable [Element (κ × ν)]

theorem isBefore_eq_true_iff {m : SortedMap κ ν} {key : κ} {i : Nat} :
    m.isBefore key i = true ↔ ∃ e ∈ m.toList[i]?, m.less e.1 key = true := by
  unfold isBefore toList
  rw [DynArray.get?_eq_getElem?]
  cases m.entries.toList[i]? with
  | none => simp
  | some e => simp

/-- The point that the search finds has exactly the lesser keys before it. -/
theorem partitionPoint_isBefore {m : SortedMap κ ν} (hweak : WeakOrder m.less)
    (hasc : Ascending m.less m.toList) (key : κ) :
    (∀ e ∈ m.toList.take (partitionPoint (m.isBefore key) 0 m.size), m.less e.1 key = true) ∧
      ∀ e ∈ m.toList.drop (partitionPoint (m.isBefore key) 0 m.size),
        m.less e.1 key = false := by
  have hsize : m.size = m.toList.length := DynArray.size_eq_length m.entries
  have hdown : ∀ i j, 0 ≤ i → i ≤ j → j < m.size → m.isBefore key j = true →
      m.isBefore key i = true := by
    intro i j _ hij hjlt hj
    by_cases heq : i = j
    · rw [heq]
      exact hj
    · have hlt : i < j := by omega
      have hjlen : j < m.toList.length := hsize ▸ hjlt
      have hilen : i < m.toList.length := Nat.lt_trans hlt hjlen
      obtain ⟨f, hf, hless⟩ := isBefore_eq_true_iff.mp hj
      rw [List.getElem?_eq_getElem hjlen, Option.mem_some_iff] at hf
      have hup : m.less m.toList[i].1 m.toList[j].1 = true :=
        List.pairwise_iff_getElem.mp hasc i j hilen hjlen hlt
      rw [hf] at hup
      exact isBefore_eq_true_iff.mpr
        ⟨_, List.getElem?_eq_getElem hilen, hweak.less_trans hup hless⟩
  obtain ⟨-, hbefore, hafter⟩ := partitionPoint_spec (Nat.zero_le m.size) hdown
  constructor
  · intro e he
    obtain ⟨i, hi, hget⟩ := List.mem_take_iff_getElem.mp he
    obtain ⟨f, hf, hless⟩ := isBefore_eq_true_iff.mp (hbefore i (Nat.zero_le i) (by omega))
    rw [List.getElem?_eq_getElem (by omega), hget, Option.mem_some_iff] at hf
    rw [hf]
    exact hless
  · intro e he
    obtain ⟨i, hi, hget⟩ := List.mem_drop_iff_getElem.mp he
    have hnot := hafter _ (Nat.le_add_right _ i) (by omega)
    cases hless : m.less e.1 key with
    | false => rfl
    | true =>
        have hyes : m.isBefore key _ = true := isBefore_eq_true_iff.mpr
          ⟨e, (List.getElem?_eq_getElem (by omega)).trans (congrArg some hget), hless⟩
        rw [hyes] at hnot
        contradiction

theorem search_located {m : SortedMap κ ν} (hweak : WeakOrder m.less)
    (hasc : Ascending m.less m.toList) (key : κ) :
    Located m.less key m.toList (m.search key) := by
  obtain ⟨hbefore, hafter⟩ := partitionPoint_isBefore hweak hasc key
  have hle : partitionPoint (m.isBefore key) 0 m.size ≤ m.toList.length := by
    have hsize : m.size = m.toList.length := DynArray.size_eq_length m.entries
    exact hsize ▸ partitionPoint_le (Nat.zero_le m.size)
  have hlocated := located_of_cut hweak hasc hle hbefore hafter
  unfold search
  dsimp only
  rw [DynArray.get?_eq_getElem?]
  exact hlocated

end SortedMap

end Containers
