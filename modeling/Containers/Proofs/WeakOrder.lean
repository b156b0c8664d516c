/-
Orders with ties.  Of two elements the first one is less, or the second one is, or
they are tied; being tied is an equivalence.
-/
import Mathlib.Order.Defs.Unbundled

namespace Containers

variable {α β : Type}

/-- A predicate that orders elements up to ties. -/
abbrev WeakOrder (less : α → α → Bool) : Prop :=
  IsStrictWeakOrder α fun a b => less a b = true

/-- Neither of two elements is less than the other one. -/
def Tied (less : α → α → Bool) (a b : α) : Prop :=
  less a b = false ∧ less b a = false

instance (less : α → α → Bool) (a b : α) : Decidable (Tied less a b) :=
  inferInstanceAs (Decidable (_ ∧ _))

theorem Tied.symm {less : α → α → Bool} {a b : α} (h : Tied less a b) : Tied less b a :=
  ⟨h.2, h.1⟩

namespace WeakOrder

variable {less : α → α → Bool} {a b c : α}

theorem less_self (h : WeakOrder less) (a : α) : less a a = false := by
  have hirrefl := h.irrefl a
  simpa using hirrefl

theorem less_trans (h : WeakOrder less) (hab : less a b = true) (hbc : less b c = true) :
    less a c = true :=
  h.trans a b c hab hbc

theorem not_less_of_less (h : WeakOrder less) (hab : less a b = true) : less b a = false := by
  cases hba : less b a with
  | false => rfl
  | true =>
      have hloop := h.less_trans hab hba
      rw [h.less_self a] at hloop
      contradiction

theorem tied_refl (h : WeakOrder less) (a : α) : Tied less a a :=
  ⟨h.less_self a, h.less_self a⟩

theorem tied_trans (h : WeakOrder less) (hab : Tied less a b) (hbc : Tied less b c) :
    Tied less a c := by
  have htied := h.incomp_trans a b c (by simp [hab.1, hab.2]) (by simp [hbc.1, hbc.2])
  simpa [Tied] using htied

/-- What is not less than a second element, which is not less than a third one, is
not less than the third one. -/
theorem not_less_trans (h : WeakOrder less) (hab : less a b = false) (hbc : less b c = false) :
    less a c = false := by
  cases hac : less a c with
  | false => rfl
  | true =>
      cases hba : less b a with
      | true =>
          have hless := h.less_trans hba hac
          rw [hbc] at hless
          contradiction
      | false =>
          cases hcb : less c b with
          | true =>
              have hless := h.less_trans hac hcb
              rw [hab] at hless
              contradiction
          | false =>
              have htied := h.tied_trans ⟨hab, hba⟩ ⟨hbc, hcb⟩
              rw [htied.1] at hac
              contradiction

theorem less_of_less_of_tied (h : WeakOrder less) (hab : less a b = true) (hbc : Tied less b c) :
    less a c = true := by
  cases hac : less a c with
  | true => rfl
  | false =>
      have hnot := h.not_less_trans hac hbc.2
      rw [hab] at hnot
      contradiction

theorem less_of_tied_of_less (h : WeakOrder less) (hab : Tied less a b) (hbc : less b c = true) :
    less a c = true := by
  cases hac : less a c with
  | true => rfl
  | false =>
      have hnot := h.not_less_trans hab.2 hac
      rw [hbc] at hnot
      contradiction

/-- Being tied, as an equivalence. -/
def setoid (h : WeakOrder less) : Setoid α where
  r := Tied less
  iseqv := ⟨h.tied_refl, Tied.symm, h.tied_trans⟩

/-- Elements up to ties. -/
abbrev Class (h : WeakOrder less) : Type := Quotient h.setoid

def classOf (h : WeakOrder less) (a : α) : h.Class := Quotient.mk h.setoid a

theorem classOf_eq_iff (h : WeakOrder less) : h.classOf a = h.classOf b ↔ Tied less a b :=
  ⟨Quotient.exact, Quotient.sound (s := h.setoid)⟩

theorem exists_classOf_eq (h : WeakOrder less) (c : h.Class) : ∃ a, h.classOf a = c :=
  Quotient.exists_rep c

instance (h : WeakOrder less) : DecidableEq h.Class :=
  @Quotient.decidableEq _ h.setoid fun a b => inferInstanceAs (Decidable (Tied less a b))

end WeakOrder

/-- Less by a number that stands for the element. -/
def lessBy (f : α → Nat) (a b : α) : Bool := decide (f a < f b)

theorem weakOrder_lessBy (f : α → Nat) : WeakOrder (lessBy f) where
  irrefl a := by simp [lessBy]
  trans a b c hab hbc := by
    simp only [lessBy, decide_eq_true_eq] at hab hbc ⊢
    omega
  incomp_trans a b c hab hbc := by
    simp only [lessBy, decide_eq_true_eq] at hab hbc ⊢
    omega

end Containers
