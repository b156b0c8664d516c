/-
Two runs side by side.  An operation of one kind of container keeps step with an
operation of another kind if the two end alike and leave corresponding containers
behind, wherever they began with corresponding ones.  What each pair of operations
does, whole runs do.
-/
import Containers.Proofs.Run
import Mathlib.Data.List.Forall2

namespace Containers

variable {σ τ ρ υ : Type} {P : ρ → υ → Prop} {R : σ → τ → Prop} {Excused : Outcome ρ → Prop}

/-- The elements that a reply hands out. -/
def Reply.held {α : Type} : Reply α → List α
  | nothing => []
  | element v => [v]
  | optional v? => v?.toList
  | elements vs => vs

/-- The same outcomes, but for replies that only correspond. -/
inductive Outcome.Alike (P : ρ → υ → Prop) : Outcome ρ → Outcome υ → Prop
  | returned {reply : ρ} {reply' : υ} (h : P reply reply') :
      Alike P (.returned reply) (.returned reply')
  | accepted {reply : ρ} {reply' : υ} (h : P reply reply') :
      Alike P (.accepted reply) (.accepted reply')
  | refused (error : Error) : Alike P (.refused error) (.refused error)
  | violated (violation : Violation) : Alike P (.violated violation) (.violated violation)
  | vacant : Alike P .vacant .vacant

theorem Outcome.alike_refl (outcome : Outcome ρ) : Alike Eq outcome outcome := by
  cases outcome <;> constructor
  · rfl
  · rfl

theorem Outcome.Alike.eq {outcome outcome' : Outcome ρ} (h : Alike Eq outcome outcome') :
    outcome = outcome' := by
  cases h <;> simp_all

namespace Workspace

/-- Corresponding containers in the same places. -/
structure Alike (R : σ → τ → Prop) (w : Workspace σ) (w' : Workspace τ) : Prop where
  first : Option.Rel R w.first w'.first
  second : Option.Rel R w.second w'.second

theorem alike_vacant : Alike R vacant vacant := ⟨.none, .none⟩

theorem rel_imp {R' : σ → τ → Prop} {here : Option σ} {here' : Option τ}
    (h : Option.Rel R here here') (hR : ∀ s t, R s t → R' s t) : Option.Rel R' here here' := by
  cases h with
  | none => exact .none
  | some hst => exact .some (hR _ _ hst)

theorem Alike.imp {R' : σ → τ → Prop} {w : Workspace σ} {w' : Workspace τ} (h : Alike R w w')
    (hR : ∀ s t, R s t → R' s t) : Alike R' w w' :=
  ⟨rel_imp h.first hR, rel_imp h.second hR⟩

/-- What two steps come to that keep together. -/
structure Together (P : ρ → υ → Prop) (R : σ → τ → Prop)
    (result : Outcome ρ × Option σ × Option σ) (result' : Outcome υ × Option τ × Option τ) :
    Prop where
  outcome : Outcome.Alike P result.1 result'.1
  here : Option.Rel R result.2.1 result'.2.1
  other : Option.Rel R result.2.2 result'.2.2

end Workspace

/-! ### Effects -/

namespace Effect

open Workspace (Together)

/-- On corresponding containers the effects keep together, unless the first one ends in
a way that is excused and changes nothing. -/
def InStep (P : ρ → υ → Prop) (R : σ → τ → Prop) (Excused : Outcome ρ → Prop)
    (effect : Effect σ ρ) (effect' : Effect τ υ) : Prop :=
  ∀ (here other : Option σ) (here' other' : Option τ),
    Option.Rel R here here' → Option.Rel R other other' →
      Together P R (Workspace.step here other effect) (Workspace.step here' other' effect') ∨
        Excused (Workspace.step here other effect).1 ∧
          (Workspace.step here other effect).2 = (here, other)

theorem inStep_make {result : Except Error σ} {result' : Except Error τ} {reply : ρ} {reply' : υ}
    (hreply : P reply reply')
    (hok : ∀ s, result = .ok s → ∃ t, result' = .ok t ∧ R s t)
    (herror : ∀ error, result = .error error →
      result' = .error error ∨ Excused (.refused error)) :
    InStep P R Excused (make result reply) (make result' reply') := by
  intro here other here' other' hhere hother
  cases hresult : result with
  | ok s =>
      obtain ⟨t, ht, hst⟩ := hok s hresult
      rw [ht]
      exact Or.inl ⟨.accepted hreply, .some hst, hother⟩
  | error error =>
      rcases herror error hresult with hsame | hexcused
      · rw [hsame]
        exact Or.inl ⟨.refused error, hhere, hother⟩
      · exact Or.inr ⟨hexcused, rfl⟩

theorem inStep_copy {result : σ → Except Error σ} {result' : τ → Except Error τ}
    {reply : ρ} {reply' : υ} (hreply : P reply reply')
    (hok : ∀ s t, R s t → ∀ u, result s = .ok u → ∃ v, result' t = .ok v ∧ R u v)
    (herror : ∀ s t, R s t → ∀ error, result s = .error error →
      result' t = .error error ∨ Excused (.refused error)) :
    InStep P R Excused (copy result reply) (copy result' reply') := by
  intro here other here' other' hhere hother
  cases hhere with
  | none => exact Or.inl ⟨.vacant, .none, hother⟩
  | @some s t hst =>
      cases hresult : result s with
      | ok u =>
          obtain ⟨v, hv, huv⟩ := hok s t hst u hresult
          simp only [Workspace.step, hresult, hv]
          exact Or.inl ⟨.accepted hreply, .some hst, .some huv⟩
      | error error =>
          rcases herror s t hst error hresult with hsame | hexcused
          · simp only [Workspace.step, hresult, hsame]
            exact Or.inl ⟨.refused error, .some hst, hother⟩
          · simp only [Workspace.step, hresult]
            exact Or.inr ⟨hexcused, trivial⟩

theorem inStep_work {change : σ → Outcome ρ × σ} {change' : τ → Outcome υ × τ}
    (h : ∀ s t, R s t →
      Outcome.Alike P (change s).1 (change' t).1 ∧ R (change s).2 (change' t).2 ∨
        Excused (change s).1 ∧ (change s).2 = s) :
    InStep P R Excused (work change) (work change') := by
  intro here other here' other' hhere hother
  cases hhere with
  | none => exact Or.inl ⟨.vacant, .none, hother⟩
  | @some s t hst =>
      rcases h s t hst with ⟨houtcome, hleft⟩ | ⟨hexcused, hsame⟩
      · exact Or.inl ⟨houtcome, .some hleft, hother⟩
      · refine Or.inr ⟨hexcused, ?_⟩
        simp only [Workspace.step, hsame]

theorem inStep_joint {change : σ × σ → Outcome ρ × (σ × σ)}
    {change' : τ × τ → Outcome υ × (τ × τ)}
    (h : ∀ s₁ s₂ t₁ t₂, R s₁ t₁ → R s₂ t₂ →
      Outcome.Alike P (change (s₁, s₂)).1 (change' (t₁, t₂)).1 ∧
          R (change (s₁, s₂)).2.1 (change' (t₁, t₂)).2.1 ∧
          R (change (s₁, s₂)).2.2 (change' (t₁, t₂)).2.2 ∨
        Excused (change (s₁, s₂)).1 ∧ (change (s₁, s₂)).2 = (s₁, s₂)) :
    InStep P R Excused (joint change) (joint change') := by
  intro here other here' other' hhere hother
  cases hhere with
  | none => exact Or.inl ⟨.vacant, .none, hother⟩
  | @some s₁ t₁ h₁ =>
      cases hother with
      | none => exact Or.inl ⟨.vacant, .some h₁, .none⟩
      | @some s₂ t₂ h₂ =>
          rcases h s₁ s₂ t₁ t₂ h₁ h₂ with ⟨houtcome, hleft, hleft'⟩ | ⟨hexcused, hsame⟩
          · exact Or.inl ⟨houtcome, .some hleft, .some hleft'⟩
          · refine Or.inr ⟨hexcused, ?_⟩
            simp only [Workspace.step, hsame]

end Effect

/-! ### Runs -/

namespace Workspace

theorem perform_inStep {effect : Effect σ ρ} {effect' : Effect τ υ}
    (h : effect.InStep P R Excused effect') {w : Workspace σ} {w' : Workspace τ}
    (hw : Alike R w w') (place : Place) (hmatched : ¬ Excused (w.perform place effect).1) :
    Outcome.Alike P (w.perform place effect).1 (w'.perform place effect').1 ∧
      Alike R (w.perform place effect).2 (w'.perform place effect').2 := by
  obtain ⟨first, second⟩ := w
  obtain ⟨first', second'⟩ := w'
  cases place with
  | first =>
      rcases h _ _ _ _ hw.first hw.second with htogether | ⟨hexcused, -⟩
      · exact ⟨htogether.outcome, htogether.here, htogether.other⟩
      · exact absurd hexcused hmatched
  | second =>
      rcases h _ _ _ _ hw.second hw.first with htogether | ⟨hexcused, -⟩
      · exact ⟨htogether.outcome, htogether.other, htogether.here⟩
      · exact absurd hexcused hmatched

/-- Operations that keep step one by one keep step all along, if none of them has to be
excused. -/
theorem run_inStep {effects : List (Place × Effect σ ρ)} {effects' : List (Place × Effect τ υ)}
    (h : List.Forall₂ (fun operation operation' => operation.1 = operation'.1 ∧
      operation.2.InStep P R Excused operation'.2) effects effects')
    {w : Workspace σ} {w' : Workspace τ} (hw : Alike R w w')
    (hmatched : ∀ outcome ∈ (w.run effects).1, ¬ Excused outcome) :
    List.Forall₂ (Outcome.Alike P) (w.run effects).1 (w'.run effects').1 ∧
      Alike R (w.run effects).2 (w'.run effects').2 := by
  induction h generalizing w w' with
  | nil => exact ⟨.nil, hw⟩
  | @cons operation operation' rest rest' hfirst _ ih =>
      obtain ⟨place, effect⟩ := operation
      obtain ⟨place', effect'⟩ := operation'
      obtain ⟨rfl, heffect⟩ := hfirst
      obtain ⟨houtcome, hleft⟩ :=
        perform_inStep heffect hw place (hmatched _ List.mem_cons_self)
      obtain ⟨houtcomes, hend⟩ := ih hleft fun outcome houtcome =>
        hmatched outcome (List.mem_cons_of_mem _ houtcome)
      exact ⟨.cons houtcome houtcomes, hend⟩

end Workspace

end Containers
