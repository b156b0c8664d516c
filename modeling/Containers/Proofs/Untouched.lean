/-
Operations that leave everything as it was when they fail.  Whether a step does so is
seen from the result of the step alone; that a whole operation does so then holds in
either place, for the container it works on and for the other one.
-/
import Containers.Proofs.Run

namespace Containers

variable {ε ζ σ ρ τ υ : Type}

/-! ### Failures -/

/-- The operation was refused, or used against its conditions. -/
def Outcome.IsFailure : Outcome ρ → Prop
  | refused _ | violated _ => True
  | returned _ | accepted _ | vacant => False

instance : DecidablePred (Outcome.IsFailure : Outcome ρ → Prop)
  | .refused _ | .violated _ => isTrue trivial
  | .returned _ | .accepted _ | .vacant => isFalse id

/-- If the result is an error, what can be viewed of the state is as it was in `s`. -/
def Untouched (view : σ → υ) (s : σ) : EStateM.Result ε σ τ → Prop
  | .ok _ _ => True
  | .error _ t => view t = view s

namespace Untouched

variable {α β : Type} {view : σ → υ} {s : σ}

theorem of_attempt {IsShortage : ε → Prop} {Done : σ → Prop}
    {result : EStateM.Result ε σ Unit} (h : Attempt IsShortage s Done result) :
    Untouched view s result := by
  cases h with
  | done _ => trivial
  | short _ => rfl

theorem map {step : EStateM ε σ α} (h : Untouched view s (step s)) (f : α → β) :
    Untouched view s ((f <$> step) s) := by
  change Untouched view s (EStateM.map f step s)
  unfold EStateM.map
  generalize step s = result at h ⊢
  cases result with
  | ok reply t => trivial
  | error error t => exact h

theorem adaptExcept {step : EStateM ε σ α} (h : Untouched view s (step s)) (f : ε → ζ) :
    Untouched view s (step.adaptExcept f s) := by
  unfold EStateM.adaptExcept
  generalize step s = result at h ⊢
  cases result with
  | ok reply t => trivial
  | error error t => exact h

theorem silently {step : EStateM ε σ Unit} (h : Untouched view s (step s)) :
    Untouched view s (Reply.silently (α := α) step s) :=
  h.map _

/-- Where there was nothing to take away, nothing may have changed. -/
theorem of_elim {taken : Option α × σ} (violation : ε)
    (h : taken.1 = none → view taken.2 = view s) :
    Untouched view s
      (taken.1.elim (.error violation taken.2) (.ok · taken.2) : EStateM.Result ε σ α) := by
  obtain ⟨v?, t⟩ := taken
  cases v? with
  | some v => trivial
  | none => exact h rfl

end Untouched

/-! ### Effects -/

namespace Effect

variable {P : σ → Prop} {view : σ → υ}

/-- Where the effect fails on containers that have the property, nothing that can be
viewed of them has changed. -/
def Spares (P : σ → Prop) (view : σ → υ) : Effect σ ρ → Prop
  | work step => ∀ s, P s → (step s).1.IsFailure → view (step s).2 = view s
  | joint step => ∀ s t, P s → P t → (step (s, t)).1.IsFailure →
    view (step (s, t)).2.1 = view s ∧ view (step (s, t)).2.2 = view t
  | make _ _ | copy _ _ | consume _ => True

theorem spares_look (reply : σ → ρ) : (look reply).Spares P view := fun _ _ _ => rfl

theorem spares_lookAsserted (reply : σ → Except Violation ρ) :
    (lookAsserted reply).Spares P view := by
  intro s _ _
  dsimp only
  split <;> rfl

theorem spares_lookChecked (reply : σ → Except Error ρ) :
    (lookChecked reply).Spares P view := by
  intro s _ _
  dsimp only
  split <;> rfl

theorem spares_total (step : StateM σ ρ) : (total step).Spares P view :=
  fun _ _ => False.elim

theorem spares_asserted {step : EStateM Violation σ ρ}
    (h : ∀ s, P s → Untouched view s (step s)) : (asserted step).Spares P view := by
  intro s hs
  have hstep := h s hs
  dsimp only
  generalize step s = result at hstep
  cases result with
  | ok reply t => exact False.elim
  | error violation t => exact fun _ => hstep

theorem spares_refusable {step : EStateM Error σ ρ}
    (h : ∀ s, P s → Untouched view s (step s)) : (refusable step).Spares P view := by
  intro s hs
  have hstep := h s hs
  dsimp only
  generalize step s = result at hstep
  cases result with
  | ok reply t => exact False.elim
  | error error t => exact fun _ => hstep

theorem spares_failing {step : EStateM Failure σ ρ}
    (h : ∀ s, P s → Untouched view s (step s)) : (failing step).Spares P view := by
  intro s hs
  have hstep := h s hs
  dsimp only
  generalize step s = result at hstep
  cases result with
  | ok reply t => exact False.elim
  | error failure t => cases failure <;> exact fun _ => hstep

/-- Both containers are viewed. -/
theorem spares_jointAsserted {step : EStateM Violation (σ × σ) ρ}
    (h : ∀ s t, P s → P t → Untouched (Prod.map view view) (s, t) (step (s, t))) :
    (jointAsserted step).Spares P view := by
  intro s t hs ht
  have hstep := h s t hs ht
  dsimp only
  generalize step (s, t) = result at hstep
  cases result with
  | ok reply pair => exact False.elim
  | error violation pair => exact fun _ => Prod.mk.inj hstep

theorem spares_jointRefusable {step : EStateM Error (σ × σ) ρ}
    (h : ∀ s t, P s → P t → Untouched (Prod.map view view) (s, t) (step (s, t))) :
    (jointRefusable step).Spares P view := by
  intro s t hs ht
  have hstep := h s t hs ht
  dsimp only
  generalize step (s, t) = result at hstep
  cases result with
  | ok reply pair => exact False.elim
  | error error pair => exact fun _ => Prod.mk.inj hstep

end Effect

/-! ### Places -/

namespace Workspace

variable {P : σ → Prop} {view : σ → υ}

/-- What can be viewed of the containers. -/
def map (view : σ → υ) (w : Workspace σ) : Workspace υ := ⟨w.first.map view, w.second.map view⟩

@[simp] theorem map_id (w : Workspace σ) : w.map id = w := by
  simp [map]

/-- A step that fails changes nothing that can be viewed in either place. -/
theorem step_spares {effect : Effect σ ρ} (h : effect.Spares P view) {here other : Option σ}
    (hhere : ∀ s ∈ here, P s) (hother : ∀ s ∈ other, P s)
    (hfailure : (step here other effect).1.IsFailure) :
    (step here other effect).2.1.map view = here.map view ∧
      (step here other effect).2.2.map view = other.map view := by
  cases effect with
  | make result reply =>
      cases result with
      | ok made => exact False.elim hfailure
      | error error => exact ⟨rfl, rfl⟩
  | copy result reply =>
      cases here with
      | none => exact ⟨rfl, rfl⟩
      | some s =>
          simp only [step] at hfailure ⊢
          cases hresult : result s with
          | ok t =>
              rw [hresult] at hfailure
              exact False.elim hfailure
          | error error => exact ⟨rfl, rfl⟩
  | work change =>
      cases here with
      | none => exact ⟨rfl, rfl⟩
      | some s => exact ⟨congrArg some (h s (hhere s rfl) hfailure), rfl⟩
  | joint change =>
      cases here with
      | none => exact ⟨rfl, rfl⟩
      | some s =>
          cases other with
          | none => exact ⟨rfl, rfl⟩
          | some t =>
              obtain ⟨hs, ht⟩ := h s t (hhere s rfl) (hother t rfl) hfailure
              exact ⟨congrArg some hs, congrArg some ht⟩
  | consume reply =>
      cases here with
      | none => exact ⟨rfl, rfl⟩
      | some s => exact False.elim hfailure

/-- What fails changes nothing that can be viewed, whichever place it is applied in. -/
theorem perform_spares {effect : Effect σ ρ} (h : effect.Spares P view) {w : Workspace σ}
    (hw : w.Holds P) (place : Place) (hfailure : (w.perform place effect).1.IsFailure) :
    (w.perform place effect).2.map view = w.map view := by
  obtain ⟨first, second⟩ := w
  rw [holds_mk] at hw
  rw [map, map, Workspace.mk.injEq]
  cases place with
  | first => exact step_spares h hw.1 hw.2 hfailure
  | second => exact (step_spares h hw.2 hw.1 hfailure).symm

/-- If the operation fails in this place, both places are as they were. -/
def Withstands (w : Workspace σ) (place : Place) (effect : Effect σ ρ) : Prop :=
  (w.perform place effect).1.IsFailure → (w.perform place effect).2 = w

theorem withstands_of_spares {effect : Effect σ ρ} (h : effect.Spares P id) {w : Workspace σ}
    (hw : w.Holds P) (place : Place) : w.Withstands place effect := by
  intro hfailure
  simpa using perform_spares h hw place hfailure

end Workspace

end Containers
