/-
What a run keeps.  A property of containers that no operation spoils holds of every
container that a run leaves behind, and an attempt that lacks memory leaves its
container as it was.
-/
import Containers.Workspace

namespace Containers

variable {ε ζ σ ρ τ υ : Type}

/-! ### Results -/

/-- Two steps, one after the other, end well only if each of them does. -/
theorem bind_eq_ok {result : Except ε σ} {f : σ → Except ε τ} {t : τ}
    (h : (result >>= f) = .ok t) : ∃ s, result = .ok s ∧ f s = .ok t := by
  cases result with
  | ok s => exact ⟨s, rfl, h⟩
  | error error => contradiction

theorem map_eq_ok {result : Except ε σ} {f : σ → τ} {t : τ} (h : result.map f = .ok t) :
    ∃ s, result = .ok s ∧ f s = t := by
  cases result with
  | ok s => exact ⟨s, rfl, Except.ok.inj h⟩
  | error error => contradiction

theorem mapError_eq_ok {result : Except ε σ} {f : ε → ζ} {s : σ}
    (h : result.mapError f = .ok s) : result = .ok s := by
  cases result with
  | ok t => exact congrArg Except.ok (Except.ok.inj h)
  | error error => contradiction

/-! ### Attempts -/

/-- The state that an attempt leaves behind. -/
def leftBy : EStateM.Result ε σ τ → σ
  | .ok _ s => s
  | .error _ s => s

@[simp] theorem leftBy_ok (reply : τ) (s : σ) :
    leftBy (.ok reply s : EStateM.Result ε σ τ) = s := rfl

@[simp] theorem leftBy_error (error : ε) (s : σ) :
    leftBy (.error error s : EStateM.Result ε σ τ) = s := rfl

@[simp] theorem leftBy_map (f : τ → υ) (step : EStateM ε σ τ) (s : σ) :
    leftBy ((f <$> step) s) = leftBy (step s) := by
  change leftBy (EStateM.map f step s) = leftBy (step s)
  unfold EStateM.map
  cases step s <;> rfl

theorem map_of_ok {step : EStateM ε σ τ} {f : τ → υ} {s t : σ} {v : τ}
    (h : step s = .ok v t) : (f <$> step) s = .ok (f v) t := by
  change EStateM.map f step s = _
  simp [EStateM.map, h]

theorem map_of_error {step : EStateM ε σ τ} {f : τ → υ} {s t : σ} {error : ε}
    (h : step s = .error error t) : (f <$> step) s = .error error t := by
  change EStateM.map f step s = _
  simp [EStateM.map, h]

@[simp] theorem leftBy_adaptExcept (f : ε → ζ) (step : EStateM ε σ τ) (s : σ) :
    leftBy (step.adaptExcept f s) = leftBy (step s) := by
  unfold EStateM.adaptExcept
  cases step s <;> rfl

@[simp] theorem leftBy_silently {α : Type} (step : EStateM ε σ Unit) (s : σ) :
    leftBy (Reply.silently (α := α) step s) = leftBy (step s) :=
  leftBy_map _ step s

/-- Whether or not something was taken away: that is all that changed. -/
@[simp] theorem leftBy_elim (taken : Option τ × σ) (violation : ε) :
    leftBy (taken.1.elim (.error violation taken.2) (.ok · taken.2) : EStateM.Result ε σ τ) =
      taken.2 := by
  obtain ⟨v?, s⟩ := taken
  cases v? <;> rfl

/-- The refusals that tell of missing memory. -/
def ArrayError.IsShortage : ArrayError → Prop
  | badAlloc _ => True
  | overflow _ => True
  | outOfRange _ _ => False
  | invalidPolicy _ => False

def Error.IsShortage : Error → Prop
  | array error => error.IsShortage
  | alreadyExists => False
  | notFound => False

def Failure.IsShortage : Failure → Prop
  | refused error => error.IsShortage
  | violated _ => False

def Outcome.IsShortage : Outcome ρ → Prop
  | refused error => error.IsShortage
  | _ => False

instance : DecidablePred ArrayError.IsShortage
  | .badAlloc _ => isTrue trivial
  | .overflow _ => isTrue trivial
  | .outOfRange _ _ => isFalse id
  | .invalidPolicy _ => isFalse id

instance : DecidablePred Error.IsShortage
  | .array error => inferInstanceAs (Decidable error.IsShortage)
  | .alreadyExists => isFalse id
  | .notFound => isFalse id

instance : DecidablePred (Outcome.IsShortage : Outcome ρ → Prop)
  | .refused error => inferInstanceAs (Decidable error.IsShortage)
  | .returned _ => isFalse id
  | .accepted _ => isFalse id
  | .violated _ => isFalse id
  | .vacant => isFalse id

/-- An attempt that lacks memory leaves the state `s` as it was; any other one
leaves a state as described. -/
inductive Attempt (IsShortage : ε → Prop) (s : σ) (Done : σ → Prop) :
    EStateM.Result ε σ Unit → Prop
  | done {t : σ} (hdone : Done t) : Attempt IsShortage s Done (.ok () t)
  | short {error : ε} (hshort : IsShortage error) : Attempt IsShortage s Done (.error error s)

namespace Attempt

variable {IsShortage : ε → Prop} {IsShortage' : ζ → Prop} {s : σ} {Done Done' : σ → Prop}

theorem mono {result : EStateM.Result ε σ Unit} (h : Attempt IsShortage s Done result)
    (hdone : ∀ t, Done t → Done' t) : Attempt IsShortage s Done' result := by
  cases h with
  | done ht => exact .done (hdone _ ht)
  | short hshort => exact .short hshort

theorem of_ok {result : EStateM.Result ε σ Unit} {t : σ} (h : Attempt IsShortage s Done result)
    (hok : result = .ok () t) : Done t := by
  rw [hok] at h
  cases h with
  | done ht => exact ht

theorem adaptExcept {step : EStateM ε σ Unit} (h : Attempt IsShortage s Done (step s))
    (f : ε → ζ) (hf : ∀ error, IsShortage error → IsShortage' (f error)) :
    Attempt IsShortage' s Done (step.adaptExcept f s) := by
  unfold EStateM.adaptExcept
  generalize step s = result at h ⊢
  cases h with
  | done ht => exact .done ht
  | short hshort => exact .short (hf _ hshort)

/-- An attempt keeps what holds of its beginning and of everything it can lead to. -/
theorem leftBy {P : σ → Prop} {result : EStateM.Result ε σ Unit}
    (h : Attempt IsShortage s Done result) (hs : P s) (hdone : ∀ t, Done t → P t) :
    P (leftBy result) := by
  cases h with
  | done ht => exact hdone _ ht
  | short _ => exact hs

end Attempt

/-! ### Effects -/

namespace Effect

variable {P : σ → Prop}

/-- No container that is made or changed comes to lack the property. -/
def Keeps (P : σ → Prop) : Effect σ ρ → Prop
  | make result _ => ∀ s, result = .ok s → P s
  | copy result _ => ∀ s t, P s → result s = .ok t → P t
  | work step => ∀ s, P s → P (step s).2
  | joint step => ∀ s t, P s → P t → P (step (s, t)).2.1 ∧ P (step (s, t)).2.2
  | consume _ => True

theorem keeps_look (reply : σ → ρ) : (look reply).Keeps P := fun _ hs => hs

theorem keeps_lookAsserted (reply : σ → Except Violation ρ) : (lookAsserted reply).Keeps P := by
  intro s hs
  dsimp only
  split <;> exact hs

theorem keeps_lookChecked (reply : σ → Except Error ρ) : (lookChecked reply).Keeps P := by
  intro s hs
  dsimp only
  split <;> exact hs

theorem keeps_total {step : StateM σ ρ} (h : ∀ s, P s → P (step s).2) :
    (total step).Keeps P := h

theorem keeps_asserted {step : EStateM Violation σ ρ} (h : ∀ s, P s → P (leftBy (step s))) :
    (asserted step).Keeps P := by
  intro s hs
  have hleft := h s hs
  dsimp only
  cases hresult : step s <;> simpa [hresult] using hleft

theorem keeps_refusable {step : EStateM Error σ ρ} (h : ∀ s, P s → P (leftBy (step s))) :
    (refusable step).Keeps P := by
  intro s hs
  have hleft := h s hs
  dsimp only
  cases hresult : step s <;> simpa [hresult] using hleft

theorem keeps_attempt {α : Type} {step : EStateM Error σ Unit}
    (h : ∀ s, P s → Attempt Error.IsShortage s P (step s)) :
    (refusable (Reply.silently (α := α) step)).Keeps P := by
  refine keeps_refusable fun s hs => ?_
  rw [leftBy_silently]
  exact (h s hs).leftBy hs fun _ ht => ht

theorem keeps_failing {step : EStateM Failure σ ρ} (h : ∀ s, P s → P (leftBy (step s))) :
    (failing step).Keeps P := by
  intro s hs
  have hleft := h s hs
  dsimp only
  split <;> simp_all

theorem keeps_jointAsserted {step : EStateM Violation (σ × σ) ρ}
    (h : ∀ s t, P s → P t → P (leftBy (step (s, t))).1 ∧ P (leftBy (step (s, t))).2) :
    (jointAsserted step).Keeps P := by
  intro s t hs ht
  have hleft := h s t hs ht
  dsimp only
  cases hresult : step (s, t) <;> simpa [hresult] using hleft

theorem keeps_jointRefusable {step : EStateM Error (σ × σ) ρ}
    (h : ∀ s t, P s → P t → P (leftBy (step (s, t))).1 ∧ P (leftBy (step (s, t))).2) :
    (jointRefusable step).Keeps P := by
  intro s t hs ht
  have hleft := h s t hs ht
  dsimp only
  cases hresult : step (s, t) <;> simpa [hresult] using hleft

end Effect

/-! ### What an effect leaves -/

namespace Effect

/-- The effect works on the container in its place alone. -/
def IsWork : Effect σ ρ → Prop
  | work _ => True
  | _ => False

/-- What an effect that works on one container makes of it. -/
def after : Effect σ ρ → σ → σ
  | work step, s => (step s).2
  | _, s => s

@[simp] theorem after_look (reply : σ → ρ) (s : σ) : (look reply).after s = s := rfl

@[simp] theorem after_lookAsserted (reply : σ → Except Violation ρ) (s : σ) :
    (lookAsserted reply).after s = s := by
  simp only [lookAsserted, after]
  split <;> rfl

@[simp] theorem after_lookChecked (reply : σ → Except Error ρ) (s : σ) :
    (lookChecked reply).after s = s := by
  simp only [lookChecked, after]
  split <;> rfl

@[simp] theorem after_total (step : StateM σ ρ) (s : σ) : (total step).after s = (step s).2 := rfl

@[simp] theorem after_asserted (step : EStateM Violation σ ρ) (s : σ) :
    (asserted step).after s = leftBy (step s) := by
  simp only [asserted, after]
  cases step s <;> rfl

@[simp] theorem after_refusable (step : EStateM Error σ ρ) (s : σ) :
    (refusable step).after s = leftBy (step s) := by
  simp only [refusable, after]
  cases step s <;> rfl

@[simp] theorem after_failing (step : EStateM Failure σ ρ) (s : σ) :
    (failing step).after s = leftBy (step s) := by
  simp only [failing, after]
  split <;> simp_all

end Effect

/-! ### Runs -/

/-- The place that is not this one. -/
def Place.opposite : Place → Place
  | first => second
  | second => first

namespace Workspace

variable {P : σ → Prop}

theorem get_opposite (w : Workspace σ) (place : Place) :
    w.get place.opposite = w.getOther place := by
  cases place <;> rfl

/-- Every container in a place has the property. -/
def Holds (P : σ → Prop) (w : Workspace σ) : Prop :=
  ∀ place, ∀ s ∈ w.get place, P s

theorem holds_vacant : (vacant : Workspace σ).Holds P := by
  intro place s hs
  cases place <;> simp [vacant, get] at hs

theorem holds_true (w : Workspace σ) : w.Holds fun _ => True := fun _ _ _ => trivial

theorem holds_mk {first second : Option σ} :
    (⟨first, second⟩ : Workspace σ).Holds P ↔ (∀ s ∈ first, P s) ∧ ∀ s ∈ second, P s := by
  constructor
  · intro h
    exact ⟨h .first, h .second⟩
  · rintro ⟨hfirst, hsecond⟩ place
    cases place with
    | first => exact hfirst
    | second => exact hsecond

/-- Both places are the same seen from either of them. -/
theorem perform_eq (w : Workspace σ) (place : Place) (effect : Effect σ ρ) :
    (w.perform place effect).1 = (step (w.get place) (w.getOther place) effect).1 ∧
      (w.perform place effect).2.get place =
        (step (w.get place) (w.getOther place) effect).2.1 ∧
      (w.perform place effect).2.getOther place =
        (step (w.get place) (w.getOther place) effect).2.2 := by
  obtain ⟨first, second⟩ := w
  cases place <;> exact ⟨rfl, rfl, rfl⟩

theorem get_perform_eq (w : Workspace σ) (place : Place) (effect : Effect σ ρ) :
    (w.perform place effect).2.get place = (step (w.get place) (w.getOther place) effect).2.1 :=
  (perform_eq w place effect).2.1

theorem getOther_perform_eq (w : Workspace σ) (place : Place) (effect : Effect σ ρ) :
    (w.perform place effect).2.getOther place =
      (step (w.get place) (w.getOther place) effect).2.2 :=
  (perform_eq w place effect).2.2

theorem step_jointRefusable (change : EStateM Error (σ × σ) ρ) (s t : σ) :
    (step (some s) (some t) (.jointRefusable change)).2 =
      (some (leftBy (change (s, t))).1, some (leftBy (change (s, t))).2) := by
  simp only [step, Effect.jointRefusable]
  cases change (s, t) <;> rfl

section Results

variable {change : EStateM Violation σ τ} {attempt : EStateM ε σ τ} {s t : σ} {v : τ}

theorem step_asserted_ok (f : τ → ρ) (other : Option σ) (h : change s = .ok v t) :
    step (some s) other (.asserted (f <$> change)) = (.returned (f v), some t, other) := by
  simp [step, Effect.asserted, map_of_ok h]

theorem step_asserted_error {violation : Violation} (f : τ → ρ) (other : Option σ)
    (h : change s = .error violation t) :
    step (some s) other (.asserted (f <$> change)) = (.violated violation, some t, other) := by
  simp [step, Effect.asserted, map_of_error h]

theorem step_refusable_ok (f : τ → ρ) (g : ε → Error) (other : Option σ)
    (h : attempt s = .ok v t) :
    step (some s) other (.refusable ((f <$> attempt).adaptExcept g)) =
      (.accepted (f v), some t, other) := by
  simp [step, Effect.refusable, EStateM.adaptExcept, map_of_ok h]

theorem step_refusable_error {error : ε} (f : τ → ρ) (g : ε → Error) (other : Option σ)
    (h : attempt s = .error error t) :
    step (some s) other (.refusable ((f <$> attempt).adaptExcept g)) =
      (.refused (g error), some t, other) := by
  simp [step, Effect.refusable, EStateM.adaptExcept, map_of_error h]

end Results

theorem step_keeps {effect : Effect σ ρ} (h : effect.Keeps P) {here other : Option σ}
    (hhere : ∀ s ∈ here, P s) (hother : ∀ s ∈ other, P s) :
    (∀ s ∈ (step here other effect).2.1, P s) ∧ ∀ s ∈ (step here other effect).2.2, P s := by
  cases effect with
  | make result reply =>
      cases result with
      | ok made => exact ⟨by simpa [step] using h made rfl, hother⟩
      | error error => exact ⟨hhere, hother⟩
  | copy result reply =>
      cases here with
      | none => exact ⟨hhere, hother⟩
      | some s =>
          have hs : P s := hhere s rfl
          cases hresult : result s with
          | ok t => simpa [step, hresult] using And.intro hs (h s t hs hresult)
          | error error => simpa [step, hresult] using And.intro hs hother
  | work change =>
      cases here with
      | none => exact ⟨hhere, hother⟩
      | some s => exact ⟨by simpa [step] using h s (hhere s rfl), hother⟩
  | joint change =>
      cases here with
      | none => exact ⟨hhere, hother⟩
      | some s =>
          cases other with
          | none => exact ⟨hhere, hother⟩
          | some t => simpa [step] using h s t (hhere s rfl) (hother t rfl)
  | consume reply =>
      cases here with
      | none => exact ⟨hhere, hother⟩
      | some s => exact ⟨by simp [step], hother⟩

theorem perform_keeps {w : Workspace σ} {effect : Effect σ ρ} (h : effect.Keeps P)
    (hw : w.Holds P) (place : Place) : (w.perform place effect).2.Holds P := by
  obtain ⟨first, second⟩ := w
  rw [holds_mk] at hw
  cases place with
  | first =>
      obtain ⟨hhere, hother⟩ := step_keeps h hw.1 hw.2
      exact holds_mk.mpr ⟨hhere, hother⟩
  | second =>
      obtain ⟨hhere, hother⟩ := step_keeps h hw.2 hw.1
      exact holds_mk.mpr ⟨hother, hhere⟩

/-- What every operation of a run keeps holds of all that the run leaves behind. -/
theorem run_keeps {effects : List (Place × Effect σ ρ)} {w : Workspace σ} (hw : w.Holds P)
    (h : ∀ operation ∈ effects, operation.2.Keeps P) : (w.run effects).2.Holds P := by
  induction effects generalizing w with
  | nil => exact hw
  | cons operation rest ih =>
      have hstep : (w.perform operation.1 operation.2).2.Holds P :=
        perform_keeps (h operation List.mem_cons_self) hw operation.1
      exact ih hstep fun later hlater => h later (List.mem_cons_of_mem operation hlater)

theorem step_of_isWork {effect : Effect σ ρ} (h : effect.IsWork) (here other : Option σ) :
    (step here other effect).2 = (here.map effect.after, other) := by
  cases effect with
  | work change => cases here <;> rfl
  | _ => contradiction

theorem get_perform {effect : Effect σ ρ} (h : effect.IsWork) (w : Workspace σ) (place : Place) :
    (w.perform place effect).2.get place = (w.get place).map effect.after := by
  rw [get_perform_eq, step_of_isWork h]

/-- A run in one place is a chain of what the effects make of the container there. -/
theorem get_run {effects : List (Effect σ ρ)} (h : ∀ effect ∈ effects, effect.IsWork)
    (w : Workspace σ) (place : Place) :
    (w.run (effects.map fun effect => (place, effect))).2.get place =
      (w.get place).map fun s => effects.foldl (fun s effect => effect.after s) s := by
  induction effects generalizing w with
  | nil => simp [run]
  | cons effect rest ih =>
      have hwork : effect.IsWork := h effect List.mem_cons_self
      have hrest := ih (fun later hlater => h later (List.mem_cons_of_mem effect hlater))
        (w.perform place effect).2
      rw [get_perform hwork, Option.map_map] at hrest
      exact hrest

/-- What every outcome of a run is like, the first one is like, and all later ones. -/
theorem forall_runEach_cons {γ : Type} {Q : Outcome ρ → Prop} {effect : Allocator → γ → Effect σ ρ}
    {w : Workspace σ} {operation : Place × Allocator × γ}
    {rest : List (Place × Allocator × γ)} :
    (∀ outcome ∈ (w.runEach effect (operation :: rest)).1, Q outcome) ↔
      Q (w.perform operation.1 (effect operation.2.1 operation.2.2)).1 ∧
        ∀ outcome ∈ ((w.perform operation.1 (effect operation.2.1 operation.2.2)).2.runEach
          effect rest).1, Q outcome :=
  List.forall_mem_cons

/-- What every operation of a run keeps holds of all that is made from vacant places. -/
theorem holds_runEach {γ : Type} {effect : Allocator → γ → Effect σ ρ}
    {operations : List (Place × Allocator × γ)}
    (h : ∀ operation ∈ operations, (effect operation.2.1 operation.2.2).Keeps P) :
    ((vacant : Workspace σ).runEach effect operations).2.Holds P := by
  refine run_keeps holds_vacant fun operation hoperation => ?_
  obtain ⟨command, hmem, rfl⟩ := List.mem_map.mp hoperation
  exact h command hmem

/-- A container that is left in a place by allowed operations, each of which finds memory of
its own. -/
def Reached {γ : Type} (effect : Allocator → γ → Effect σ ρ) (Allowed : γ → Prop) (s : σ) :
    Prop :=
  ∃ (operations : List (Place × Allocator × γ)) (place : Place),
    (∀ operation ∈ operations, Allowed operation.2.2) ∧
      s ∈ (vacant.runEach effect operations).2.get place

/-- What every allowed operation keeps holds of all that can be reached. -/
theorem Reached.holds {γ : Type} {effect : Allocator → γ → Effect σ ρ} {Allowed : γ → Prop}
    {s : σ} (h : Reached effect Allowed s)
    (hkeeps : ∀ memory command, Allowed command → (effect memory command).Keeps P) : P s := by
  obtain ⟨operations, place, hallowed, hs⟩ := h
  have hholds : (vacant.runEach effect operations).2.Holds P := holds_runEach
    fun operation hmem => hkeeps operation.2.1 operation.2.2 (hallowed operation hmem)
  exact hholds place s hs

/-- What every outcome of each effect is like, each outcome of a run is like. -/
theorem run_outcomes {Q : Outcome ρ → Prop} {effects : List (Place × Effect σ ρ)}
    (w : Workspace σ)
    (h : ∀ operation ∈ effects, ∀ here other, Q (step here other operation.2).1) :
    ∀ outcome ∈ (w.run effects).1, Q outcome := by
  induction effects generalizing w with
  | nil => simp [run]
  | cons operation rest ih =>
      have hfirst : Q (w.perform operation.1 operation.2).1 := by
        rw [(perform_eq w operation.1 operation.2).1]
        exact h operation List.mem_cons_self _ _
      have hrest := ih (w.perform operation.1 operation.2).2 fun later hlater =>
        h later (List.mem_cons_of_mem operation hlater)
      exact List.forall_mem_cons.mpr ⟨hfirst, hrest⟩

theorem run_append (w : Workspace σ) (earlier later : List (Place × Effect σ ρ)) :
    (w.run (earlier ++ later)).2 = ((w.run earlier).2.run later).2 := by
  induction earlier generalizing w with
  | nil => rfl
  | cons operation rest ih => exact ih _

/-- The last operation of a run is applied to what the others leave. -/
theorem runEach_concat {γ : Type} (effect : Allocator → γ → Effect σ ρ) (w : Workspace σ)
    (operations : List (Place × Allocator × γ)) (place : Place) (memory : Allocator)
    (command : γ) :
    (w.runEach effect (operations ++ [(place, memory, command)])).2 =
      ((w.runEach effect operations).2.perform place (effect memory command)).2 := by
  rw [runEach, List.map_append, run_append]
  rfl

end Workspace

end Containers
