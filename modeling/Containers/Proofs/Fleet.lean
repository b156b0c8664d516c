/-
Runs over any number of places.  As with two of them, an operation is applied to the
container in its place, and to the one in another place where it needs both.  Beside a run
notes can be taken of what is in each place, and what one operation keeps true of them, the
whole run does.
-/
import Containers.Proofs.Run
import Mathlib.Data.Option.Basic
import Mathlib.Logic.Function.Basic

namespace Containers

/-- Any number of places, each vacant or holding a container. -/
abbrev Fleet (ι σ : Type) := ι → Option σ

namespace Fleet

/-- An operation in a place, with another place at hand, and with the memory that there
is. -/
structure Operation (ι γ : Type) where
  here : ι
  other : ι
  distinct : here ≠ other
  memory : Allocator
  command : γ

variable {ι σ τ ρ γ : Type}

def vacant : Fleet ι σ := fun _ => none

section Runs

variable [DecidableEq ι]

/-- Puts what is left into the two places of an operation. -/
def put (fleet : Fleet ι σ) (operation : Operation ι γ) (left : Option σ × Option σ) :
    Fleet ι σ :=
  Function.update (Function.update fleet operation.here left.1) operation.other left.2

/-- Applies an operation to what is in its two places.  All other places stay as they
are. -/
def perform (effect : Allocator → γ → Effect σ ρ) (fleet : Fleet ι σ)
    (operation : Operation ι γ) : Outcome ρ × Fleet ι σ :=
  let (outcome, left) := Workspace.step (fleet operation.here) (fleet operation.other)
    (effect operation.memory operation.command)
  (outcome, fleet.put operation left)

/-- The outcomes of a list of operations, one after the other, and what is left in the
places. -/
def run (effect : Allocator → γ → Effect σ ρ) (fleet : Fleet ι σ) :
    List (Operation ι γ) → List (Outcome ρ) × Fleet ι σ
  | [] => ([], fleet)
  | operation :: rest =>
    let (outcome, fleet) := fleet.perform effect operation
    let (outcomes, fleet) := run effect fleet rest
    (outcome :: outcomes, fleet)

/-- What is noted in the places, when each operation changes the notes in its two places as
its outcome tells. -/
def annotate (note : Operation ι γ → Outcome ρ → Option τ → Option τ → Option τ × Option τ)
    (notes : Fleet ι τ) : List (Operation ι γ) → List (Outcome ρ) → Fleet ι τ
  | operation :: rest, outcome :: outcomes =>
    annotate note
      (notes.put operation
        (note operation outcome (notes operation.here) (notes operation.other)))
      rest outcomes
  | _, _ => notes

variable {fleet : Fleet ι σ} {operation : Operation ι γ} {left : Option σ × Option σ}

@[simp] theorem put_here : fleet.put operation left operation.here = left.1 := by
  rw [put, Function.update_of_ne operation.distinct, Function.update_self]

@[simp] theorem put_other : fleet.put operation left operation.other = left.2 := by
  rw [put, Function.update_self]

theorem put_elsewhere {place : ι} (hhere : place ≠ operation.here)
    (hother : place ≠ operation.other) : fleet.put operation left place = fleet place := by
  rw [put, Function.update_of_ne hother, Function.update_of_ne hhere]

theorem update_rel {R : τ → σ → Prop} {notes : Fleet ι τ} {fleet : Fleet ι σ}
    (h : ∀ place, Option.Rel R (notes place) (fleet place)) (there : ι) {noted : Option τ}
    {left : Option σ} (hleft : Option.Rel R noted left) (place : ι) :
    Option.Rel R (Function.update notes there noted place)
      (Function.update fleet there left place) := by
  by_cases hplace : place = there
  · subst hplace
    rw [Function.update_self, Function.update_self]
    exact hleft
  · rw [Function.update_of_ne hplace, Function.update_of_ne hplace]
    exact h place

/-- What was related in all places stays so if what is put into two of them is. -/
theorem put_rel {R : τ → σ → Prop} {notes : Fleet ι τ} {noted : Option τ × Option τ}
    (h : ∀ place, Option.Rel R (notes place) (fleet place))
    (hhere : Option.Rel R noted.1 left.1) (hother : Option.Rel R noted.2 left.2) (place : ι) :
    Option.Rel R (notes.put operation noted place) (fleet.put operation left place) :=
  update_rel (update_rel h operation.here hhere) operation.other hother place

/-- Notes that every operation keeps true stay true of all that a run leaves behind. -/
theorem run_annotated {R : τ → σ → Prop} {effect : Allocator → γ → Effect σ ρ}
    {note : Operation ι γ → Outcome ρ → Option τ → Option τ → Option τ × Option τ}
    (hkeeps : ∀ (operation : Operation ι γ) (noted noted' : Option τ) (here other : Option σ),
      Option.Rel R noted here → Option.Rel R noted' other →
        let result := Workspace.step here other (effect operation.memory operation.command)
        Option.Rel R (note operation result.1 noted noted').1 result.2.1 ∧
          Option.Rel R (note operation result.1 noted noted').2 result.2.2)
    (operations : List (Operation ι γ)) {notes : Fleet ι τ}
    (h : ∀ place, Option.Rel R (notes place) (fleet place)) (place : ι) :
    Option.Rel R (annotate note notes operations (run effect fleet operations).1 place)
      ((run effect fleet operations).2 place) := by
  induction operations generalizing fleet notes with
  | nil => exact h place
  | cons operation rest ih =>
      obtain ⟨hhere, hother⟩ :=
        hkeeps operation _ _ _ _ (h operation.here) (h operation.other)
      exact ih (put_rel h hhere hother)

end Runs

end Fleet

end Containers
