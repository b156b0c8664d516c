/-
Runs of operations over two places, each vacant or holding a container.  An effect
is what one operation does to the container in its place, and to the one in the
other place where it needs both.
-/
import Containers.Allocator
import Containers.Error

namespace Containers

/-- One of the two places. -/
inductive Place
  | first
  | second
deriving DecidableEq

/-- The two places. -/
structure Workspace (σ : Type) where
  first : Option σ
  second : Option σ

/-- What an operation hands out. -/
inductive Reply (α : Type)
  | nothing
  | element (element : α)
  | optional (element : Option α)
  | elements (elements : List α)

/-- How an operation ended.  A reply is accepted where the operation could have
been refused. -/
inductive Outcome (ρ : Type)
  | returned (reply : ρ)
  | accepted (reply : ρ)
  | refused (error : Error)
  | violated (violation : Violation)
  | vacant

/-- What an operation does: it makes a container or a copy of one, works on one
container or on both, or uses one up. -/
inductive Effect (σ ρ : Type)
  | make (result : Except Error σ) (reply : ρ)
  | copy (result : σ → Except Error σ) (reply : ρ)
  | work (step : σ → Outcome ρ × σ)
  | joint (step : σ × σ → Outcome ρ × (σ × σ))
  | consume (reply : σ → ρ)

namespace Reply

/-- A change that hands nothing out. -/
def silently {ε σ : Type} {α : Type} (step : EStateM ε σ Unit) : EStateM ε σ (Reply α) :=
  (fun _ => .nothing) <$> step

end Reply

namespace Outcome

variable {ρ τ : Type}

def map (f : ρ → τ) : Outcome ρ → Outcome τ
  | returned reply => returned (f reply)
  | accepted reply => accepted (f reply)
  | refused error => refused error
  | violated violation => violated violation
  | vacant => vacant

end Outcome

namespace Effect

variable {σ ρ : Type}

/-- Looks at a container. -/
def look (reply : σ → ρ) : Effect σ ρ := work fun s => (.returned (reply s), s)

/-- Looks at a container under a condition that is asserted. -/
def lookAsserted (reply : σ → Except Violation ρ) : Effect σ ρ := work fun s =>
  match reply s with
  | .ok reply => (.returned reply, s)
  | .error violation => (.violated violation, s)

/-- Looks at a container under a condition that is checked. -/
def lookChecked (reply : σ → Except Error ρ) : Effect σ ρ := work fun s =>
  match reply s with
  | .ok reply => (.accepted reply, s)
  | .error error => (.refused error, s)

/-- A change that always takes place. -/
def total (step : StateM σ ρ) : Effect σ ρ := work fun s =>
  let (reply, s) := step s
  (.returned reply, s)

/-- A change under a condition that is asserted. -/
def asserted (step : EStateM Violation σ ρ) : Effect σ ρ := work fun s =>
  match step s with
  | .ok reply s => (.returned reply, s)
  | .error violation s => (.violated violation, s)

/-- A change that can be refused. -/
def refusable (step : EStateM Error σ ρ) : Effect σ ρ := work fun s =>
  match step s with
  | .ok reply s => (.accepted reply, s)
  | .error error s => (.refused error, s)

/-- A change that can be refused, under a condition that is asserted. -/
def failing (step : EStateM Failure σ ρ) : Effect σ ρ := work fun s =>
  match step s with
  | .ok reply s => (.accepted reply, s)
  | .error (.refused error) s => (.refused error, s)
  | .error (.violated violation) s => (.violated violation, s)

/-- A change of both containers that always takes place. -/
def jointTotal (step : StateM (σ × σ) ρ) : Effect σ ρ := joint fun s =>
  let (reply, s) := step s
  (.returned reply, s)

/-- A change of both containers under a condition that is asserted. -/
def jointAsserted (step : EStateM Violation (σ × σ) ρ) : Effect σ ρ := joint fun s =>
  match step s with
  | .ok reply s => (.returned reply, s)
  | .error violation s => (.violated violation, s)

/-- A change of both containers that can be refused. -/
def jointRefusable (step : EStateM Error (σ × σ) ρ) : Effect σ ρ := joint fun s =>
  match step s with
  | .ok reply s => (.accepted reply, s)
  | .error error s => (.refused error, s)

/-- The effect with another form of reply. -/
def map {τ : Type} (f : ρ → τ) : Effect σ ρ → Effect σ τ
  | make result reply => make result (f reply)
  | copy result reply => copy result (f reply)
  | work step => work fun s => let (outcome, s) := step s; (outcome.map f, s)
  | joint step => joint fun s => let (outcome, s) := step s; (outcome.map f, s)
  | consume reply => consume (f ∘ reply)

end Effect

namespace Workspace

variable {σ ρ : Type}

/-- Both places are vacant. -/
def vacant : Workspace σ := ⟨none, none⟩

/-- What is in a place. -/
def get (w : Workspace σ) : Place → Option σ
  | .first => w.first
  | .second => w.second

/-- What is in the other place. -/
def getOther (w : Workspace σ) : Place → Option σ
  | .first => w.second
  | .second => w.first

/-- Applies an effect to what is here and what is in the other place.  A refused
construction leaves the place as it was, and nothing happens where a container is
missing. -/
def step (here other : Option σ) : Effect σ ρ → Outcome ρ × Option σ × Option σ
  | .make (.ok s) reply => (.accepted reply, some s, other)
  | .make (.error error) _ => (.refused error, here, other)
  | .copy result reply =>
    match here with
    | none => (.vacant, here, other)
    | some s =>
      match result s with
      | .ok t => (.accepted reply, some s, some t)
      | .error error => (.refused error, some s, other)
  | .work step =>
    match here with
    | none => (.vacant, none, other)
    | some s => let (outcome, s) := step s; (outcome, some s, other)
  | .joint step =>
    match here, other with
    | some s, some t => let (outcome, s, t) := step (s, t); (outcome, some s, some t)
    | here, other => (.vacant, here, other)
  | .consume reply =>
    match here with
    | none => (.vacant, none, other)
    | some s => (.returned (reply s), none, other)

/-- Applies an effect in a place. -/
def perform (w : Workspace σ) (place : Place) (effect : Effect σ ρ) :
    Outcome ρ × Workspace σ :=
  match place, w with
  | .first, ⟨here, other⟩ =>
    let (outcome, here, other) := step here other effect
    (outcome, ⟨here, other⟩)
  | .second, ⟨other, here⟩ =>
    let (outcome, here, other) := step here other effect
    (outcome, ⟨other, here⟩)

/-- The outcomes of a list of effects, one after the other, and what is left in
the places. -/
def run (w : Workspace σ) : List (Place × Effect σ ρ) → List (Outcome ρ) × Workspace σ
  | [] => ([], w)
  | (place, effect) :: rest =>
    let (outcome, w) := w.perform place effect
    let (outcomes, w) := w.run rest
    (outcome :: outcomes, w)

/-- A run in which each operation finds memory of its own, so that what is granted to one of
them may be denied to another. -/
def runEach {γ : Type} (effect : Allocator → γ → Effect σ ρ) (w : Workspace σ)
    (operations : List (Place × Allocator × γ)) : List (Outcome ρ) × Workspace σ :=
  w.run (operations.map fun operation => (operation.1, effect operation.2.1 operation.2.2))

end Workspace

end Containers
