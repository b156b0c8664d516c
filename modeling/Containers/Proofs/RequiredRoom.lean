/-
What is required of an array or a ring is a number that does not wrap around.  A request
ends well only where there is room for all that it requires, and one for more than a block
can hold is an overflow, whatever the policy, the memory and the size of an element are.
-/
import Containers.Proofs.CapacityBounds
import Containers.Sequence.Ring

namespace Containers

/-! ### Requests -/

section

variable {ε ζ σ τ υ : Type}

/-- How an attempt ends that needs room for `required` elements in all.  If it ends well there
is that much room, and a block can hold as many, provided that things were sound; otherwise
it is an overflow, or, where elements take memory and a block can hold as many, the memory is
lacking. -/
inductive Asks (α : Type) [Element α] (report : ArrayError → ε) (Sound : Prop)
    (capacity : σ → Nat) (required : Nat) : EStateM.Result ε σ τ → Prop
  | room {reply : τ} {s : σ}
      (hroom : Sound → required ≤ capacity s ∧ required ≤ Element.limit α) :
      Asks α report Sound capacity required (.ok reply s)
  | overflow {requested : Nat} {s : σ} :
      Asks α report Sound capacity required (.error (report (.overflow requested)) s)
  | badAlloc {requested : Nat} {s : σ} (hlimit : required ≤ Element.limit α)
      (hbytes : Element.bytes α ≠ 0) :
      Asks α report Sound capacity required (.error (report (.badAlloc requested)) s)

namespace Asks

variable {α : Type} [Element α] {report : ArrayError → ε} {Sound : Prop} {capacity : σ → Nat}
  {required : Nat}

theorem adaptExcept {step : EStateM ε σ τ} {s : σ}
    (h : Asks α report Sound capacity required (step s)) (f : ε → ζ) :
    Asks α (f ∘ report) Sound capacity required (step.adaptExcept f s) := by
  unfold EStateM.adaptExcept
  generalize step s = result at h ⊢
  cases h with
  | room hroom => exact .room hroom
  | overflow => exact .overflow
  | badAlloc hlimit hbytes => exact .badAlloc hlimit hbytes

theorem map {step : EStateM ε σ τ} {s : σ} (h : Asks α report Sound capacity required (step s))
    (f : τ → υ) : Asks α report Sound capacity required ((f <$> step) s) := by
  change Asks α report Sound capacity required (EStateM.map f step s)
  unfold EStateM.map
  generalize step s = result at h ⊢
  cases h with
  | room hroom => exact .room hroom
  | overflow => exact .overflow
  | badAlloc hlimit hbytes => exact .badAlloc hlimit hbytes

theorem room_of_ok {result : EStateM.Result ε σ τ} {reply : τ} {s : σ}
    (h : Asks α report Sound capacity required result) (hsound : Sound)
    (hok : result = .ok reply s) : required ≤ capacity s := by
  subst hok
  cases h with
  | room hroom => exact (hroom hsound).1

/-- More than a block can hold is an overflow. -/
theorem overflow_of_lt {result : EStateM.Result ε σ τ}
    (h : Asks α report Sound capacity required result) (hsound : Sound)
    (hlt : Element.limit α < required) :
    ∃ requested s, result = .error (report (.overflow requested)) s := by
  cases h with
  | room hroom => exact absurd (hroom hsound).2 (Nat.not_le.mpr hlt)
  | overflow => exact ⟨_, _, rfl⟩
  | badAlloc hlimit _ => exact absurd hlimit (Nat.not_le.mpr hlt)

end Asks

end

/-! ### Rings -/

namespace Ring

variable {α : Type}

theorem reserved_openGap (i count : Nat) (r : Ring α) :
    (openGap i count r).reserved = r.reserved := by
  induction count generalizing r with
  | zero => rfl
  | succ count ih => exact ih _

variable [Element α]

theorem reserved_spread (r : Ring α) : r.spread.reserved = r.reserved := by
  unfold spread
  split <;> rfl

theorem capacity_eq {r s : Ring α} (h : s.reserved = r.reserved) : s.capacity = r.capacity := by
  rw [capacity, capacity, h]

theorem asks_reserve (memory : Allocator) (additional : Nat) (r : Ring α) :
    Asks α Error.array True capacity (r.size + additional) (reserve memory additional r) := by
  unfold reserve
  cases hsum : sizeSum? r.size additional with
  | none => exact .overflow
  | some required =>
      obtain ⟨rfl, hsize⟩ := sizeSum?_eq_some_iff.mp hsum
      dsimp only
      split
      · exact .overflow
      · rename_i hlimit
        rw [Nat.not_lt] at hlimit
        split
        · rename_i hroom
          exact .room fun _ => ⟨hroom, hlimit⟩
        · rename_i hfull
          -- A ring of elements that take no memory has room for any number of them.
          have hbytes : Element.bytes α ≠ 0 := fun hzero => hfull (by rwa [capacity, if_pos hzero])
          split
          · refine .room fun _ => ⟨?_, hlimit⟩
            rw [capacity, if_neg hbytes]
            exact Nat.le_trans (Nat.le_max_left _ _) (Nat.le_max_right _ _)
          · exact .badAlloc hlimit hbytes

/-- An element is placed in the room that was made for it. -/
theorem asks_place (memory : Allocator) (place : Ring α → Ring α)
    (hplace : ∀ s, (place s).reserved = s.reserved) (r : Ring α) :
    Asks α Error.array True capacity (r.size + 1) (match reserve memory 1 r with
      | .ok _ s => .ok () (place s)
      | .error error s => .error error s : EStateM.Result Error (Ring α) Unit) := by
  have hreserve := asks_reserve memory 1 r
  generalize reserve memory 1 r = result at hreserve ⊢
  cases hreserve with
  | @room reply s hroom => exact .room fun hsound => capacity_eq (hplace s) ▸ hroom hsound
  | overflow => exact .overflow
  | badAlloc hlimit hbytes => exact .badAlloc hlimit hbytes

/-- A request for room in a ring. -/
inductive Request (α : Type)
  | reserve (additional : Nat)
  | pushBack (v : α)
  | pushFront (v : α)
  | insert (i : Nat) (v : α)

def Request.perform (memory : Allocator) : Request α → EStateM Error (Ring α) Unit
  | reserve additional => Ring.reserve memory additional
  | pushBack v => Ring.pushBack memory v
  | pushFront v => Ring.pushFront memory v
  | insert i v => Ring.insert memory i v

/-- The number of elements in all that a request needs room for; an insertion does at an index
that is at most the size. -/
def Request.required? (r : Ring α) : Request α → Option Nat
  | reserve additional => some (r.size + additional)
  | pushBack _ | pushFront _ => some (r.size + 1)
  | insert i _ => if i ≤ r.size then some (r.size + 1) else none

theorem Request.asks (memory : Allocator) {r : Ring α} {request : Request α} {required : Nat}
    (h : request.required? r = some required) :
    Asks α Error.array True capacity required (request.perform memory r) := by
  cases request with
  | reserve additional =>
      obtain rfl := Option.some.inj h
      exact asks_reserve memory additional r
  | pushBack v =>
      obtain rfl := Option.some.inj h
      exact asks_place memory (fun s => s.spread.placeBack v) reserved_spread r
  | pushFront v =>
      obtain rfl := Option.some.inj h
      exact asks_place memory (fun s => s.spread.placeFront v) reserved_spread r
  | insert i v =>
      rw [required?, Option.ite_none_right_eq_some] at h
      obtain ⟨hi, hrequired⟩ := h
      obtain rfl := Option.some.inj hrequired
      have hplace : ∀ s : Ring α, (s.spread.placeAt i v).reserved = s.reserved := fun s =>
        (reserved_openGap i _ s.spread).trans (reserved_spread s)
      have hasks := asks_place memory (fun s => s.spread.placeAt i v) hplace r
      rw [perform, Ring.insert, if_neg (Nat.not_lt.mpr hi)]
      exact hasks

end Ring

/-! ### Arrays -/

namespace DynArray

variable {α : Type} [Element α]

theorem asks_reallocate (memory : Allocator) {Sound : Prop} {required target : Nat}
    (hle : required ≤ target) (a : DynArray α) :
    Asks α id Sound capacity required (reallocate memory target a) := by
  unfold reallocate
  split
  · exact .overflow
  · rename_i hlimit
    rw [Nat.not_lt] at hlimit
    split
    · exact .room fun _ => ⟨hle, Nat.le_trans hle hlimit⟩
    · rename_i hdenied
      refine .badAlloc (Nat.le_trans hle hlimit) fun hbytes => hdenied ?_
      rw [hbytes, Nat.mul_zero]
      exact memory.grants_zero

theorem asks_reserveOne (memory : Allocator) (a : DynArray α) :
    Asks α id a.Bounded capacity (a.size + 1) (reserveOne memory a) := by
  unfold reserveOne isFull Policy.shouldGrow
  by_cases hfull : a.size = a.capacity
  · rw [if_pos (beq_iff_eq.mpr hfull), grow]
    split
    · exact .overflow
    · rename_i target htarget
      have hup : a.capacity < target := Policy.lt_of_grown? htarget
      exact asks_reallocate memory (by omega) a
  · rw [if_neg (by simpa using hfull)]
    refine .room fun ha => ?_
    have hfits : a.size ≤ a.capacity := a.size_eq_length ▸ ha.fits
    have hlimit : a.capacity ≤ Element.limit α := ha.within_limit
    omega

theorem asks_reserveFor (memory : Allocator) (additional : Nat) (a : DynArray α) :
    Asks α id a.Bounded capacity (a.size + additional) (reserveFor memory additional a) := by
  unfold reserveFor
  cases hsum : sizeSum? a.size additional with
  | none => exact .overflow
  | some required =>
      obtain ⟨rfl, -⟩ := sizeSum?_eq_some_iff.mp hsum
      dsimp only
      split
      · rename_i hroom
        exact .room fun ha => ⟨hroom, Nat.le_trans hroom ha.within_limit⟩
      · cases hclimb : a.policy.climb? (a.size + additional) a.capacity with
        | none => exact .overflow
        | some target => exact asks_reallocate memory (le_of_climb? hclimb).1 a

theorem asks_reserve (memory : Allocator) (required : Nat) (a : DynArray α) :
    Asks α id a.Bounded capacity required (reserve memory required a) := by
  unfold reserve
  split
  · exact asks_reallocate memory (Nat.le_refl required) a
  · rename_i hroom
    rw [Nat.not_lt] at hroom
    exact .room fun ha => ⟨hroom, Nat.le_trans hroom ha.within_limit⟩

/-- What is put into the room does not change it. -/
theorem asks_fill {Sound : Prop} {required : Nat} (fill : DynArray α → Element.Store α)
    {result : EStateM.Result ArrayError (DynArray α) Unit} :
    Asks α id Sound capacity required result →
    Asks α id Sound capacity required (match result with
      | .ok _ a => .ok () { a with store := fill a }
      | .error error a => .error error a) := by
  intro h
  cases h with
  | room hroom => exact .room hroom
  | overflow => exact .overflow
  | badAlloc hlimit hbytes => exact .badAlloc hlimit hbytes

theorem asks_pushBack (memory : Allocator) (v : α) (a : DynArray α) :
    Asks α id a.Bounded capacity (a.size + 1) (pushBack memory v a) :=
  asks_fill (fun b => Storage.push b.store v) (asks_reserveOne memory a)

theorem asks_insertAt (memory : Allocator) (i : Nat) (v : α) (a : DynArray α) :
    Asks α id a.Bounded capacity (a.size + 1) (insertAt memory i v a) :=
  asks_fill (fun b => Storage.insert b.store i v) (asks_reserveOne memory a)

theorem asks_insert (memory : Allocator) {i : Nat} (v : α) {a : DynArray α} (hi : i ≤ a.size) :
    Asks α (Failure.refused ∘ Error.array) a.Bounded capacity (a.size + 1)
      (insert memory i v a) := by
  unfold insert
  rw [if_neg (Nat.not_lt.mpr hi)]
  exact (asks_insertAt memory i v a).adaptExcept (Failure.refused ∘ Error.array)

theorem asks_extendBy (memory : Allocator) (more : Element.Store α) (a : DynArray α) :
    Asks α id a.Bounded capacity (a.size + Storage.size more) (extendBy memory more a) :=
  asks_fill (fun b => Storage.append b.store more) (asks_reserveFor memory (Storage.size more) a)

theorem asks_append (memory : Allocator) (a b : DynArray α) :
    Asks α id a.Bounded (fun pair => pair.1.capacity) (a.size + b.size)
      (append memory (a, b)) := by
  have hextend : Asks α id a.Bounded capacity (a.size + b.size) (extendBy memory b.store a) :=
    asks_extendBy memory b.store a
  unfold append
  dsimp only
  generalize extendBy memory b.store a = result at hextend ⊢
  cases hextend with
  | room hroom => exact .room hroom
  | overflow => exact .overflow
  | badAlloc hlimit hbytes => exact .badAlloc hlimit hbytes

/-! ### Operations on arrays -/

/-- The number of elements in all that an operation needs room for in the array here, if it
needs any; an insertion does at an index that is at most the size. -/
def Command.required? (a : DynArray α) (other : Option (DynArray α)) : Command α → Option Nat
  | reserve capacity => some capacity
  | pushBack _ | pushFront _ => some (a.size + 1)
  | insert i _ => if i ≤ a.size then some (a.size + 1) else none
  | extendBy more => some (a.size + Storage.size more)
  | append => other.map fun b => a.size + b.size
  | _ => none

/-- How an operation that needs room for `required` elements ended, and what is left then. -/
structure Answers {ρ : Type} (required : Nat) (outcome : Outcome ρ)
    (left : Option (DynArray α)) : Prop where
  room : ∀ reply, outcome = .accepted reply → ∃ b ∈ left, required ≤ b.capacity
  overflow : Element.limit α < required →
    ∃ requested, outcome = .refused (.array (.overflow requested))

/-- What is asked for is answered by the outcome and by what is left. -/
theorem answers_of_asks {ε σ ρ : Type} {report : ArrayError → ε} {Sound : Prop}
    {room : σ → Nat} {required : Nat} {result : EStateM.Result ε σ ρ}
    (h : Asks α report Sound room required result) (hsound : Sound) {outcome : Outcome ρ}
    {left : Option (DynArray α)}
    (hok : ∀ reply s, result = .ok reply s → ∃ b ∈ left, b.capacity = room s)
    (herror : ∀ error s, result = .error (report error) s → outcome = .refused (.array error)) :
    Answers required outcome left := by
  cases h with
  | @room reply s hroom =>
      obtain ⟨b, hb, hcapacity⟩ := hok reply s rfl
      obtain ⟨henough, hlimit⟩ := hroom hsound
      exact ⟨fun _ _ => ⟨b, hb, hcapacity ▸ henough⟩,
        fun hlt => absurd hlimit (Nat.not_le.mpr hlt)⟩
  | @overflow requested s =>
      obtain rfl := herror (.overflow requested) s rfl
      exact ⟨nofun, fun _ => ⟨requested, rfl⟩⟩
  | @badAlloc requested s hlimit _ =>
      obtain rfl := herror (.badAlloc requested) s rfl
      exact ⟨nofun, fun hlt => absurd hlimit (Nat.not_le.mpr hlt)⟩

theorem answers_refusable {ρ : Type} {Sound : Prop} {required : Nat} {a : DynArray α}
    {step : EStateM Error (DynArray α) ρ}
    (h : Asks α Error.array Sound capacity required (step a)) (hsound : Sound)
    (other : Option (DynArray α)) :
    Answers required (Workspace.step (some a) other (.refusable step)).1
      (Workspace.step (some a) other (.refusable step)).2.1 := by
  refine answers_of_asks h hsound (fun reply b hresult => ⟨b, ?_, rfl⟩) fun error b hresult => ?_
  · simp [Workspace.step, Effect.refusable, hresult]
  · simp [Workspace.step, Effect.refusable, hresult]

/-- An array that keeps to its bounds answers every request. -/
theorem Command.answers (memory : Allocator) {a : DynArray α} (ha : a.Bounded)
    {other : Option (DynArray α)} {command : Command α} {required : Nat}
    (h : command.required? a other = some required) :
    Answers required (Workspace.step (some a) other (command.effect memory)).1
      (Workspace.step (some a) other (command.effect memory)).2.1 := by
  cases command with
  | reserve capacity =>
      obtain rfl := Option.some.inj h
      exact answers_refusable (((asks_reserve memory capacity a).map _).adaptExcept _) ha other
  | pushBack v =>
      obtain rfl := Option.some.inj h
      exact answers_refusable (((asks_pushBack memory v a).map _).adaptExcept _) ha other
  | pushFront v =>
      obtain rfl := Option.some.inj h
      exact answers_refusable (((asks_insertAt memory 0 v a).map _).adaptExcept _) ha other
  | extendBy more =>
      obtain rfl := Option.some.inj h
      exact answers_refusable (((asks_extendBy memory more a).map _).adaptExcept _) ha other
  | insert i v =>
      rw [required?, Option.ite_none_right_eq_some] at h
      obtain ⟨hi, hrequired⟩ := h
      obtain rfl := Option.some.inj hrequired
      have hasks : Asks α (Failure.refused ∘ Error.array) a.Bounded DynArray.capacity (a.size + 1)
          (Reply.silently (α := α) (DynArray.insert memory i v) a) :=
        (asks_insert memory v hi).map _
      refine answers_of_asks hasks ha (fun reply b hresult => ⟨b, ?_, rfl⟩)
        fun error b hresult => ?_
      · simp [effect, Workspace.step, Effect.failing, hresult]
      · simp [effect, Workspace.step, Effect.failing, hresult]
  | append =>
      rw [required?, Option.map_eq_some_iff] at h
      obtain ⟨b, rfl, rfl⟩ := h
      have hasks := ((asks_append memory a b).map fun _ => (Reply.nothing : Reply α)).adaptExcept
        Error.array
      refine answers_of_asks hasks ha (fun reply pair hresult => ⟨pair.1, ?_, rfl⟩)
        fun error pair hresult => ?_
      · simp [effect, Workspace.step, Effect.jointRefusable, Reply.silently, hresult]
      · simp [effect, Workspace.step, Effect.jointRefusable, Reply.silently, hresult]
  | _ => contradiction

end DynArray

end Containers
