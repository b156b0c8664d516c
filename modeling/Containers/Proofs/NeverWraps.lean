/-
No number of elements is ever counted past the largest size, by whatever operations an
array came about.  Where elements take no memory, none is ever lacking: the largest size is
the only limit, and past it there is an overflow like past any other.
-/
import Containers.Proofs.RequiredRoom

namespace Containers

/-! ### Want of memory -/

/-- The allocator did not grant a block. -/
def ArrayError.IsBadAlloc : ArrayError → Prop
  | badAlloc _ => True
  | overflow _ | outOfRange _ _ | invalidPolicy _ => False

def Error.IsBadAlloc : Error → Prop
  | array error => error.IsBadAlloc
  | alreadyExists | notFound => False

def Failure.IsBadAlloc : Failure → Prop
  | refused error => error.IsBadAlloc
  | violated _ => False

def Outcome.IsBadAlloc {ρ : Type} : Outcome ρ → Prop
  | refused error => error.IsBadAlloc
  | returned _ | accepted _ | violated _ | vacant => False

section

variable {ε ζ σ τ υ : Type} {Bad : ε → Prop} {Bad' : ζ → Prop}

/-- The result is no error of the bad kind. -/
def Averts (Bad : ε → Prop) : EStateM.Result ε σ τ → Prop
  | .ok _ _ => True
  | .error error _ => ¬ Bad error

theorem Averts.map {step : EStateM ε σ τ} {s : σ} (h : Averts Bad (step s)) (f : τ → υ) :
    Averts Bad ((f <$> step) s) := by
  change Averts Bad (EStateM.map f step s)
  unfold EStateM.map
  generalize step s = result at h ⊢
  cases result <;> exact h

theorem Averts.adaptExcept {step : EStateM ε σ τ} {s : σ} (h : Averts Bad (step s)) (f : ε → ζ)
    (hf : ∀ error, Bad' (f error) → Bad error) : Averts Bad' (step.adaptExcept f s) := by
  unfold EStateM.adaptExcept
  generalize step s = result at h ⊢
  cases result with
  | ok reply t => trivial
  | error error t => exact fun hbad => h (hf error hbad)

/-- The result is no error of the bad kind. -/
def Clears (Bad : ε → Prop) : Except ε σ → Prop
  | .ok _ => True
  | .error error => ¬ Bad error

theorem Clears.bind {result : Except ε σ} {f : σ → Except ε τ} (h : Clears Bad result)
    (hf : ∀ s, Clears Bad (f s)) : Clears Bad (result >>= f) := by
  cases result with
  | ok s => exact hf s
  | error error => exact h

theorem Clears.map {result : Except ε σ} (h : Clears Bad result) (f : σ → τ) :
    Clears Bad (result.map f) := by
  cases result <;> exact h

theorem Clears.mapError {result : Except ε σ} (h : Clears Bad result) (f : ε → ζ)
    (hf : ∀ error, Bad' (f error) → Bad error) : Clears Bad' (result.mapError f) := by
  cases result with
  | ok s => trivial
  | error error => exact fun hbad => h (hf error hbad)

end

namespace Effect

variable {σ ρ : Type}

/-- No container is found in a state in which memory is lacking. -/
def Granted : Effect σ ρ → Prop
  | make result _ => Clears Error.IsBadAlloc result
  | copy result _ => ∀ s, Clears Error.IsBadAlloc (result s)
  | work step => ∀ s, ¬ (step s).1.IsBadAlloc
  | joint step => ∀ s t, ¬ (step (s, t)).1.IsBadAlloc
  | consume _ => True

theorem granted_look (reply : σ → ρ) : (look reply).Granted := fun _ => id

theorem granted_lookAsserted (reply : σ → Except Violation ρ) : (lookAsserted reply).Granted := by
  intro s
  dsimp only
  split <;> exact id

theorem granted_lookChecked {reply : σ → Except Error ρ}
    (h : ∀ s, Clears Error.IsBadAlloc (reply s)) : (lookChecked reply).Granted := by
  intro s
  have hreply := h s
  dsimp only
  generalize reply s = result at hreply
  cases result with
  | ok reply => exact id
  | error error => exact hreply

theorem granted_asserted (step : EStateM Violation σ ρ) : (asserted step).Granted := by
  intro s
  dsimp only
  split <;> exact id

theorem granted_refusable {step : EStateM Error σ ρ}
    (h : ∀ s, Averts Error.IsBadAlloc (step s)) : (refusable step).Granted := by
  intro s
  have hstep := h s
  dsimp only
  generalize step s = result at hstep
  cases result with
  | ok reply t => exact id
  | error error t => exact hstep

theorem granted_failing {step : EStateM Failure σ ρ}
    (h : ∀ s, Averts Failure.IsBadAlloc (step s)) : (failing step).Granted := by
  intro s
  have hstep := h s
  dsimp only
  generalize step s = result at hstep
  cases result with
  | ok reply t => exact id
  | error failure t => cases failure <;> exact hstep

theorem granted_jointRefusable {step : EStateM Error (σ × σ) ρ}
    (h : ∀ s t, Averts Error.IsBadAlloc (step (s, t))) : (jointRefusable step).Granted := by
  intro s t
  have hstep := h s t
  dsimp only
  generalize step (s, t) = result at hstep
  cases result with
  | ok reply pair => exact id
  | error error pair => exact hstep

theorem Granted.step {effect : Effect σ ρ} (h : effect.Granted) (here other : Option σ) :
    ¬ (Workspace.step here other effect).1.IsBadAlloc := by
  cases effect with
  | make result reply =>
      cases result with
      | ok s => exact id
      | error error => exact h
  | copy result reply =>
      cases here with
      | none => exact id
      | some s =>
          have hs := h s
          simp only [Workspace.step]
          generalize result s = copied at hs
          cases copied with
          | ok t => exact id
          | error error => exact hs
  | work change =>
      cases here with
      | none => exact id
      | some s => exact h s
  | joint change =>
      cases here with
      | none => exact id
      | some s =>
          cases other with
          | none => exact id
          | some t => exact h s t
  | consume reply => cases here <;> exact id

end Effect

/-! ### Arrays -/

/-- Elements that take no memory are never refused for want of it. -/
theorem Asks.averts {α ε σ τ : Type} [Element α] {report : ArrayError → ε} {Sound : Prop}
    {capacity : σ → Nat} {required : Nat} {Bad : ε → Prop} {result : EStateM.Result ε σ τ}
    (h : Asks α report Sound capacity required result) (hbytes : Element.bytes α = 0)
    (hreport : ∀ requested, ¬ Bad (report (.overflow requested))) : Averts Bad result := by
  cases h with
  | room _ => trivial
  | overflow => exact hreport _
  | badAlloc _ hne => exact absurd hbytes hne

namespace DynArray

variable {α : Type} [Element α]

/-! ### Elements that take no memory -/

section

variable (hbytes : Element.bytes α = 0) (memory : Allocator)
include hbytes

theorem averts_pushBack (v : α) (a : DynArray α) :
    Averts ArrayError.IsBadAlloc (pushBack memory v a) :=
  (asks_pushBack memory v a).averts hbytes fun _ => id

theorem averts_pushBackAll (vs : List α) (a : DynArray α) :
    Averts ArrayError.IsBadAlloc (pushBackAll memory vs a) := by
  induction vs generalizing a with
  | nil => trivial
  | cons v vs ih =>
      have hpush := averts_pushBack hbytes memory v a
      rw [pushBackAll]
      generalize pushBack memory v a = result at hpush ⊢
      cases result with
      | ok reply b => exact ih b
      | error error b => exact hpush

theorem averts_reserve (capacity : Nat) (a : DynArray α) :
    Averts ArrayError.IsBadAlloc (reserve memory capacity a) :=
  (asks_reserve memory capacity a).averts hbytes fun _ => id

theorem averts_extendBy (more : Element.Store α) (a : DynArray α) :
    Averts ArrayError.IsBadAlloc (extendBy memory more a) :=
  (asks_extendBy memory more a).averts hbytes fun _ => id

theorem averts_insert (i : Nat) (v : α) (a : DynArray α) :
    Averts Failure.IsBadAlloc (insert memory i v a) := by
  by_cases hi : i ≤ a.size
  · exact (asks_insert memory v hi).averts hbytes fun _ => id
  · rw [insert, if_pos (Nat.lt_of_not_le hi)]
    exact id

omit hbytes in
theorem clears_built {action : EStateM ArrayError (DynArray α) Unit} {a : DynArray α}
    (h : Averts ArrayError.IsBadAlloc (action a)) :
    Clears ArrayError.IsBadAlloc (built action a) := by
  unfold built
  generalize action a = result at h ⊢
  cases result <;> exact h

theorem clears_ofPolicy (policy : Policy) :
    Clears ArrayError.IsBadAlloc (ofPolicy memory policy : Except ArrayError (DynArray α)) := by
  have hasks : Asks α id True capacity 0 (reallocate memory policy.minCapacity (blank policy)) :=
    asks_reallocate memory (Nat.zero_le _) _
  exact clears_built (hasks.averts hbytes fun _ => id)

theorem clears_ofParameters (parameters : Policy.Parameters) :
    Clears ArrayError.IsBadAlloc
      (ofParameters memory parameters : Except ArrayError (DynArray α)) := by
  unfold ofParameters
  split
  · exact clears_ofPolicy hbytes memory _
  · exact id

theorem clears_ofList (xs : List α) :
    Clears ArrayError.IsBadAlloc (ofList memory xs : Except ArrayError (DynArray α)) :=
  (clears_ofPolicy hbytes memory .standard).bind fun a =>
    clears_built (averts_pushBackAll hbytes memory xs a)

theorem clears_ofBlock (xs : List α) :
    Clears ArrayError.IsBadAlloc (ofBlock memory xs : Except ArrayError (DynArray α)) :=
  (clears_ofPolicy hbytes memory .standard).bind fun a =>
    clears_built (averts_extendBy hbytes memory (Storage.ofList xs) a)

theorem clears_clone (a : DynArray α) : Clears ArrayError.IsBadAlloc (clone memory a) :=
  (clears_ofPolicy hbytes memory a.policy).bind fun empty =>
    (clears_built (averts_reserve hbytes memory a.capacity empty)).bind fun _ => trivial

omit hbytes in
theorem averts_setChecked (i : Nat) (v : α) (a : DynArray α) :
    Averts ArrayError.IsBadAlloc (setChecked i v a) := by
  unfold setChecked
  split
  · trivial
  · exact id

omit hbytes in
theorem averts_removeChecked (i : Nat) (a : DynArray α) :
    Averts ArrayError.IsBadAlloc (removeChecked i a) := by
  unfold removeChecked
  split
  · trivial
  · exact id

omit hbytes in
theorem clears_getChecked (i : Nat) (a : DynArray α) :
    Clears ArrayError.IsBadAlloc (a.getChecked i) := by
  unfold getChecked
  split
  · trivial
  · exact id

theorem Command.granted (command : Command α) : (command.effect memory).Granted := by
  cases command with
  | new => exact (clears_ofPolicy hbytes memory .standard).mapError _ fun _ => id
  | ofParameters parameters =>
      exact (clears_ofParameters hbytes memory parameters).mapError _ fun _ => id
  | ofList xs => exact (clears_ofList hbytes memory xs).mapError _ fun _ => id
  | ofBlock xs => exact (clears_ofBlock hbytes memory xs).mapError _ fun _ => id
  | clone => exact fun a => (clears_clone hbytes memory a).mapError _ fun _ => id
  | get | front | back => exact Effect.granted_lookAsserted _
  | getChecked i =>
      exact Effect.granted_lookChecked fun a =>
        ((clears_getChecked i a).map _).mapError _ fun _ => id
  | front? | back? => exact Effect.granted_look _
  | set | popBack | popFront | remove | erase => exact Effect.granted_asserted _
  | setChecked i v =>
      exact Effect.granted_refusable fun a =>
        ((averts_setChecked i v a).map _).adaptExcept _ fun _ => id
  -- What always takes place asks for nothing.
  | setFront? | setBack? | rewrite | popBack? | popFront? | clear | drain => exact fun _ => id
  | reserve capacity =>
      exact Effect.granted_refusable fun a =>
        ((averts_reserve hbytes memory capacity a).map _).adaptExcept _ fun _ => id
  | pushBack v =>
      exact Effect.granted_refusable fun a =>
        ((averts_pushBack hbytes memory v a).map _).adaptExcept _ fun _ => id
  | pushFront v =>
      exact Effect.granted_refusable fun a =>
        (((asks_insertAt memory 0 v a).averts hbytes fun _ => id).map _).adaptExcept _ fun _ => id
  | insert i v =>
      exact Effect.granted_failing fun a => (averts_insert hbytes memory i v a).map _
  | extendBy more =>
      exact Effect.granted_refusable fun a =>
        ((averts_extendBy hbytes memory more a).map _).adaptExcept _ fun _ => id
  | append =>
      exact Effect.granted_jointRefusable fun a b =>
        (((asks_append memory a b).averts hbytes fun _ => id).map _).adaptExcept _ fun _ => id
  | removeChecked i =>
      exact Effect.granted_refusable fun a =>
        ((averts_removeChecked i a).map _).adaptExcept _ fun _ => id
  | exchange => exact fun _ _ => id

end

/-! ### Runs -/

/-- Where all arrays keep to their bounds, what is asked for in either place is answered, and
the capacity is then one that a block can have. -/
theorem Command.answers_perform {w : Workspace (DynArray α)} (hw : w.Holds Bounded)
    {place : Place} {a : DynArray α} (ha : a ∈ w.get place) (memory : Allocator)
    {command : Command α} {required : Nat}
    (h : command.required? a (w.getOther place) = some required) :
    (∀ reply, (w.perform place (command.effect memory)).1 = .accepted reply →
      ∃ b ∈ (w.perform place (command.effect memory)).2.get place,
        required ≤ b.capacity ∧ b.capacity ≤ Element.limit α) ∧
    (Element.limit α < required → ∃ requested,
      (w.perform place (command.effect memory)).1 = .refused (.array (.overflow requested))) := by
  have hleft := Workspace.perform_keeps (Command.keeps_bounded memory command) hw place
  obtain ⟨hroom, hoverflow⟩ := Command.answers memory (hw place a ha) h
  rw [← Option.mem_def.mp ha, ← Workspace.get_perform_eq] at hroom
  rw [← Option.mem_def.mp ha] at hoverflow
  rw [(Workspace.perform_eq w place (command.effect memory)).1]
  refine ⟨fun reply haccepted => ?_, hoverflow⟩
  obtain ⟨b, hb, henough⟩ := hroom reply haccepted
  exact ⟨b, hb, henough, (hleft place b hb).within_limit⟩

theorem runEach_bounded (operations : List (Place × Allocator × Command α)) :
    (Workspace.vacant.runEach Command.effect operations).2.Holds Bounded :=
  Workspace.holds_runEach fun operation _ => Command.keeps_bounded operation.2.1 operation.2.2

theorem runEach_granted (hbytes : Element.bytes α = 0)
    (operations : List (Place × Allocator × Command α)) :
    ∀ outcome ∈ (Workspace.vacant.runEach Command.effect operations).1,
      ¬ Outcome.IsBadAlloc outcome := by
  apply Workspace.run_outcomes
  intro operation hoperation
  obtain ⟨⟨place, memory, command⟩, -, rfl⟩ := List.mem_map.mp hoperation
  exact (Command.granted hbytes memory command).step

/-- Whatever a run of operations leaves behind, and whatever memory each of them finds: an
operation that needs room for a number of elements in all ends well only if the capacity is
then at least that number and no more than a block can hold, and a number that no block can
hold is an overflow, never counted past the largest size and never left to the allocator.
Elements that take no memory are never refused for want of it.  A ring answers in the same
way. -/
theorem run_never_wraps (operations : List (Place × Allocator × Command α)) :
    let limit := if Element.bytes α = 0 then maxSize else maxBytes / Element.bytes α
    let (outcomes, w) := Workspace.vacant.runEach Command.effect operations
    (∀ (place : Place) (a : DynArray α) (memory : Allocator) (command : Command α)
        (required : Nat), a ∈ w.get place →
      command.required? a (w.getOther place) = some required →
      (∀ reply, (w.perform place (command.effect memory)).1 = .accepted reply →
        ∃ b ∈ (w.perform place (command.effect memory)).2.get place,
          required ≤ b.capacity ∧ b.capacity ≤ limit) ∧
      (limit < required → ∃ requested,
        (w.perform place (command.effect memory)).1 = .refused (.array (.overflow requested)))) ∧
    (Element.bytes α = 0 → ∀ outcome ∈ outcomes, ∀ requested,
      outcome ≠ .refused (.array (.badAlloc requested))) ∧
    ∀ (r : Ring α) (memory : Allocator) (request : Ring.Request α) (required : Nat),
      request.required? r = some required →
      (∀ s, request.perform memory r = .ok () s → required ≤ s.capacity) ∧
      (limit < required → ∃ requested s,
        request.perform memory r = .error (.array (.overflow requested)) s) := by
  refine ⟨?_, ?_, ?_⟩
  · intro place a memory command required ha hrequired
    exact Command.answers_perform (runEach_bounded operations) ha memory hrequired
  · intro hbytes outcome houtcome requested heq
    exact runEach_granted hbytes operations outcome houtcome (heq ▸ trivial)
  · intro r memory request required hrequired
    have hasks := Ring.Request.asks memory hrequired
    exact ⟨fun s hok => hasks.room_of_ok trivial hok, hasks.overflow_of_lt trivial⟩

namespace NeverWrapsWitness

/-- As many elements as can be counted, none of which takes memory. -/
def operations : List (Place × Allocator × Command Unit) :=
  [(.first, .upTo 0, .new), (.first, .upTo 0, .reserve maxSize),
    (.first, .upTo 0, .extendBy (⟨maxSize⟩ : Tally)), (.second, .upTo 0, .ofBlock [(), ()])]

def left : Workspace (DynArray Unit) := (Workspace.vacant.runEach Command.effect operations).2

/-- Neither one element more nor those of another array are counted past the largest size. -/
theorem run_never_wraps_full :
    ∃ a ∈ left.first, a.size = maxSize ∧ a.capacity = maxSize ∧
      (∃ requested, (left.perform .first (Command.effect .addressSpace (.pushBack ()))).1 =
        .refused (.array (.overflow requested))) ∧
      ∃ requested, (left.perform .first (Command.effect .addressSpace .append)).1 =
        .refused (.array (.overflow requested)) := by
  have hsome : left.first.isSome = true := by decide +kernel
  have hsome' : left.second.isSome = true := by decide +kernel
  obtain ⟨a, ha⟩ := Option.isSome_iff_exists.mp hsome
  obtain ⟨b, hb⟩ := Option.isSome_iff_exists.mp hsome'
  have hnumbers : left.first.map (fun a => (a.size, a.capacity)) = some (maxSize, maxSize) := by
    decide +kernel
  have hother : left.second.map size = some 2 := by decide +kernel
  rw [ha, Option.map_some, Option.some_inj, Prod.mk.injEq] at hnumbers
  rw [hb, Option.map_some, Option.some_inj] at hother
  obtain ⟨hsize, hcapacity⟩ := hnumbers
  obtain ⟨hanswers, -⟩ := run_never_wraps operations
  have hpush := (hanswers .first a .addressSpace (.pushBack ()) (maxSize + 1) ha
    (by rw [Command.required?, hsize])).2
  have hboth : Command.required? a (left.getOther .first) .append = some (maxSize + 2) := by
    change left.second.map (fun b => a.size + b.size) = some (maxSize + 2)
    rw [hb, Option.map_some, hsize, hother]
  have happend := (hanswers .first a .addressSpace .append (maxSize + 2) ha hboth).2
  exact ⟨a, ha, hsize, hcapacity, hpush (by decide), happend (by decide)⟩

end NeverWrapsWitness

end DynArray

end Containers
