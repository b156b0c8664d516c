/-
The elements of arrays as plain lists.  An operation that finds the memory it asks for
shows and leaves what the same operation shows and leaves on plain lists, so that what
is seen of a run depends neither on capacities nor on policies.
-/
import Containers.DynArray.Command
import Containers.Proofs.CapacityBounds
import Containers.Proofs.Lockstep
import Containers.Proofs.Untouched

namespace Containers

namespace Outcome

variable {ρ : Type}

/-- What is replied under an asserted condition, if it is met. -/
def asserted (violation : Violation) : Option ρ → Outcome ρ
  | some reply => .returned reply
  | none => .violated violation

/-- What is replied under a checked condition, if it is met. -/
def checked (error : Error) : Option ρ → Outcome ρ
  | some reply => .accepted reply
  | none => .refused error

end Outcome

namespace DynArray

variable {α : Type} [Element α]

/-! ### Plain lists -/

/-- What an operation does on plain lists, which know neither capacities nor policies. -/
def Command.onLists : Command α → Effect (List α) (Reply α)
  | new => .make (.ok []) .nothing
  | ofParameters parameters =>
    match Policy.ofParameters parameters with
    | .ok _ => .make (.ok []) .nothing
    | .error fault => .make (.error (.array (.invalidPolicy fault.reason))) .nothing
  | ofList xs => .make (.ok xs) .nothing
  | ofBlock xs => .make (.ok xs) .nothing
  | clone => .copy .ok .nothing
  | get i => .work fun xs => (.asserted (.index i xs.length) (xs[i]?.map .element), xs)
  | getChecked i => .work fun xs =>
    (.checked (.array (.outOfRange i xs.length)) (xs[i]?.map .element), xs)
  | front => .work fun xs => (.asserted (.empty .front .array) (xs.head?.map .element), xs)
  | back => .work fun xs => (.asserted (.empty .back .array) (xs.getLast?.map .element), xs)
  | front? => .work fun xs => (.returned (.optional xs.head?), xs)
  | back? => .work fun xs => (.returned (.optional xs.getLast?), xs)
  | set i v => .work fun xs =>
    (.asserted (.index i xs.length) (xs[i]?.map .element), xs.set i v)
  | setChecked i v => .work fun xs =>
    (.checked (.array (.outOfRange i xs.length)) (xs[i]?.map .element), xs.set i v)
  | setFront? v => .work fun xs => (.returned (.optional xs.head?), xs.set 0 v)
  | setBack? v => .work fun xs =>
    (.returned (.optional xs.getLast?), xs.set (xs.length - 1) v)
  | rewrite f => .work fun xs => (.returned .nothing, (f xs.toArray).val.toList)
  | reserve _ => .work fun xs => (.accepted .nothing, xs)
  | pushBack v => .work fun xs => (.accepted .nothing, xs ++ [v])
  | pushFront v => .work fun xs => (.accepted .nothing, v :: xs)
  | insert i v => .work fun xs =>
    if i ≤ xs.length then (.accepted .nothing, xs.insertIdx i v)
    else (.violated (.insertion i xs.length), xs)
  | extendBy more => .work fun xs => (.accepted .nothing, xs ++ Storage.toList more)
  | append => .joint fun (xs, ys) => (.accepted .nothing, (xs ++ ys, []))
  | popBack => .work fun xs =>
    (.asserted (.empty .pop .array) (xs.getLast?.map .element), xs.dropLast)
  | popFront => .work fun xs =>
    (.asserted (.empty .pop .array) (xs.head?.map .element), xs.tail)
  | popBack? => .work fun xs => (.returned (.optional xs.getLast?), xs.dropLast)
  | popFront? => .work fun xs => (.returned (.optional xs.head?), xs.tail)
  | remove i => .work fun xs =>
    (.asserted (.index i xs.length) (xs[i]?.map .element), xs.eraseIdx i)
  | removeChecked i => .work fun xs =>
    (.checked (.array (.outOfRange i xs.length)) (xs[i]?.map .element), xs.eraseIdx i)
  | erase i => .work fun xs =>
    (.asserted (.index i xs.length) (xs[i]?.map fun _ => .nothing), xs.eraseIdx i)
  | clear => .work fun _ => (.returned .nothing, [])
  | drain => .work fun xs => (.returned (.elements xs), [])
  | exchange => .joint fun (xs, ys) => (.returned .nothing, (ys, xs))

/-- A run of operations on two plain lists. -/
def Command.runOnLists (w : Workspace (List α)) (commands : List (Place × Command α)) :
    List (Outcome (Reply α)) × Workspace (List α) :=
  w.run (commands.map fun (place, command) => (place, command.onLists))

/-! ### New arrays -/

/-- A construction that lacks memory, or that makes what is described. -/
inductive Made (Done : DynArray α → Prop) : Except ArrayError (DynArray α) → Prop
  | ok {a : DynArray α} (h : Done a) : Made Done (.ok a)
  | short {error : ArrayError} (h : error.IsShortage) : Made Done (.error error)

theorem Made.bind {Done Done' : DynArray α → Prop} {result : Except ArrayError (DynArray α)}
    {f : DynArray α → Except ArrayError (DynArray α)} (h : Made Done result)
    (hf : ∀ a, Done a → Made Done' (f a)) : Made Done' (result >>= f) := by
  cases h with
  | ok ha => exact hf _ ha
  | short hshort => exact .short hshort

theorem made_built {action : EStateM ArrayError (DynArray α) Unit} {a : DynArray α}
    {Done Done' : DynArray α → Prop}
    (h : Attempt ArrayError.IsShortage a Done (action a)) (hdone : ∀ b, Done b → Done' b) :
    Made Done' (built action a) := by
  unfold built
  generalize action a = result at h
  cases h with
  | done hb => exact .ok (hdone _ hb)
  | short hshort => exact .short hshort

theorem made_ofPolicy (memory : Allocator) (policy : Policy) :
    Made (fun a : DynArray α => a.toList = []) (ofPolicy memory policy) := by
  have hpos : (blank policy : DynArray α).capacity < policy.minCapacity :=
    one_le_minCapacity policy
  apply made_built (reallocate_attempt memory (blank policy) hpos)
  intro a ha
  exact ha.1.toList_eq.trans (toList_blank policy)

/-- Elements taken in one by one end up in order, or memory is lacking for one of them. -/
theorem made_pushBackAll (memory : Allocator) (vs : List α) (a : DynArray α) :
    Made (fun b => b.toList = a.toList ++ vs) (built (pushBackAll memory vs) a) := by
  induction vs generalizing a with
  | nil => exact .ok (List.append_nil a.toList).symm
  | cons v vs ih =>
      have hpush := pushBack_attempt memory v a
      simp only [built, pushBackAll]
      generalize pushBack memory v a = result at hpush
      cases hpush with
      | short hshort => exact .short hshort
      | @done b hwide =>
          have hrest := ih b
          rw [hwide.toList_eq, List.append_assoc, List.singleton_append] at hrest
          exact hrest

theorem made_ofList (memory : Allocator) (xs : List α) :
    Made (fun a => a.toList = xs) (ofList memory xs) := by
  apply (made_ofPolicy memory .standard).bind
  intro a ha
  have hpushed := made_pushBackAll memory xs a
  rwa [ha, List.nil_append] at hpushed

theorem made_ofBlock (memory : Allocator) (xs : List α) :
    Made (fun a => a.toList = xs) (ofBlock memory xs) := by
  apply (made_ofPolicy memory .standard).bind
  intro a ha
  apply made_built (extendBy_attempt memory (Storage.ofList xs) a)
  intro b hwide
  simp [hwide.toList_eq, ha]

theorem made_clone (memory : Allocator) (a : DynArray α) :
    Made (fun b => b.toList = a.toList) (clone memory a) := by
  apply (made_ofPolicy memory a.policy).bind
  intro empty hempty
  apply (made_built (reserve_attempt memory a.capacity empty) fun b hb =>
    hb.1.toList_eq.trans hempty).bind
  intro copy hcopy
  refine .ok ?_
  change Storage.toList (Storage.append copy.store a.store) = a.toList
  rw [Storage.toList_append]
  change copy.toList ++ a.toList = a.toList
  rw [hcopy, List.nil_append]

/-! ### Elements that are handed out -/

/-- A step that hands out what there is, or reports that there is nothing, and that
leaves the elements `xs`. -/
inductive Took {ε τ : Type} (taken? : Option τ) (failure : ε) (xs : List α) :
    EStateM.Result ε (DynArray α) τ → Prop
  | some {v : τ} {b : DynArray α} (htaken : taken? = some v) (hleft : b.toList = xs) :
      Took taken? failure xs (.ok v b)
  | none {b : DynArray α} (htaken : taken? = none) (hleft : b.toList = xs) :
      Took taken? failure xs (.error failure b)

section Took

variable (i : Nat) (v : α) (a : DynArray α)

theorem took_set : Took a.toList[i]? (Violation.index i a.toList.length) (a.toList.set i v)
    (set i v a) := by
  rw [set, get?_eq_getElem?, size_eq_length]
  cases hget : a.toList[i]? with
  | some previous => exact .some rfl (toList_put i v a)
  | none =>
      rw [List.set_eq_of_length_le (List.getElem?_eq_none_iff.mp hget)]
      exact .none rfl rfl

theorem took_setChecked : Took a.toList[i]? (ArrayError.outOfRange i a.toList.length)
    (a.toList.set i v) (setChecked i v a) := by
  rw [setChecked, get?_eq_getElem?, size_eq_length]
  cases hget : a.toList[i]? with
  | some previous => exact .some rfl (toList_put i v a)
  | none =>
      rw [List.set_eq_of_length_le (List.getElem?_eq_none_iff.mp hget)]
      exact .none rfl rfl

theorem took_remove : Took a.toList[i]? (Violation.index i a.toList.length)
    (a.toList.eraseIdx i) (remove i a) := by
  rw [remove, get?_eq_getElem?, size_eq_length]
  cases hget : a.toList[i]? with
  | some previous => exact .some rfl (toList_removeAt i a)
  | none =>
      rw [List.eraseIdx_of_length_le (List.getElem?_eq_none_iff.mp hget)]
      exact .none rfl rfl

theorem took_removeChecked : Took a.toList[i]? (ArrayError.outOfRange i a.toList.length)
    (a.toList.eraseIdx i) (removeChecked i a) := by
  rw [removeChecked, get?_eq_getElem?, size_eq_length]
  cases hget : a.toList[i]? with
  | some previous => exact .some rfl (toList_removeAt i a)
  | none =>
      rw [List.eraseIdx_of_length_le (List.getElem?_eq_none_iff.mp hget)]
      exact .none rfl rfl

theorem took_erase : Took (a.toList[i]?.map fun _ => ()) (Violation.index i a.toList.length)
    (a.toList.eraseIdx i) (erase i a) := by
  have htook := took_remove i a
  have herase : erase i a = ((fun _ => ()) <$> remove i) a := rfl
  generalize hresult : remove i a = result at htook
  cases htook with
  | some htaken hleft =>
      rw [herase, map_of_ok hresult, htaken]
      exact .some rfl hleft
  | none htaken hleft =>
      rw [herase, map_of_error hresult, htaken]
      exact .none rfl hleft

theorem took_popBack : Took a.toList.getLast? (Violation.empty .pop .array) a.toList.dropLast
    (popBack a) := by
  have hleft := (popBack?_narrowed a).toList_eq
  rw [popBack_eq_elim, popBack?_fst]
  cases hlast : a.toList.getLast? with
  | some last => exact .some rfl hleft
  | none => exact .none rfl hleft

theorem took_popFront : Took a.toList.head? (Violation.empty .pop .array) a.toList.tail
    (popFront a) := by
  have hleft := (popFront?_narrowed a).toList_eq
  rw [popFront_eq_elim, popFront?_fst]
  cases hhead : a.toList.head? with
  | some first => exact .some rfl hleft
  | none => exact .none rfl hleft

end Took

/-! ### Operations -/

/-- On the elements of arrays the effect keeps step with one on plain lists, unless it
lacks memory, and then it changes nothing. -/
def ActsOn (effect : Effect (DynArray α) (Reply α)) (effect' : Effect (List α) (Reply α)) : Prop :=
  effect.InStep Eq (fun a xs => a.toList = xs) Outcome.IsShortage effect'

section ActsOn

variable {β : Type} {reply : β → Reply α}

theorem actsOn_make {result : Except ArrayError (DynArray α)} {xs : List α} {reply : Reply α}
    (h : Made (fun a => a.toList = xs) result) :
    ActsOn (.make (result.mapError .array) reply) (.make (.ok xs) reply) := by
  cases h with
  | ok ha =>
      apply Effect.inStep_make rfl
      · intro s hs
        exact ⟨xs, rfl, Except.ok.inj hs ▸ ha⟩
      · intro error herror
        contradiction
  | short hshort =>
      apply Effect.inStep_make rfl
      · intro s hs
        contradiction
      · intro error herror
        exact Or.inr (Except.error.inj herror ▸ hshort)

theorem actsOn_clone (memory : Allocator) :
    ActsOn (.copy (fun a : DynArray α => (clone memory a).mapError .array) .nothing)
      (.copy .ok .nothing) := by
  apply Effect.inStep_copy rfl
  · rintro a _ rfl b hb
    have hmade := made_clone memory a
    rw [mapError_eq_ok hb] at hmade
    cases hmade with
    | ok hlist => exact ⟨_, rfl, hlist⟩
  · rintro a _ rfl error herror
    have hmade := made_clone memory a
    generalize clone memory a = result at hmade herror
    cases hmade with
    | ok hlist => contradiction
    | short hshort => exact Or.inr (Except.error.inj herror ▸ hshort)

theorem actsOn_look {view : DynArray α → Reply α} {shown : List α → Reply α}
    (h : ∀ a, view a = shown a.toList) :
    ActsOn (.look view) (.work fun xs => (.returned (shown xs), xs)) := by
  apply Effect.inStep_work
  rintro a _ rfl
  exact Or.inl ⟨.returned (h a), rfl⟩

theorem actsOn_lookAsserted {view : DynArray α → Except Violation (Reply α)}
    {violation : List α → Violation} {shown? : List α → Option (Reply α)}
    (h : ∀ a, view a = (shown? a.toList).elim (.error (violation a.toList)) .ok) :
    ActsOn (.lookAsserted view) (.work fun xs => (.asserted (violation xs) (shown? xs), xs)) := by
  apply Effect.inStep_work
  rintro a _ rfl
  rw [h a]
  cases shown? a.toList <;> exact Or.inl ⟨Outcome.alike_refl _, rfl⟩

theorem actsOn_lookChecked {view : DynArray α → Except Error (Reply α)}
    {error : List α → Error} {shown? : List α → Option (Reply α)}
    (h : ∀ a, view a = (shown? a.toList).elim (.error (error a.toList)) .ok) :
    ActsOn (.lookChecked view) (.work fun xs => (.checked (error xs) (shown? xs), xs)) := by
  apply Effect.inStep_work
  rintro a _ rfl
  rw [h a]
  cases shown? a.toList <;> exact Or.inl ⟨Outcome.alike_refl _, rfl⟩

theorem actsOn_total {step : StateM (DynArray α) β} {shown : List α → β}
    {next : List α → List α} (hshown : ∀ a, (step a).1 = shown a.toList)
    (hnext : ∀ a, (step a).2.toList = next a.toList) :
    ActsOn (.total (reply <$> step))
      (.work fun xs => (.returned (reply (shown xs)), next xs)) := by
  apply Effect.inStep_work
  rintro a _ rfl
  exact Or.inl ⟨.returned (congrArg reply (hshown a)), hnext a⟩

theorem actsOn_asserted {step : EStateM Violation (DynArray α) β}
    {taken? : List α → Option β} {violation : List α → Violation} {next : List α → List α}
    (h : ∀ a, Took (taken? a.toList) (violation a.toList) (next a.toList) (step a)) :
    ActsOn (.asserted (reply <$> step))
      (.work fun xs => (.asserted (violation xs) ((taken? xs).map reply), next xs)) := by
  apply Effect.inStep_work
  rintro a _ rfl
  have htook := h a
  dsimp only
  generalize hresult : step a = result at htook
  cases htook with
  | some htaken hleft =>
      rw [map_of_ok hresult, htaken]
      exact Or.inl ⟨.returned rfl, hleft⟩
  | none htaken hleft =>
      rw [map_of_error hresult, htaken]
      exact Or.inl ⟨.violated _, hleft⟩

theorem actsOn_checked {step : EStateM ArrayError (DynArray α) β}
    {taken? : List α → Option β} {error : List α → ArrayError} {next : List α → List α}
    (h : ∀ a, Took (taken? a.toList) (error a.toList) (next a.toList) (step a)) :
    ActsOn (.refusable ((reply <$> step).adaptExcept .array))
      (.work fun xs => (.checked (.array (error xs)) ((taken? xs).map reply), next xs)) := by
  apply Effect.inStep_work
  rintro a _ rfl
  have htook := h a
  dsimp only [EStateM.adaptExcept]
  generalize hresult : step a = result at htook
  cases htook with
  | some htaken hleft =>
      rw [map_of_ok hresult, htaken]
      exact Or.inl ⟨.accepted rfl, hleft⟩
  | none htaken hleft =>
      rw [map_of_error hresult, htaken]
      exact Or.inl ⟨.refused _, hleft⟩

theorem actsOn_attempt {step : EStateM ArrayError (DynArray α) Unit} {next : List α → List α}
    (h : ∀ a, Attempt ArrayError.IsShortage a (fun b => b.toList = next a.toList) (step a)) :
    ActsOn (.refusable ((Reply.silently step).adaptExcept .array))
      (.work fun xs => (.accepted .nothing, next xs)) := by
  apply Effect.inStep_work
  rintro a _ rfl
  have hattempt := h a
  dsimp only [EStateM.adaptExcept, Reply.silently]
  generalize hresult : step a = result at hattempt
  cases hattempt with
  | done hleft =>
      rw [map_of_ok hresult]
      exact Or.inl ⟨.accepted rfl, hleft⟩
  | short hshort =>
      rw [map_of_error hresult]
      exact Or.inr ⟨hshort, rfl⟩

theorem actsOn_insert (memory : Allocator) (i : Nat) (v : α) :
    ActsOn (.failing (Reply.silently (insert memory i v))) (.work fun xs =>
      if i ≤ xs.length then (.accepted .nothing, xs.insertIdx i v)
      else (.violated (.insertion i xs.length), xs)) := by
  apply Effect.inStep_work
  rintro a _ rfl
  dsimp only [Reply.silently]
  by_cases hi : i ≤ a.toList.length
  · have hattempt := insert_attempt memory v hi
    generalize hresult : insert memory i v a = result at hattempt
    cases hattempt with
    | done hwide =>
        rw [map_of_ok hresult, if_pos hi]
        exact Or.inl ⟨.accepted rfl, hwide.toList_eq⟩
    | @short failure hshort =>
        rw [map_of_error hresult]
        cases failure with
        | refused error => exact Or.inr ⟨hshort, rfl⟩
        | violated violation => exact hshort.elim
  · have hresult : insert memory i v a =
        .error (.violated (.insertion i a.toList.length)) a := by
      rw [insert, size_eq_length, if_pos (Nat.lt_of_not_le hi)]
    rw [map_of_error hresult, if_neg hi]
    exact Or.inl ⟨.violated _, rfl⟩

theorem actsOn_append (memory : Allocator) :
    ActsOn (α := α) (.jointRefusable ((Reply.silently (append memory)).adaptExcept .array))
      (.joint fun (xs, ys) => (.accepted .nothing, (xs ++ ys, []))) := by
  apply Effect.inStep_joint
  rintro a b _ _ rfl rfl
  dsimp only [EStateM.adaptExcept, Reply.silently]
  have hextend := extendBy_attempt memory b.store a
  generalize hresult : extendBy memory b.store a = result at hextend
  cases hextend with
  | @done c hwide =>
      have happend : append memory (a, b) = .ok () (c, { b with store := Storage.ofList [] }) := by
        simp [append, hresult]
      rw [map_of_ok happend]
      exact Or.inl ⟨.accepted rfl, hwide.toList_eq, Storage.toList_ofList []⟩
  | @short error hshort =>
      have happend : append memory (a, b) = .error error (a, b) := by
        simp [append, hresult]
      rw [map_of_error happend]
      exact Or.inr ⟨hshort, rfl⟩

end ActsOn

theorem Command.actsOn (memory : Allocator) (command : Command α) :
    ActsOn (command.effect memory) command.onLists := by
  cases command with
  | new => exact actsOn_make (made_ofPolicy memory .standard)
  | ofParameters parameters =>
      simp only [Command.effect, Command.onLists, DynArray.ofParameters]
      cases Policy.ofParameters parameters with
      | ok policy => exact actsOn_make (made_ofPolicy memory policy)
      | error fault =>
          apply Effect.inStep_make rfl
          · intro a ha
            contradiction
          · intro error herror
            exact Or.inl (congrArg Except.error (Except.error.inj herror))
  | ofList xs => exact actsOn_make (made_ofList memory xs)
  | ofBlock xs => exact actsOn_make (made_ofBlock memory xs)
  | clone => exact actsOn_clone memory
  | get i =>
      apply actsOn_lookAsserted
      intro a
      rw [DynArray.get, get?_eq_getElem?, size_eq_length]
      cases a.toList[i]? <;> rfl
  | getChecked i =>
      apply actsOn_lookChecked
      intro a
      rw [DynArray.getChecked, get?_eq_getElem?, size_eq_length]
      cases a.toList[i]? <;> rfl
  | front =>
      apply actsOn_lookAsserted
      intro a
      rw [DynArray.front, front?_eq_head?]
      cases a.toList.head? <;> rfl
  | back =>
      apply actsOn_lookAsserted
      intro a
      rw [DynArray.back, back?_eq_getLast?]
      cases a.toList.getLast? <;> rfl
  | front? => exact actsOn_look fun a => congrArg Reply.optional a.front?_eq_head?
  | back? => exact actsOn_look fun a => congrArg Reply.optional a.back?_eq_getLast?
  | set i v => exact actsOn_asserted (took_set i v)
  | setChecked i v => exact actsOn_checked (took_setChecked i v)
  | setFront? v =>
      exact actsOn_total (fun a => (set?_fst 0 v a).trans List.head?_eq_getElem?.symm)
        (toList_set? 0 v)
  | setBack? v => exact actsOn_total (setBack?_fst v) (toList_setBack? v)
  | rewrite f =>
      apply Effect.inStep_work
      rintro a _ rfl
      exact Or.inl ⟨.returned rfl, toList_rewrite f a⟩
  | reserve capacity =>
      exact actsOn_attempt fun a => (reserve_attempt memory capacity a).mono fun b hb =>
        hb.1.toList_eq
  | pushBack v =>
      exact actsOn_attempt fun a => (pushBack_attempt memory v a).mono fun b hb => hb.toList_eq
  | pushFront v =>
      exact actsOn_attempt fun a => (insertAt_attempt memory 0 v a).mono fun b hb =>
        hb.toList_eq.trans List.insertIdx_zero
  | insert i v => exact actsOn_insert memory i v
  | extendBy more =>
      exact actsOn_attempt fun a => (extendBy_attempt memory more a).mono fun b hb =>
        hb.toList_eq
  | append => exact actsOn_append memory
  | popBack => exact actsOn_asserted took_popBack
  | popFront => exact actsOn_asserted took_popFront
  | popBack? => exact actsOn_total popBack?_fst fun a => (popBack?_narrowed a).toList_eq
  | popFront? => exact actsOn_total popFront?_fst fun a => (popFront?_narrowed a).toList_eq
  | remove i => exact actsOn_asserted (took_remove i)
  | removeChecked i => exact actsOn_checked (took_removeChecked i)
  | erase i =>
      have herase : ActsOn (α := α) (.asserted (Reply.silently (DynArray.erase i))) (.work fun xs =>
          (.asserted (.index i xs.length) ((xs[i]?.map fun _ => ()).map fun _ => .nothing),
            xs.eraseIdx i)) :=
        actsOn_asserted (took_erase i)
      simp only [Option.map_map] at herase
      exact herase
  | clear =>
      apply Effect.inStep_work
      rintro a _ rfl
      exact Or.inl ⟨.returned rfl, toList_clear a⟩
  | drain =>
      apply Effect.inStep_work
      rintro a _ rfl
      exact Or.inl ⟨.returned rfl, toList_clear a⟩
  | exchange =>
      apply Effect.inStep_joint
      rintro a b _ _ rfl rfl
      exact Or.inl ⟨.returned rfl, rfl, rfl⟩

/-! ### Without shortage -/

/-- A construction that does not lack memory takes place. -/
theorem step_of_made {Done : DynArray α → Prop} {result : Except ArrayError (DynArray α)}
    {reply : Reply α} {here other : Option (DynArray α)} (h : Made Done result)
    (hmemory : ¬ (Workspace.step here other
      (.make (result.mapError .array) reply)).1.IsShortage) :
    ∃ a, result = .ok a ∧ Workspace.step here other (.make (result.mapError .array) reply) =
      (.accepted reply, some a, other) := by
  cases h with
  | @ok a _ => exact ⟨a, rfl, rfl⟩
  | short hshort => exact absurd hshort hmemory

/-- An attempt that does not lack memory takes place. -/
theorem step_of_attempt {Done : DynArray α → Prop} {step : EStateM ArrayError (DynArray α) Unit}
    {a : DynArray α} {other : Option (DynArray α)}
    (h : Attempt ArrayError.IsShortage a Done (step a))
    (hmemory : ¬ (Workspace.step (some a) other
      (.refusable ((Reply.silently (α := α) step).adaptExcept .array))).1.IsShortage) :
    ∃ b, step a = .ok () b ∧ Workspace.step (some a) other
      (.refusable ((Reply.silently (α := α) step).adaptExcept .array)) =
        (.accepted .nothing, some b, other) := by
  generalize hresult : step a = result at h
  cases h with
  | @done b _ => exact ⟨b, rfl, Workspace.step_refusable_ok _ _ other hresult⟩
  | short hshort =>
      refine absurd ?_ hmemory
      rw [Reply.silently, Workspace.step_refusable_error _ _ other hresult]
      exact hshort

theorem step_clone {memory : Allocator} {a : DynArray α} {other : Option (DynArray α)}
    (hmemory : ¬ (Workspace.step (some a) other
      (Command.effect memory (.clone : Command α))).1.IsShortage) :
    ∃ b, clone memory a = .ok b ∧ Workspace.step (some a) other
      (Command.effect memory (.clone : Command α)) = (.accepted .nothing, some a, some b) := by
  have hmade := made_clone memory a
  generalize hresult : clone memory a = result at hmade
  cases hmade with
  | @ok b _ =>
      refine ⟨b, rfl, ?_⟩
      simp [Workspace.step, Command.effect, hresult, Except.mapError]
  | short hshort =>
      refine absurd ?_ hmemory
      simp only [Workspace.step, Command.effect, hresult]
      exact hshort

theorem step_append {memory : Allocator} {a b : DynArray α}
    (hmemory : ¬ (Workspace.step (some a) (some b)
      (Command.effect memory (.append : Command α))).1.IsShortage) :
    ∃ c, extendBy memory b.store a = .ok () c ∧ Workspace.step (some a) (some b)
      (Command.effect memory (.append : Command α)) =
        (.accepted .nothing, some c, some b.clear) := by
  have hextend := extendBy_attempt memory b.store a
  generalize hresult : extendBy memory b.store a = result at hextend
  cases hextend with
  | @done c _ =>
      have happend : append memory (a, b) = .ok () (c, b.clear) := by
        simp [append, hresult, clear]
      refine ⟨c, rfl, ?_⟩
      simp [Workspace.step, Command.effect, Effect.jointRefusable, Reply.silently,
        EStateM.adaptExcept, map_of_ok happend]
  | @short error hshort =>
      have happend : append memory (a, b) = .error error (a, b) := by
        simp [append, hresult]
      refine absurd ?_ hmemory
      simp only [Workspace.step, Command.effect, Effect.jointRefusable, Reply.silently,
        EStateM.adaptExcept, map_of_error happend]
      exact hshort

/-! ### Runs -/

theorem rel_toList_iff {here : Option (DynArray α)} {here' : Option (List α)} :
    Option.Rel (fun a xs => a.toList = xs) here here' ↔ here.map toList = here' := by
  constructor
  · rintro (⟨rfl⟩ | _)
    · rfl
    · rfl
  · rintro rfl
    cases here with
    | none => exact .none
    | some a => exact .some rfl

/-- A run that never lacks memory ends, step by step, as it does on the plain lists of the
elements, and leaves their elements. -/
theorem run_onLists {w : Workspace (DynArray α)}
    {operations : List (Place × Allocator × Command α)}
    (hmemory : ∀ outcome ∈ (w.runEach Command.effect operations).1, ¬ outcome.IsShortage) :
    let commands := operations.map fun operation => (operation.1, operation.2.2)
    (w.runEach Command.effect operations).1 = (Command.runOnLists (w.map toList) commands).1 ∧
      (w.runEach Command.effect operations).2.map toList =
        (Command.runOnLists (w.map toList) commands).2 := by
  intro commands
  have hw : Workspace.Alike (fun a xs => a.toList = xs) w (w.map toList) :=
    ⟨rel_toList_iff.mpr rfl, rel_toList_iff.mpr rfl⟩
  have hsteps : List.Forall₂ (fun operation operation' => operation.1 = operation'.1 ∧
      operation.2.InStep Eq (fun a xs => a.toList = xs) Outcome.IsShortage operation'.2)
      (operations.map fun operation =>
        (operation.1, Command.effect operation.2.1 operation.2.2))
      (commands.map fun command => (command.1, command.2.onLists)) := by
    rw [List.map_map, List.forall₂_map_left_iff, List.forall₂_map_right_iff, List.forall₂_same]
    exact fun operation _ => ⟨rfl, operation.2.2.actsOn operation.2.1⟩
  obtain ⟨houtcomes, hleft⟩ := Workspace.run_inStep hsteps hw hmemory
  constructor
  · exact List.forall₂_eq_eq_eq ▸ houtcomes.imp fun _ _ h => h.eq
  · exact congrArg₂ Workspace.mk (rel_toList_iff.mp hleft.first)
      (rel_toList_iff.mp hleft.second)

end DynArray

end Containers
