/-
Copies that behave as what they are copies of.  Arrays with the same elements, the same
policy and the same capacity show the same and change alike under all operations that find
memory, and their counts of reallocations stay as far apart as they are.
-/
import Containers.Proofs.Contents
import Containers.Proofs.Gauge

namespace Containers

namespace DynArray

variable {α : Type} [Element α]

/-! ### Twins -/

/-- The arrays differ only in how often they were reallocated, the first one `apart` times
more often than the second. -/
structure Twin (apart : Int) (a b : DynArray α) : Prop where
  toList_eq : a.toList = b.toList
  policy_eq : a.policy = b.policy
  capacity_eq : a.capacity = b.capacity
  counts : (a.reallocations : Int) = b.reallocations + apart

section

variable {apart : Int} {memory memory' : Allocator} {a b c d : DynArray α}

theorem twin_self (a : DynArray α) : Twin 0 a a := ⟨rfl, rfl, rfl, (Int.add_zero _).symm⟩

theorem Twin.symm (h : Twin apart a b) : Twin (-apart) b a where
  toList_eq := h.toList_eq.symm
  policy_eq := h.policy_eq.symm
  capacity_eq := h.capacity_eq.symm
  counts := by
    have hcounts := h.counts
    omega

theorem Twin.size_eq (h : Twin apart a b) : a.size = b.size := by
  rw [size_eq_length, size_eq_length, h.toList_eq]

theorem Twin.withCapacity (h : Twin apart a b) (capacity : Nat) :
    Twin apart (a.withCapacity capacity) (b.withCapacity capacity) where
  toList_eq := h.toList_eq
  policy_eq := h.policy_eq
  capacity_eq := rfl
  counts := by
    have hcounts := h.counts
    simp only [DynArray.withCapacity, Int.natCast_succ]
    omega

theorem Twin.refill (h : Twin apart a b) {store store' : Element.Store α}
    (hlist : Storage.toList store = Storage.toList store') :
    Twin apart { a with store := store } { b with store := store' } :=
  { h with toList_eq := hlist }

theorem Twin.append (h : Twin apart a b) {store store' : Element.Store α}
    (hlist : Storage.toList store = Storage.toList store') :
    Twin apart { a with store := Storage.append a.store store }
      { b with store := Storage.append b.store store' } := by
  refine h.refill ?_
  rw [Storage.toList_append, Storage.toList_append, hlist]
  exact congrArg (· ++ Storage.toList store') h.toList_eq

theorem Twin.clear (h : Twin apart a b) : Twin apart a.clear b.clear := h.refill rfl

/-- Operations on single elements that leave the same elements move twins alike. -/
theorem Twin.moved (h : Twin apart a b) (hac : Moved a c) (hbd : Moved b d)
    (hlist : c.toList = d.toList) : Twin apart c d := by
  obtain ⟨htoList, hpolicy, hcapacity, hcounts⟩ := h
  have hnext : c.capacity = d.capacity := hac.capacity_eq hbd hpolicy
    (congrArg List.length htoList) hcapacity (congrArg List.length hlist)
  refine ⟨hlist, hac.policy_eq.trans (hpolicy.trans hbd.policy_eq.symm), hnext, ?_⟩
  have hc := hac.counted
  have hd := hbd.counted
  rw [hnext, hcapacity] at hc
  omega

/-! ### Room for many elements -/

theorem Twin.reserve (h : Twin apart a b) {capacity : Nat}
    (hc : DynArray.reserve memory capacity a = .ok () c)
    (hd : DynArray.reserve memory' capacity b = .ok () d) : Twin apart c d := by
  rw [DynArray.reserve, h.capacity_eq] at hc
  rw [DynArray.reserve] at hd
  by_cases hless : b.capacity < capacity
  · rw [if_pos hless] at hc hd
    rw [reallocate_eq_ok hc, reallocate_eq_ok hd]
    exact h.withCapacity capacity
  · rw [if_neg hless] at hc hd
    obtain rfl := (EStateM.Result.ok.inj hc).2
    obtain rfl := (EStateM.Result.ok.inj hd).2
    exact h

/-- The path of capacities is climbed from the same place to the same place. -/
theorem Twin.reserveFor (h : Twin apart a b) {additional : Nat}
    (hc : DynArray.reserveFor memory additional a = .ok () c)
    (hd : DynArray.reserveFor memory' additional b = .ok () d) : Twin apart c d := by
  rw [DynArray.reserveFor, h.size_eq, h.policy_eq, h.capacity_eq] at hc
  rw [DynArray.reserveFor] at hd
  cases hsum : sizeSum? b.size additional with
  | none =>
      rw [hsum] at hc
      contradiction
  | some required =>
      simp only [hsum] at hc hd
      by_cases hroom : required ≤ b.capacity
      · rw [if_pos hroom] at hc hd
        obtain rfl := (EStateM.Result.ok.inj hc).2
        obtain rfl := (EStateM.Result.ok.inj hd).2
        exact h
      · rw [if_neg hroom] at hc hd
        cases hclimb : b.policy.climb? required b.capacity with
        | none =>
            rw [hclimb] at hc
            contradiction
        | some target =>
            simp only [hclimb] at hc hd
            rw [reallocate_eq_ok hc, reallocate_eq_ok hd]
            exact h.withCapacity target

theorem extendBy_eq_ok {more : Element.Store α} (h : extendBy memory more a = .ok () c) :
    ∃ roomy, DynArray.reserveFor memory (Storage.size more) a = .ok () roomy ∧
      c = { roomy with store := Storage.append roomy.store more } := by
  rw [extendBy] at h
  split at h
  · rename_i roomy hroomy
    exact ⟨roomy, hroomy, (EStateM.Result.ok.inj h).2.symm⟩
  · contradiction

theorem Twin.extendBy (h : Twin apart a b) {more more' : Element.Store α}
    (hmore : Storage.toList more = Storage.toList more')
    (hc : DynArray.extendBy memory more a = .ok () c)
    (hd : DynArray.extendBy memory' more' b = .ok () d) : Twin apart c d := by
  obtain ⟨roomy, hroomy, rfl⟩ := extendBy_eq_ok hc
  obtain ⟨roomy', hroomy', rfl⟩ := extendBy_eq_ok hd
  rw [Storage.size_eq_length, hmore, ← Storage.size_eq_length] at hroomy
  exact (h.reserveFor hroomy hroomy').append hmore

/-! ### New arrays -/

theorem twin_ofPolicy {policy : Policy} (hc : ofPolicy memory policy = .ok c)
    (hd : ofPolicy memory' policy = .ok d) : Twin 0 c d := by
  rw [reallocate_eq_ok (built_eq_ok hc), reallocate_eq_ok (built_eq_ok hd)]
  exact twin_self _

theorem Twin.pushed (h : Twin apart a b) {xs : List α} (hc : Pushed a xs c)
    (hd : Pushed b xs d) : Twin apart c d := by
  induction hc generalizing b with
  | nil a =>
      cases hd with
      | nil => exact h
  | @cons memory v vs a a' _ hpush _ ih =>
      cases hd with
      | @cons memory' _ _ _ b' _ hpush' hrest' =>
          refine ih (h.moved ?_ ?_ ?_) hrest'
          · simpa [hpush] using pushBack_moved memory v a
          · simpa [hpush'] using pushBack_moved memory' v b
          · rw [((pushBack_attempt memory v a).of_ok hpush).toList_eq,
              ((pushBack_attempt memory' v b).of_ok hpush').toList_eq, h.toList_eq]

theorem twin_ofList {xs : List α} (hc : ofList memory xs = .ok c)
    (hd : ofList memory' xs = .ok d) : Twin 0 c d := by
  obtain ⟨empty, hempty, hpushed⟩ := bind_eq_ok hc
  obtain ⟨empty', hempty', hpushed'⟩ := bind_eq_ok hd
  exact (twin_ofPolicy hempty hempty').pushed (pushed_of_pushBackAll (built_eq_ok hpushed))
    (pushed_of_pushBackAll (built_eq_ok hpushed'))

theorem twin_ofBlock {xs : List α} (hc : ofBlock memory xs = .ok c)
    (hd : ofBlock memory' xs = .ok d) : Twin 0 c d := by
  obtain ⟨empty, hempty, hfilled⟩ := bind_eq_ok hc
  obtain ⟨empty', hempty', hfilled'⟩ := bind_eq_ok hd
  exact (twin_ofPolicy hempty hempty').extendBy rfl (built_eq_ok hfilled) (built_eq_ok hfilled')

/-- Copies count from the beginning, however far apart the arrays were. -/
theorem Twin.clone (h : Twin apart a b) (hc : DynArray.clone memory a = .ok c)
    (hd : DynArray.clone memory' b = .ok d) : Twin 0 c d := by
  obtain ⟨empty, roomy, hempty, hroomy, rfl⟩ := clone_eq_ok hc
  obtain ⟨empty', roomy', hempty', hroomy', rfl⟩ := clone_eq_ok hd
  rw [h.policy_eq] at hempty
  rw [h.capacity_eq] at hroomy
  exact ((twin_ofPolicy hempty hempty').reserve hroomy hroomy').append h.toList_eq

end

/-! ### Steps -/

/-- Twins in both places, or vacant ones. -/
structure Paired (apart : Int × Int) (left right : Option (DynArray α) × Option (DynArray α)) :
    Prop where
  here : Option.Rel (Twin apart.1) left.1 right.1
  other : Option.Rel (Twin apart.2) left.2 right.2

/-- Neither makes, copies nor exchanges arrays. -/
def Command.Stays : Command α → Prop
  | new | ofParameters _ | ofList _ | ofBlock _ | clone | exchange => False
  | _ => True

/-- How far apart the counts are, here and in the other place, after an operation that took
place.  New arrays count alike, arrays that are exchanged take the difference along, and
all other operations keep it. -/
def Command.carry (apart : Int × Int) : Command α → Int × Int
  | new | ofParameters _ | ofList _ | ofBlock _ => (0, apart.2)
  | clone => (apart.1, 0)
  | exchange => apart.swap
  | _ => apart

/-- How far apart the counts are after an operation that ended in this way. -/
def Command.carryIf (command : Command α) (apart : Int × Int) : Outcome (Reply α) → Int × Int
  | .returned _ | .accepted _ => command.carry apart
  | _ => apart

theorem Command.carryIf_of_stays {command : Command α} (h : command.Stays) (apart : Int × Int)
    (outcome : Outcome (Reply α)) : command.carryIf apart outcome = apart := by
  have hcarry : command.carry apart = apart := by
    cases command <;> first | contradiction | rfl
  cases outcome <;> simp only [carryIf, hcarry]

theorem rel_twin_map {apart : Int} {here here' : Option (DynArray α)}
    (h : Option.Rel (Twin apart) here here') : here.map toList = here'.map toList := by
  cases h with
  | none => rfl
  | some h => exact congrArg some h.toList_eq

/-- Without shortage, an operation shows and leaves what it does on plain lists. -/
theorem Command.step_onLists {memory : Allocator} {command : Command α}
    {here other : Option (DynArray α)}
    (hmemory : ¬ (Workspace.step here other (command.effect memory)).1.IsShortage) :
    let plain := Workspace.step (here.map toList) (other.map toList) command.onLists
    (Workspace.step here other (command.effect memory)).1 = plain.1 ∧
      (Workspace.step here other (command.effect memory)).2.1.map toList = plain.2.1 ∧
      (Workspace.step here other (command.effect memory)).2.2.map toList = plain.2.2 := by
  rcases command.actsOn memory here other _ _ (rel_toList_iff.mpr rfl)
    (rel_toList_iff.mpr rfl) with htogether | ⟨hshort, -⟩
  · exact ⟨htogether.outcome.eq, rel_toList_iff.mp htogether.here,
      rel_toList_iff.mp htogether.other⟩
  · exact absurd hshort hmemory

section

variable {memory memory' : Allocator} {command : Command α} {apart : Int × Int}
  {here other here' other' : Option (DynArray α)}

/-- What an operation shows of twins, and the elements it leaves. -/
theorem Paired.alike (h : Paired apart (here, other) (here', other'))
    (hmemory : ¬ (Workspace.step here other (command.effect memory)).1.IsShortage)
    (hmemory' : ¬ (Workspace.step here' other' (command.effect memory')).1.IsShortage) :
    (Workspace.step here other (command.effect memory)).1 =
        (Workspace.step here' other' (command.effect memory')).1 ∧
      (Workspace.step here other (command.effect memory)).2.1.map toList =
        (Workspace.step here' other' (command.effect memory')).2.1.map toList := by
  obtain ⟨houtcome, hhere, -⟩ := Command.step_onLists hmemory
  obtain ⟨houtcome', hhere', -⟩ := Command.step_onLists hmemory'
  rw [rel_twin_map h.here, rel_twin_map h.other] at houtcome hhere
  exact ⟨houtcome.trans houtcome'.symm, hhere.trans hhere'.symm⟩

/-- Constructions from the same elements make twins. -/
theorem Paired.made {Done Done' : DynArray α → Prop} {reply : Reply α}
    {result result' : Except ArrayError (DynArray α)}
    (h : Paired apart (here, other) (here', other'))
    (hmade : Made Done result) (hmade' : Made Done' result')
    (htwins : ∀ c d, result = .ok c → result' = .ok d → Twin 0 c d)
    (hmemory : ¬ (Workspace.step here other
      (.make (result.mapError .array) reply)).1.IsShortage)
    (hmemory' : ¬ (Workspace.step here' other'
      (.make (result'.mapError .array) reply)).1.IsShortage) :
    (Workspace.step here other (.make (result.mapError .array) reply)).1 = .accepted reply ∧
      Paired (0, apart.2) (Workspace.step here other (.make (result.mapError .array) reply)).2
        (Workspace.step here' other' (.make (result'.mapError .array) reply)).2 := by
  obtain ⟨c, hc, hstep⟩ := step_of_made hmade hmemory
  obtain ⟨d, hd, hstep'⟩ := step_of_made hmade' hmemory'
  rw [hstep, hstep']
  exact ⟨rfl, .some (htwins c d hc hd), h.other⟩

/-- Operations on single elements keep twins. -/
theorem Paired.single (h : Paired apart (here, other) (here', other'))
    (hsingle : command.IsSingle)
    (hmemory : ¬ (Workspace.step here other (command.effect memory)).1.IsShortage)
    (hmemory' : ¬ (Workspace.step here' other' (command.effect memory')).1.IsShortage) :
    Paired apart (Workspace.step here other (command.effect memory)).2
      (Workspace.step here' other' (command.effect memory')).2 := by
  -- The elements are known from plain lists, and they decide the capacities.
  have hlist := (h.alike hmemory hmemory').2
  rw [Workspace.step_of_isWork (Command.isWork hsingle memory),
    Workspace.step_of_isWork (Command.isWork hsingle memory')] at hlist ⊢
  obtain ⟨hhere, hother⟩ := h
  refine ⟨?_, hother⟩
  cases hhere with
  | none => exact .none
  | @some a b hab =>
      exact .some (hab.moved (Command.moved hsingle memory a) (Command.moved hsingle memory' b)
        (Option.some.inj hlist))

/-- Attempts that take twins to twins keep them. -/
theorem Paired.attempted {Done Done' : DynArray α → DynArray α → Prop}
    {step step' : EStateM ArrayError (DynArray α) Unit}
    (h : Paired apart (here, other) (here', other'))
    (hstep : ∀ a, Attempt ArrayError.IsShortage a (Done a) (step a))
    (hstep' : ∀ a, Attempt ArrayError.IsShortage a (Done' a) (step' a))
    (htwins : ∀ {a b c d}, Twin apart.1 a b → step a = .ok () c → step' b = .ok () d →
      Twin apart.1 c d)
    (hmemory : ¬ (Workspace.step here other
      (.refusable ((Reply.silently (α := α) step).adaptExcept .array))).1.IsShortage)
    (hmemory' : ¬ (Workspace.step here' other'
      (.refusable ((Reply.silently (α := α) step').adaptExcept .array))).1.IsShortage) :
    Paired apart
      (Workspace.step here other
        (.refusable ((Reply.silently (α := α) step).adaptExcept .array))).2
      (Workspace.step here' other'
        (.refusable ((Reply.silently (α := α) step').adaptExcept .array))).2 := by
  obtain ⟨hhere, hother⟩ := h
  cases hhere with
  | none => exact ⟨.none, hother⟩
  | @some a b hab =>
      obtain ⟨c, hc, hleft⟩ := step_of_attempt (hstep a) hmemory
      obtain ⟨d, hd, hright⟩ := step_of_attempt (hstep' b) hmemory'
      rw [hleft, hright]
      exact ⟨.some (htwins hab hc hd), hother⟩

/-- The array that is emptied keeps its numbers. -/
theorem Paired.append (h : Paired apart (here, other) (here', other'))
    (hmemory : ¬ (Workspace.step here other
      (Command.effect memory (.append : Command α))).1.IsShortage)
    (hmemory' : ¬ (Workspace.step here' other'
      (Command.effect memory' (.append : Command α))).1.IsShortage) :
    Paired apart (Workspace.step here other (Command.effect memory (.append : Command α))).2
      (Workspace.step here' other' (Command.effect memory' (.append : Command α))).2 := by
  obtain ⟨hhere, hother⟩ := h
  cases hhere with
  | none => exact ⟨.none, hother⟩
  | some hab =>
      cases hother with
      | none => exact ⟨.some hab, .none⟩
      | some hcd =>
          obtain ⟨_, hextended, hleft⟩ := step_append hmemory
          obtain ⟨_, hextended', hright⟩ := step_append hmemory'
          rw [hleft, hright]
          exact ⟨.some (hab.extendBy hcd.toList_eq hextended hextended'), .some hcd.clear⟩

theorem Paired.clone (h : Paired apart (here, other) (here', other'))
    (hmemory : ¬ (Workspace.step here other
      (Command.effect memory (.clone : Command α))).1.IsShortage)
    (hmemory' : ¬ (Workspace.step here' other'
      (Command.effect memory' (.clone : Command α))).1.IsShortage) :
    Paired (Command.clone.carryIf apart
        (Workspace.step here other (Command.effect memory (.clone : Command α))).1)
      (Workspace.step here other (Command.effect memory (.clone : Command α))).2
      (Workspace.step here' other' (Command.effect memory' (.clone : Command α))).2 := by
  obtain ⟨hhere, hother⟩ := h
  cases hhere with
  | none => exact ⟨.none, hother⟩
  | some hab =>
      obtain ⟨_, hcopy, hleft⟩ := step_clone hmemory
      obtain ⟨_, hcopy', hright⟩ := step_clone hmemory'
      rw [hleft, hright]
      exact ⟨.some hab, .some (hab.clone hcopy hcopy')⟩

/-- Where the parameters have a fault, nothing is made. -/
theorem Paired.ofParameters (h : Paired apart (here, other) (here', other'))
    {parameters : Policy.Parameters}
    (hmemory : ¬ (Workspace.step here other
      (Command.effect memory (.ofParameters parameters : Command α))).1.IsShortage)
    (hmemory' : ¬ (Workspace.step here' other'
      (Command.effect memory' (.ofParameters parameters : Command α))).1.IsShortage) :
    Paired ((Command.ofParameters parameters).carryIf apart (Workspace.step here other
        (Command.effect memory (.ofParameters parameters : Command α))).1)
      (Workspace.step here other
        (Command.effect memory (.ofParameters parameters : Command α))).2
      (Workspace.step here' other'
        (Command.effect memory' (.ofParameters parameters : Command α))).2 := by
  simp only [Command.effect, DynArray.ofParameters] at hmemory hmemory' ⊢
  cases hpolicy : Policy.ofParameters parameters with
  | error fault => exact h
  | ok policy =>
      rw [hpolicy] at hmemory hmemory'
      obtain ⟨houtcome, hpaired⟩ := h.made (made_ofPolicy memory policy)
        (made_ofPolicy memory' policy) (fun _ _ => twin_ofPolicy) hmemory hmemory'
      rw [houtcome]
      exact hpaired

/-- Operations that keep each array in its place keep twins. -/
theorem Paired.stays (h : Paired apart (here, other) (here', other'))
    (hstays : command.Stays)
    (hmemory : ¬ (Workspace.step here other (command.effect memory)).1.IsShortage)
    (hmemory' : ¬ (Workspace.step here' other' (command.effect memory')).1.IsShortage) :
    Paired apart (Workspace.step here other (command.effect memory)).2
      (Workspace.step here' other' (command.effect memory')).2 := by
  by_cases hsingle : command.IsSingle
  · exact h.single hsingle hmemory hmemory'
  cases command with
  | reserve capacity =>
      exact h.attempted (reserve_attempt memory capacity) (reserve_attempt memory' capacity)
        (fun hab => hab.reserve) hmemory hmemory'
  | extendBy more =>
      exact h.attempted (extendBy_attempt memory more) (extendBy_attempt memory' more)
        (fun hab => hab.extendBy rfl) hmemory hmemory'
  | append => exact h.append hmemory hmemory'
  | clear | drain =>
      obtain ⟨hhere, hother⟩ := h
      cases hhere with
      | none => exact ⟨.none, hother⟩
      | some hab => exact ⟨.some hab.clear, hother⟩
  | new | ofParameters | ofList | ofBlock | clone | exchange => contradiction
  | _ => exact absurd trivial hsingle

/-- What one operation does to twins. -/
theorem Paired.step (h : Paired apart (here, other) (here', other'))
    (hmemory : ¬ (Workspace.step here other (command.effect memory)).1.IsShortage)
    (hmemory' : ¬ (Workspace.step here' other' (command.effect memory')).1.IsShortage) :
    Paired (command.carryIf apart (Workspace.step here other (command.effect memory)).1)
      (Workspace.step here other (command.effect memory)).2
      (Workspace.step here' other' (command.effect memory')).2 := by
  by_cases hstays : command.Stays
  · rw [Command.carryIf_of_stays hstays]
    exact h.stays hstays hmemory hmemory'
  cases command with
  | new =>
      obtain ⟨houtcome, hpaired⟩ := h.made (made_ofPolicy memory .standard)
        (made_ofPolicy memory' .standard) (fun _ _ => twin_ofPolicy) hmemory hmemory'
      rw [Command.effect, DynArray.new, houtcome]
      exact hpaired
  | ofParameters parameters => exact h.ofParameters hmemory hmemory'
  | ofList xs =>
      obtain ⟨houtcome, hpaired⟩ := h.made (made_ofList memory xs) (made_ofList memory' xs)
        (fun _ _ => twin_ofList) hmemory hmemory'
      rw [Command.effect, houtcome]
      exact hpaired
  | ofBlock xs =>
      obtain ⟨houtcome, hpaired⟩ := h.made (made_ofBlock memory xs) (made_ofBlock memory' xs)
        (fun _ _ => twin_ofBlock) hmemory hmemory'
      rw [Command.effect, houtcome]
      exact hpaired
  | clone => exact h.clone hmemory hmemory'
  | exchange =>
      obtain ⟨hhere, hother⟩ := h
      cases hhere with
      | none => exact ⟨.none, hother⟩
      | some hab =>
          cases hother with
          | none => exact ⟨.some hab, .none⟩
          | some hcd => exact ⟨.some hcd, .some hab⟩
  | _ => exact absurd trivial hstays

end

/-! ### Runs -/

/-- Twins in the same places, with counts that are so far apart. -/
def Twins (apart : Place → Int) (w w' : Workspace (DynArray α)) : Prop :=
  ∀ place, Option.Rel (Twin (apart place)) (w.get place) (w'.get place)

/-- What is far apart in a place and in the other one, as a function of the place. -/
def spread (place : Place) (apart : Int × Int) : Place → Int :=
  fun there => if there = place then apart.1 else apart.2

/-- How far apart the counts are in each place after operations that ended in these ways. -/
def carryAll (apart : Place → Int) :
    List (Place × Command α) → List (Outcome (Reply α)) → Place → Int
  | (place, command) :: rest, outcome :: outcomes =>
    let here := (apart place, apart place.opposite)
    carryAll (spread place (command.carryIf here outcome)) rest outcomes
  | _, _ => apart

/-- Operations that are applied to two workspaces, each time with memory of its own, as they
are applied to the first one. -/
def onFirst (operations : List (Place × (Allocator × Allocator) × Command α)) :
    List (Place × Allocator × Command α) :=
  operations.map fun operation => (operation.1, operation.2.1.1, operation.2.2)

/-- The same operations as they are applied to the second one. -/
def onSecond (operations : List (Place × (Allocator × Allocator) × Command α)) :
    List (Place × Allocator × Command α) :=
  operations.map fun operation => (operation.1, operation.2.1.2, operation.2.2)

theorem spread_self (place : Place) (apart : Place → Int) :
    spread place (apart place, apart place.opposite) = apart := by
  funext there
  cases place <;> cases there <;> rfl

/-- Operations that keep each array in its place keep how far apart the counts are. -/
theorem carryAll_of_stays {commands : List (Place × Command α)}
    (h : ∀ command ∈ commands, command.2.Stays) (apart : Place → Int)
    (outcomes : List (Outcome (Reply α))) : carryAll apart commands outcomes = apart := by
  induction commands generalizing outcomes with
  | nil => cases outcomes <;> rfl
  | cons command rest ih =>
      cases outcomes with
      | nil => rfl
      | cons outcome outcomes =>
          obtain ⟨hfirst, hrest⟩ := List.forall_mem_cons.mp h
          rw [carryAll, Command.carryIf_of_stays hfirst, spread_self]
          exact ih hrest outcomes

/-- Both places, seen from one of them. -/
theorem twins_spread {place : Place} {apart : Int × Int} {w w' : Workspace (DynArray α)}
    (h : Paired apart (w.get place, w.getOther place) (w'.get place, w'.getOther place)) :
    Twins (spread place apart) w w' := by
  intro there
  by_cases hplace : there = place
  · rw [spread, if_pos hplace, hplace]
    exact h.here
  · obtain rfl : there = place.opposite := by
      cases there <;> cases place <;> first | rfl | contradiction
    rw [spread, if_neg hplace, Workspace.get_opposite, Workspace.get_opposite]
    exact h.other

theorem Twins.paired {apart : Place → Int} {w w' : Workspace (DynArray α)}
    (h : Twins apart w w') (place : Place) :
    Paired (apart place, apart place.opposite) (w.get place, w.getOther place)
      (w'.get place, w'.getOther place) := by
  refine ⟨h place, ?_⟩
  rw [← Workspace.get_opposite, ← Workspace.get_opposite]
  exact h place.opposite

theorem Twins.perform {apart : Place → Int} {w w' : Workspace (DynArray α)}
    (h : Twins apart w w') (place : Place) {memory memory' : Allocator} {command : Command α}
    (hmemory : ¬ (w.perform place (command.effect memory)).1.IsShortage)
    (hmemory' : ¬ (w'.perform place (command.effect memory')).1.IsShortage) :
    (w.perform place (command.effect memory)).1 =
        (w'.perform place (command.effect memory')).1 ∧
      Twins (spread place (command.carryIf (apart place, apart place.opposite)
          (w.perform place (command.effect memory)).1))
        (w.perform place (command.effect memory)).2
        (w'.perform place (command.effect memory')).2 := by
  obtain ⟨houtcome, hhere, hother⟩ := w.perform_eq place (command.effect memory)
  obtain ⟨houtcome', hhere', hother'⟩ := w'.perform_eq place (command.effect memory')
  rw [houtcome] at hmemory ⊢
  rw [houtcome'] at hmemory' ⊢
  refine ⟨((h.paired place).alike hmemory hmemory').1, twins_spread ?_⟩
  rw [hhere, hother, hhere', hother']
  exact (h.paired place).step hmemory hmemory'

/-- Runs on twins that do not lack memory show the same and leave twins. -/
theorem Twins.run {apart : Place → Int} {w w' : Workspace (DynArray α)} (h : Twins apart w w')
    {operations : List (Place × (Allocator × Allocator) × Command α)}
    (hmemory : ∀ outcome ∈ (w.runEach Command.effect (onFirst operations)).1,
      ¬ outcome.IsShortage)
    (hmemory' : ∀ outcome ∈ (w'.runEach Command.effect (onSecond operations)).1,
      ¬ outcome.IsShortage) :
    (w.runEach Command.effect (onFirst operations)).1 =
        (w'.runEach Command.effect (onSecond operations)).1 ∧
      Twins (carryAll apart (operations.map fun operation => (operation.1, operation.2.2))
          (w.runEach Command.effect (onFirst operations)).1)
        (w.runEach Command.effect (onFirst operations)).2
        (w'.runEach Command.effect (onSecond operations)).2 := by
  -- The differences move with the arrays, so the induction is for all of them.
  induction operations generalizing apart w w' with
  | nil => exact ⟨rfl, h⟩
  | cons operation rest ih =>
      obtain ⟨place, ⟨memory, memory'⟩, command⟩ := operation
      obtain ⟨hfirst, hrest⟩ := Workspace.forall_runEach_cons.mp hmemory
      obtain ⟨hfirst', hrest'⟩ := Workspace.forall_runEach_cons.mp hmemory'
      obtain ⟨houtcome, hleft⟩ := h.perform place hfirst hfirst'
      obtain ⟨houtcomes, hend⟩ := ih hleft hrest hrest'
      exact ⟨congrArg₂ List.cons houtcome houtcomes, hend⟩

/-! ### Copies -/

/-- What a copy has in common with the array that it is a copy of, and how often it was
reallocated until it had as much room. -/
structure CopyOf (a b : DynArray α) : Prop where
  toList_eq : b.toList = a.toList
  capacity_eq : b.capacity = a.capacity
  policy_eq : b.policy = a.policy
  reallocations_eq : b.reallocations = if a.capacity = a.policy.minCapacity then 1 else 2

theorem CopyOf.twin {a b : DynArray α} (h : CopyOf a b) :
    Twin (a.reallocations - b.reallocations) a b where
  toList_eq := h.toList_eq.symm
  policy_eq := h.policy_eq.symm
  capacity_eq := h.capacity_eq.symm
  counts := by omega

/-- A copy starts at the minimum, which is no more than the capacity it comes to. -/
theorem copyOf_clone {memory : Allocator} {a b : DynArray α} (ha : a.Bounded)
    (h : clone memory a = .ok b) : CopyOf a b := by
  have hlist : b.toList = a.toList := by
    have hmade := made_clone memory a
    rw [h] at hmade
    cases hmade with
    | ok hlist => exact hlist
  obtain ⟨empty, roomy, hempty, hroomy, rfl⟩ := clone_eq_ok h
  obtain rfl := reallocate_eq_ok (built_eq_ok hempty)
  have hmin : a.policy.minCapacity ≤ a.capacity := ha.above_min
  -- There is a second reallocation only where the capacity is more than the minimum.
  rw [reserve] at hroomy
  split at hroomy
  · rename_i hless
    obtain rfl := reallocate_eq_ok hroomy
    have hne : a.capacity ≠ a.policy.minCapacity := Nat.ne_of_gt hless
    exact ⟨hlist, rfl, rfl, (if_neg hne).symm⟩
  · rename_i hroom
    obtain rfl := (EStateM.Result.ok.inj hroomy).2
    have heq : a.capacity = a.policy.minCapacity :=
      Nat.le_antisymm (Nat.le_of_not_lt hroom) hmin
    exact ⟨hlist, heq.symm, rfl, (if_pos heq).symm⟩

/-- A copy that is made of an array takes the other place and leaves the array as it is.  It
has the same elements in the same order, the same policy and the same capacity, and was
reallocated once, or twice if that is more than the minimum.  Whatever operations are then
applied to both of them, with arrays in the other places that are twins as well, show the
same and leave the same elements and capacities, as long as none lacks memory.  Their counts
stay as far apart as they are, except that new arrays count alike and that arrays which are
exchanged take the difference along. -/
theorem run_copies_behave_alike (operations : List (Place × Allocator × Command α))
    (place : Place) (a : DynArray α)
    (ha : a ∈ (Workspace.vacant.runEach Command.effect operations).2.get place)
    (memory : Allocator) :
    let cloned := (Workspace.vacant.runEach Command.effect operations).2.perform place
      (Command.effect memory .clone)
    cloned.1 = .accepted .nothing →
      cloned.2.get place = some a ∧
      ∃ b ∈ cloned.2.get place.opposite, CopyOf a b ∧
        ∀ (w w' : Workspace (DynArray α)) (here : Place) (apart : Int),
          w.get here = some a → w'.get here = some b →
          Option.Rel (Twin apart) (w.getOther here) (w'.getOther here) →
          ∀ later : List (Place × (Allocator × Allocator) × Command α),
            let left := w.runEach Command.effect (onFirst later)
            let right := w'.runEach Command.effect (onSecond later)
            (∀ outcome ∈ left.1, ¬ outcome.IsShortage) →
            (∀ outcome ∈ right.1, ¬ outcome.IsShortage) →
            left.1 = right.1 ∧
              Twins (carryAll (spread here (a.reallocations - b.reallocations, apart))
                  (later.map fun operation => (operation.1, operation.2.2)) left.1)
                left.2 right.2 ∧
              ((∀ operation ∈ later, operation.2.2.Stays) →
                Twins (spread here (a.reallocations - b.reallocations, apart))
                  left.2 right.2) := by
  intro cloned haccepted
  have hbounded : a.Bounded := Workspace.holds_runEach
    (fun operation _ => Command.keeps_bounded operation.2.1 operation.2.2) place a ha
  obtain ⟨houtcome, hhere, hother⟩ := Workspace.perform_eq
    (Workspace.vacant.runEach Command.effect operations).2 place
    (Command.effect memory (.clone : Command α))
  rw [Option.mem_def.mp ha] at houtcome hhere hother
  have hmemory : ¬ cloned.1.IsShortage := by
    rw [haccepted]
    exact id
  obtain ⟨b, hb, hstep⟩ := step_clone (houtcome ▸ hmemory)
  rw [hstep] at hhere hother
  rw [← Workspace.get_opposite] at hother
  have hcopy : CopyOf a b := copyOf_clone hbounded hb
  refine ⟨hhere, b, hother, hcopy, fun w w' here apart hw hw' hrel later hleft hright => ?_⟩
  have htwins : Twins (spread here (a.reallocations - b.reallocations, apart)) w w' := by
    apply twins_spread
    rw [hw, hw']
    exact ⟨.some hcopy.twin, hrel⟩
  obtain ⟨houtcomes, hend⟩ := htwins.run hleft hright
  refine ⟨houtcomes, hend, fun hstays => ?_⟩
  have hcommands : ∀ command ∈ later.map fun operation => (operation.1, operation.2.2),
      command.2.Stays := List.forall_mem_map.mpr hstays
  rw [carryAll_of_stays hcommands] at hend
  exact hend

namespace TwinsWitness

/-- Grow by one half, shrink at a quarter, never below two. -/
def byHalf : Policy.Parameters := ⟨⟨0x3ff8000000000000⟩, ⟨0x3fd0000000000000⟩, 2⟩

/-- An array that grows twice. -/
def operations : List (Place × Allocator × Command UInt8) :=
  [(.first, .addressSpace, .ofParameters byHalf), (.first, .addressSpace, .pushBack 1),
    (.first, .addressSpace, .pushBack 2), (.first, .addressSpace, .pushBack 3),
    (.first, .addressSpace, .pushBack 4)]

def cloned : Outcome (Reply UInt8) × Workspace (DynArray UInt8) :=
  (Workspace.vacant.runEach Command.effect operations).2.perform .first
    (Command.effect .addressSpace .clone)

/-- The array grows once more, gives an element away, and takes the place of the other one. -/
def later : List (Place × (Allocator × Allocator) × Command UInt8) :=
  [(.first, (.addressSpace, .upTo 8), .pushBack 9), (.first, (.addressSpace, .upTo 8), .pushBack 8),
    (.first, (.addressSpace, .upTo 0), .popFront?), (.first, (.upTo 0, .upTo 0), .exchange),
    (.second, (.upTo 0, .addressSpace), .pushBack 7)]

/-- The array and its copy, each of them with the other one in the other place. -/
def left : List (Outcome (Reply UInt8)) × Workspace (DynArray UInt8) :=
  cloned.2.runEach Command.effect (onFirst later)

def right : List (Outcome (Reply UInt8)) × Workspace (DynArray UInt8) :=
  (⟨cloned.2.second, cloned.2.first⟩ : Workspace (DynArray UInt8)).runEach Command.effect
    (onSecond later)

theorem run_copies_behave_alike_exchanged :
    ∃ a ∈ cloned.2.first, ∃ b ∈ cloned.2.second, CopyOf a b ∧
      a.capacity = 5 ∧ a.reallocations = 3 ∧ b.reallocations = 2 ∧
      left.1 = right.1 ∧ Twins (spread .first (-1, 1)) left.2 right.2 := by
  have hsome : (Workspace.vacant.runEach Command.effect operations).2.first.isSome = true := by
    decide +kernel
  obtain ⟨a, ha⟩ := Option.isSome_iff_exists.mp hsome
  have haccepted : cloned.1 = .accepted .nothing := by
    have hdone : (cloned.1 matches .accepted .nothing) = true := by decide +kernel
    generalize cloned.1 = outcome at hdone ⊢
    rcases outcome with _ | ⟨_ | _ | _ | _⟩ | _ | _ | _ <;> first | rfl | contradiction
  obtain ⟨hfirst, b, hsecond, hcopy, halike⟩ :=
    run_copies_behave_alike operations .first a ha .addressSpace haccepted
  change cloned.2.first = some a at hfirst
  change cloned.2.second = some b at hsecond
  have hnumbers : cloned.2.first.map (fun a => (a.capacity, a.reallocations)) = some (5, 3) := by
    decide +kernel
  have hcount : cloned.2.second.map reallocations = some 2 := by decide +kernel
  rw [hfirst, Option.map_some, Option.some_inj, Prod.mk.injEq] at hnumbers
  rw [hsecond, Option.map_some, Option.some_inj] at hcount
  have hpartners : Option.Rel (Twin (-(a.reallocations - b.reallocations)))
      cloned.2.second cloned.2.first := by
    rw [hfirst, hsecond]
    exact .some hcopy.twin.symm
  obtain ⟨houtcomes, hend, -⟩ := halike cloned.2 ⟨cloned.2.second, cloned.2.first⟩ .first _
    hfirst hsecond hpartners later (by decide +kernel) (by decide +kernel)
  have hcarried : carryAll (spread .first (1, -1))
      (later.map fun operation => (operation.1, operation.2.2)) left.1 =
        spread .first (-1, 1) := by
    funext there
    cases there <;> decide +kernel
  rw [hnumbers.2, hcount] at hend
  refine ⟨a, hfirst, b, hsecond, hcopy, hnumbers.1, hnumbers.2, hcount, houtcomes, ?_⟩
  rw [← hcarried]
  exact hend

end TwinsWitness

end DynArray

end Containers
