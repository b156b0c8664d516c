/-
What passes through a container.  Elements enter at the back and leave from one of the
two ends.  Where they leave from the front, they leave in the order in which they
entered; where they leave from the back, each one that leaves is the last one that
entered and has not left since.
-/
import Containers.Proofs.Run

namespace Containers

variable {α σ γ : Type}

/-! ### Histories -/

/-- An element came in or went out. -/
inductive Passage (α : Type)
  | entered (v : α)
  | left (v : α)
deriving DecidableEq

namespace Passage

def arrival? : Passage α → Option α
  | entered v => some v
  | left _ => none

def departure? : Passage α → Option α
  | entered _ => none
  | left v => some v

end Passage

/-- All that came in, the first one first. -/
def arrivals (history : List (Passage α)) : List α := history.filterMap Passage.arrival?

/-- All that went out, the first one first. -/
def departures (history : List (Passage α)) : List α := history.filterMap Passage.departure?

section

variable (v : α) (history : List (Passage α))

@[simp] theorem arrivals_nil : arrivals ([] : List (Passage α)) = [] := rfl

@[simp] theorem departures_nil : departures ([] : List (Passage α)) = [] := rfl

@[simp] theorem arrivals_entered : arrivals (.entered v :: history) = v :: arrivals history := rfl

@[simp] theorem arrivals_left : arrivals (.left v :: history) = arrivals history := rfl

@[simp] theorem departures_entered :
    departures (.entered v :: history) = departures history := rfl

@[simp] theorem departures_left :
    departures (.left v :: history) = v :: departures history := rfl

end

/-- The first element is taken away. -/
def FromFront (xs : List α) (v : α) (ys : List α) : Prop := xs = v :: ys

/-- The last element is taken away. -/
def FromBack (xs : List α) (v : α) (ys : List α) : Prop := xs = ys ++ [v]

/-- One list becomes another one by a history of elements that are added at the end and
taken away by a rule. -/
inductive Flow (Takes : List α → α → List α → Prop) :
    List α → List (Passage α) → List α → Prop
  | nil (xs : List α) : Flow Takes xs [] xs
  | entered {xs ys : List α} {v : α} {history : List (Passage α)}
      (hrest : Flow Takes (xs ++ [v]) history ys) : Flow Takes xs (.entered v :: history) ys
  | left {xs ys zs : List α} {v : α} {history : List (Passage α)} (htakes : Takes xs v zs)
      (hrest : Flow Takes zs history ys) : Flow Takes xs (.left v :: history) ys

theorem Flow.of_append {Takes : List α → α → List α → Prop} {before after : List (Passage α)}
    {xs zs : List α} (h : Flow Takes xs (before ++ after) zs) :
    ∃ ys, Flow Takes xs before ys ∧ Flow Takes ys after zs := by
  induction before generalizing xs with
  | nil => exact ⟨xs, .nil xs, h⟩
  | cons passage rest ih =>
      cases h with
      | entered hrest =>
          obtain ⟨ys, hys, hafter⟩ := ih hrest
          exact ⟨ys, .entered hys, hafter⟩
      | left htakes hrest =>
          obtain ⟨ys, hys, hafter⟩ := ih hrest
          exact ⟨ys, .left htakes hys, hafter⟩

/-! ### First in, first out -/

theorem Flow.in_order {xs ys : List α} {history : List (Passage α)}
    (h : Flow FromFront xs history ys) : departures history ++ ys = xs ++ arrivals history := by
  induction h with
  | nil xs => simp
  | entered _ ih => simpa using ih
  | left htakes _ ih =>
      rw [htakes]
      simpa using ih

/-! ### Last in, first out -/

/-- Reads a history backwards for the value that entered last and has not left since,
and then for the one that entered before it, and so on: the first `skip` of these are
passed over.  Each departure makes one more arrival before it to be passed over.  Where
the history ends, it goes on with what was there before it. -/
def lastUnpopped? (base : List α) : Nat → List (Passage α) → Option α
  | skip, [] => base.reverse[skip]?
  | skip, .left _ :: history => lastUnpopped? base (skip + 1) history
  | 0, .entered v :: _ => some v
  | skip + 1, .entered _ :: history => lastUnpopped? base skip history

/-- What entered first might as well have been there before. -/
theorem lastUnpopped?_concat_entered (base : List α) (v : α) (skip : Nat)
    (history : List (Passage α)) :
    lastUnpopped? base skip (history ++ [.entered v]) =
      lastUnpopped? (base ++ [v]) skip history := by
  induction history generalizing skip with
  | nil => cases skip <;> simp [lastUnpopped?]
  | cons passage rest ih =>
      cases passage with
      | left _ => exact ih (skip + 1)
      | entered _ =>
          cases skip with
          | zero => rfl
          | succ skip => exact ih skip

/-- What left first might as well not have been there before. -/
theorem lastUnpopped?_concat_left (base : List α) (v : α) (skip : Nat)
    (history : List (Passage α)) :
    lastUnpopped? (base ++ [v]) skip (history ++ [.left v]) =
      lastUnpopped? base skip history := by
  induction history generalizing skip with
  | nil => simp [lastUnpopped?]
  | cons passage rest ih =>
      cases passage with
      | left _ => exact ih (skip + 1)
      | entered _ =>
          cases skip with
          | zero => rfl
          | succ skip => exact ih skip

/-- From the back on, what is there is what entered last and has not left since. -/
theorem Flow.lastUnpopped?_eq {xs ys : List α} {history : List (Passage α)}
    (h : Flow FromBack xs history ys) (skip : Nat) :
    lastUnpopped? xs skip history.reverse = ys.reverse[skip]? := by
  induction h with
  | nil xs => simp [lastUnpopped?]
  | entered _ ih => rw [List.reverse_cons, lastUnpopped?_concat_entered, ih]
  | left htakes _ ih => rw [htakes, List.reverse_cons, lastUnpopped?_concat_left, ih]

/-- Whatever leaves is what entered last and has not left since. -/
theorem Flow.left_eq_lastUnpopped? {xs ys : List α} {before after : List (Passage α)} {v : α}
    (h : Flow FromBack xs (before ++ .left v :: after) ys) :
    lastUnpopped? xs 0 before.reverse = some v := by
  obtain ⟨zs, hbefore, hafter⟩ := h.of_append
  cases hafter with
  | left htakes _ =>
      rw [hbefore.lastUnpopped?_eq, htakes]
      simp

/-- As long as no more is taken away than was added on top, what is below stays. -/
theorem Flow.keeps_below {base xs ys : List α} {history : List (Passage α)}
    (h : Flow FromBack xs history ys) (hbase : base <+: xs)
    (habove : ∀ n, base.length + (departures (history.take n)).length ≤
      xs.length + (arrivals (history.take n)).length) : base <+: ys := by
  induction h with
  | nil xs => exact hbase
  | @entered xs ys v history _ ih =>
      refine ih (hbase.trans (List.prefix_append xs [v])) fun n => ?_
      have hn := habove (n + 1)
      simp only [List.take_succ_cons, arrivals_entered, departures_entered,
        List.length_cons] at hn
      rw [List.length_append, List.length_singleton]
      omega
  | @left xs ys zs v history htakes _ ih =>
      have hlength : xs.length = zs.length + 1 := by rw [htakes, List.length_append]; rfl
      refine ih ?_ fun n => ?_
      · have hone := habove 1
        simp only [List.take_succ_cons, List.take_zero, arrivals_left, departures_left,
          arrivals_nil, departures_nil, List.length_cons, List.length_nil] at hone
        refine List.prefix_of_prefix_length_le hbase ?_ (by omega)
        rw [htakes]
        exact List.prefix_append zs [v]
      · have hn := habove (n + 1)
        simp only [List.take_succ_cons, arrivals_left, departures_left,
          List.length_cons] at hn
        omega

/-! ### Runs -/

/-- What passes in one step: nothing, or one element. -/
inductive Passes (Takes : List α → α → List α → Prop) (xs : List α) :
    Option (Passage α) → List α → Prop
  | nothing : Passes Takes xs none xs
  | entered {v : α} : Passes Takes xs (some (.entered v)) (xs ++ [v])
  | left {v : α} {ys : List α} (htakes : Takes xs v ys) : Passes Takes xs (some (.left v)) ys

theorem Passes.flow {Takes : List α → α → List α → Prop} {xs ys zs : List α}
    {passage : Option (Passage α)} {history : List (Passage α)}
    (h : Passes Takes xs passage ys) (hrest : Flow Takes ys history zs) :
    Flow Takes xs (passage.toList ++ history) zs := by
  cases h with
  | nothing => exact hrest
  | entered => exact .entered hrest
  | left htakes => exact .left htakes hrest

namespace Effect

variable {View : σ → List α → Prop} {Takes : List α → α → List α → Prop}
  {passage? : Outcome (Reply α) → Option (Passage α)}

/-- The effect works on a container that is seen as a list, and what passes by its
outcome is what happens to the list. -/
def Serves (View : σ → List α → Prop) (Takes : List α → α → List α → Prop)
    (passage? : Outcome (Reply α) → Option (Passage α)) (effect : Effect σ (Reply α)) : Prop :=
  ∀ s xs, View s xs → ∃ outcome t ys,
    (∀ other, Workspace.step (some s) other effect = (outcome, some t, other)) ∧
      View t ys ∧ Passes Takes xs (passage? outcome) ys

theorem serves_look (reply : σ → Reply α) (hnone : ∀ outcome, passage? outcome = none) :
    (look reply).Serves View Takes passage? := by
  intro s xs hs
  refine ⟨_, s, xs, fun _ => rfl, hs, ?_⟩
  rw [hnone]
  exact .nothing

theorem serves_lookAsserted (reply : σ → Except Violation (Reply α))
    (hnone : ∀ outcome, passage? outcome = none) :
    (lookAsserted reply).Serves View Takes passage? := by
  intro s xs hs
  have hstep : ∃ outcome, ∀ other,
      Workspace.step (some s) other (lookAsserted reply) = (outcome, some s, other) := by
    simp only [lookAsserted, Workspace.step]
    cases reply s <;> exact ⟨_, fun _ => rfl⟩
  obtain ⟨outcome, hstep⟩ := hstep
  refine ⟨outcome, s, xs, hstep, hs, ?_⟩
  rw [hnone]
  exact .nothing

/-- An element enters unless memory is lacking. -/
theorem serves_push {push : EStateM Error σ Unit} {v : α}
    (h : ∀ s xs, View s xs → Attempt Error.IsShortage s (View · (xs ++ [v])) (push s))
    (haccepted : ∀ reply, passage? (.accepted reply) = some (.entered v))
    (hrefused : ∀ error, passage? (.refused error) = none) :
    (refusable (Reply.silently push)).Serves View Takes passage? := by
  intro s xs hs
  have hpush := h s xs hs
  change ∃ outcome t ys, (∀ other, Workspace.step (some s) other
    (refusable (EStateM.map (fun _ => Reply.nothing) push)) = _) ∧ _
  simp only [refusable, Workspace.step, EStateM.map]
  generalize push s = result at hpush
  cases hpush with
  | @done t ht =>
      refine ⟨.accepted .nothing, t, xs ++ [v], fun _ => rfl, ht, ?_⟩
      rw [haccepted]
      exact .entered
  | @short error _ =>
      refine ⟨.refused error, s, xs, fun _ => rfl, hs, ?_⟩
      rw [hrefused]
      exact .nothing

/-- An element is taken away, or there is none. -/
inductive Pops (View : σ → List α → Prop) (Takes : List α → α → List α → Prop) (xs : List α) :
    Option α × σ → Prop
  | some {v : α} {t : σ} {ys : List α} (hview : View t ys) (htakes : Takes xs v ys) :
      Pops View Takes xs (some v, t)
  | none {t : σ} (hview : View t xs) : Pops View Takes xs (none, t)

theorem Pops.map {τ : Type} {View' : τ → List α → Prop} {xs : List α} {result : Option α × σ}
    (h : Pops View Takes xs result) (f : σ → τ) (hf : ∀ s ys, View s ys → View' (f s) ys) :
    Pops View' Takes xs (result.1, f result.2) := by
  cases h with
  | some hview htakes => exact .some (hf _ _ hview) htakes
  | none hview => exact .none (hf _ _ hview)

theorem serves_pop? {pop? : StateM σ (Option α)}
    (h : ∀ s xs, View s xs → Pops View Takes xs (pop? s))
    (hsome : ∀ v, passage? (.returned (.optional (some v))) = some (.left v))
    (hnone : passage? (.returned (.optional none)) = none) :
    (total (.optional <$> pop?)).Serves View Takes passage? := by
  intro s xs hs
  have hpop := h s xs hs
  change ∃ outcome t ys, (∀ other, Workspace.step (some s) other (total fun s =>
    (Reply.optional (pop? s).1, (pop? s).2)) = _) ∧ _
  simp only [total, Workspace.step]
  generalize pop? s = result at hpop
  cases hpop with
  | @some v t ys hview htakes =>
      refine ⟨.returned (.optional (some v)), t, ys, fun _ => rfl, hview, ?_⟩
      rw [hsome]
      exact .left htakes
  | @none t hview =>
      refine ⟨.returned (.optional none), t, xs, fun _ => rfl, hview, ?_⟩
      rw [hnone]
      exact .nothing

/-- The same where there is asserted to be one. -/
theorem serves_pop {pop? : StateM σ (Option α)} {pop : EStateM Violation σ α}
    {violation : Violation}
    (hpop : ∀ s, pop s = (pop? s).1.elim (.error violation (pop? s).2) (.ok · (pop? s).2))
    (h : ∀ s xs, View s xs → Pops View Takes xs (pop? s))
    (hsome : ∀ v, passage? (.returned (.element v)) = some (.left v))
    (hnone : passage? (.violated violation) = none) :
    (asserted (.element <$> pop)).Serves View Takes passage? := by
  intro s xs hs
  have hpops := h s xs hs
  change ∃ outcome t ys, (∀ other, Workspace.step (some s) other
    (asserted (EStateM.map Reply.element pop)) = _) ∧ _
  simp only [asserted, Workspace.step, EStateM.map, hpop]
  generalize pop? s = result at hpops
  cases hpops with
  | @some v t ys hview htakes =>
      refine ⟨.returned (.element v), t, ys, fun _ => rfl, hview, ?_⟩
      rw [hsome]
      exact .left htakes
  | @none t hview =>
      refine ⟨.violated violation, t, xs, fun _ => rfl, hview, ?_⟩
      rw [hnone]
      exact .nothing

end Effect

/-- What passed, by the outcomes of the operations. -/
def passages (passage? : γ → Outcome (Reply α) → Option (Passage α)) (commands : List γ)
    (outcomes : List (Outcome (Reply α))) : List (Passage α) :=
  (commands.zip outcomes).filterMap fun (command, outcome) => passage? command outcome

theorem passages_cons (passage? : γ → Outcome (Reply α) → Option (Passage α)) (command : γ)
    (rest : List γ) (outcome : Outcome (Reply α)) (outcomes : List (Outcome (Reply α))) :
    passages passage? (command :: rest) (outcome :: outcomes) =
      (passage? command outcome).toList ++ passages passage? rest outcomes := by
  simp only [passages, List.zip_cons_cons, List.filterMap_cons]
  cases passage? command outcome <;> rfl

/-- Step by step, what passes through a container is what happens to its list. -/
theorem Workspace.run_flow {View : σ → List α → Prop} {Takes : List α → α → List α → Prop}
    {passage? : γ → Outcome (Reply α) → Option (Passage α)}
    {effect : Allocator → γ → Effect σ (Reply α)} {operations : List (Allocator × γ)}
    (h : ∀ operation ∈ operations,
      (effect operation.1 operation.2).Serves View Takes (passage? operation.2))
    {w : Workspace σ} {place : Place} {s : σ} (hs : w.get place = some s) {xs : List α}
    (hview : View s xs) :
    let result := w.runEach effect (operations.map fun operation => (place, operation))
    ∃ t ys, result.2.get place = some t ∧ View t ys ∧
      Flow Takes xs (passages passage? (operations.map Prod.snd) result.1) ys := by
  induction operations generalizing w s xs with
  | nil => exact ⟨s, xs, hs, hview, .nil xs⟩
  | cons operation rest ih =>
      obtain ⟨memory, command⟩ := operation
      obtain ⟨outcome, t, ys, hstep, ht, hpasses⟩ :=
        h (memory, command) List.mem_cons_self s xs hview
      obtain ⟨houtcome, hget, -⟩ := w.perform_eq place (effect memory command)
      rw [hs, hstep] at houtcome hget
      obtain ⟨u, zs, hu, hviewU, hflow⟩ :=
        ih (fun later hlater => h later (List.mem_cons_of_mem _ hlater)) hget ht
      refine ⟨u, zs, hu, hviewU, ?_⟩
      change Flow Takes xs (passages passage? (command :: rest.map Prod.snd)
        ((w.perform place (effect memory command)).1 :: _)) zs
      rw [houtcome, passages_cons]
      exact hpasses.flow hflow

end Containers
