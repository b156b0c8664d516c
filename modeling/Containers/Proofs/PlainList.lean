/-
What the operations on a sequence do to a plain list, and what a container has to do
to behave like one.  Each operation is compared on its own; a run of them is then
compared step by step, as long as memory lasts.
-/
import Containers.Proofs.Room
import Containers.Sequence.Basic

namespace Containers

namespace Sequence

variable {σ τ α : Type}

/-! ### Plain lists -/

/-- The outcome of an operation on a plain list, and the list that it leaves. -/
def Command.onList : Command α → List α → Outcome (Reply α) × List α
  | get? i, xs => (.returned (.optional xs[i]?), xs)
  | front?, xs => (.returned (.optional xs.head?), xs)
  | back?, xs => (.returned (.optional xs.getLast?), xs)
  | set? i v, xs => (.returned (.optional xs[i]?), xs.set i v)
  | set i v, xs =>
    match xs[i]? with
    | some previous => (.accepted (.element previous), xs.set i v)
    | none => (.refused (.array (.outOfRange i xs.length)), xs)
  | pushBack v, xs => (.accepted .nothing, xs ++ [v])
  | pushFront v, xs => (.accepted .nothing, v :: xs)
  | popBack?, xs => (.returned (.optional xs.getLast?), xs.dropLast)
  | popFront?, xs => (.returned (.optional xs.head?), xs.tail)
  | insert i v, xs =>
    if i ≤ xs.length then (.accepted .nothing, xs.take i ++ [v] ++ xs.drop i)
    else (.refused (.array (.outOfRange i xs.length)), xs)
  | erase i, xs =>
    match xs[i]? with
    | some v => (.accepted (.element v), xs.take i ++ xs.drop (i + 1))
    | none => (.refused (.array (.outOfRange i xs.length)), xs)
  | clear, _ => (.returned .nothing, [])

/-- The outcomes of operations on a plain list, one after the other, and the list
that they leave. -/
def Command.onListAll : List (Command α) → List α → List (Outcome (Reply α)) × List α
  | [], xs => ([], xs)
  | command :: rest, xs =>
    let (outcome, xs) := command.onList xs
    let (outcomes, xs) := onListAll rest xs
    (outcome :: outcomes, xs)

/-! ### Containers -/

section

variable [Sequence σ α]

/-- A run of operations on one container, each of which finds memory of its own. -/
def Command.runOn (s : σ) (operations : List (Allocator × Command α)) :
    List (Outcome (Reply α)) × Workspace σ :=
  Workspace.runEach Command.effect ⟨some s, none⟩
    (operations.map fun operation => (.first, operation))

/-- Every run whose steps do not lack memory has the outcomes that it has on the
plain list, and leaves the same elements.  A run may end after any step. -/
def ActsAsList (s : σ) (xs : List α) : Prop :=
  ∀ operations : List (Allocator × Command α),
    (∀ outcome ∈ (Command.runOn s operations).1, ¬ outcome.IsShortage) →
      let onList := Command.onListAll (operations.map Prod.snd) xs
      ∃ t : σ, Command.runOn s operations = (onList.1, ⟨some t, none⟩) ∧
        Sequence.toList t = onList.2 ∧ Sequence.size t = onList.2.length ∧
        Sequence.isEmpty t = onList.2.isEmpty

/-- What each operation has to do with a container that is seen as a list. -/
structure Laws (View : σ → List α → Prop) : Prop where
  toList_eq : ∀ {s xs}, View s xs → Sequence.toList s = xs
  size_eq : ∀ {s xs}, View s xs → Sequence.size s = xs.length
  get?_eq : ∀ {s xs}, View s xs → ∀ i, Sequence.get? s i = xs[i]?
  front?_eq : ∀ {s xs}, View s xs → Sequence.front? s = xs.head?
  back?_eq : ∀ {s xs}, View s xs → Sequence.back? s = xs.getLast?
  set?_fst : ∀ {s xs}, View s xs → ∀ i v, (Sequence.set? i v s).1 = xs[i]?
  set?_snd : ∀ {s xs}, View s xs → ∀ i v, View (Sequence.set? i v s).2 (xs.set i v)
  pushBack_attempt : ∀ {s xs}, View s xs → ∀ memory v,
    Attempt Error.IsShortage s (View · (xs ++ [v])) (Sequence.pushBack memory v s)
  pushFront_attempt : ∀ {s xs}, View s xs → ∀ memory v,
    Attempt Error.IsShortage s (View · (v :: xs)) (Sequence.pushFront memory v s)
  popBack?_fst : ∀ {s xs}, View s xs → (Sequence.popBack? s).1 = xs.getLast?
  popBack?_snd : ∀ {s xs}, View s xs → View (Sequence.popBack? s).2 xs.dropLast
  popFront?_fst : ∀ {s xs}, View s xs → (Sequence.popFront? s).1 = xs.head?
  popFront?_snd : ∀ {s xs}, View s xs → View (Sequence.popFront? s).2 xs.tail
  insert_attempt : ∀ {s xs}, View s xs → ∀ memory {i} v, i ≤ xs.length →
    Attempt Error.IsShortage s (View · (xs.insertIdx i v)) (Sequence.insert memory i v s)
  insert_refused : ∀ {s xs}, View s xs → ∀ memory {i} v, xs.length < i →
    Sequence.insert memory i v s = .error (.array (.outOfRange i xs.length)) s
  erase_ok : ∀ {s xs}, View s xs → ∀ {i v}, xs[i]? = some v →
    ∃ t, Sequence.erase i s = .ok v t ∧ View t (xs.eraseIdx i)
  erase_refused : ∀ {s xs}, View s xs → ∀ {i}, xs.length ≤ i →
    Sequence.erase i s = .error (.array (.outOfRange i xs.length)) s
  clear_view : ∀ {s xs}, View s xs → View (Sequence.clear s) []

end

/-! ### One step -/

/-- What a step shows and leaves behind is as expected, unless it lacks memory. -/
inductive AsExpected (View : σ → List α → Prop) (expected : Outcome (Reply α) × List α) :
    Outcome (Reply α) × Option σ × Option σ → Prop
  | alike {t : σ} (hview : View t expected.2) : AsExpected View expected (expected.1, some t, none)
  | short {outcome : Outcome (Reply α)} {left : Option σ × Option σ}
      (hshort : outcome.IsShortage) : AsExpected View expected (outcome, left)

namespace AsExpected

variable {View : σ → List α → Prop} {s : σ} {xs : List α}

theorem look {f : σ → Reply α} {reply : Reply α} (hreply : f s = reply) (hview : View s xs) :
    AsExpected View (.returned reply, xs) (Workspace.step (some s) none (.look f)) := by
  subst hreply
  exact .alike hview

theorem optional {step : StateM σ (Option α)} {v? : Option α} (hv : (step s).1 = v?)
    (hview : View (step s).2 xs) :
    AsExpected View (.returned (.optional v?), xs)
      (Workspace.step (some s) none (.total (.optional <$> step))) := by
  subst hv
  exact .alike hview

theorem silently {step : EStateM Error σ Unit}
    (h : Attempt Error.IsShortage s (View · xs) (step s)) :
    AsExpected View (.accepted .nothing, xs)
      (Workspace.step (some s) none (.refusable (Reply.silently step))) := by
  change AsExpected View _ (Workspace.step (some s) none
    (.refusable (EStateM.map (fun _ => Reply.nothing) step)))
  unfold Workspace.step Effect.refusable EStateM.map
  dsimp only
  generalize step s = result at h ⊢
  cases h with
  | done hview => exact .alike hview
  | short hshort => exact .short hshort

theorem accepted {step : EStateM Error σ α} {v : α} {t : σ} (hstep : step s = .ok v t)
    (hview : View t xs) :
    AsExpected View (.accepted (.element v), xs)
      (Workspace.step (some s) none (.refusable (.element <$> step))) := by
  change AsExpected View _ (Workspace.step (some s) none (.refusable (EStateM.map .element step)))
  unfold Workspace.step Effect.refusable EStateM.map
  dsimp only
  rw [hstep]
  exact .alike hview

theorem refused {ρ : Type} {step : EStateM Error σ ρ} {f : ρ → Reply α} {error : Error} {t : σ}
    (hstep : step s = .error error t) (hview : View t xs) :
    AsExpected View (.refused error, xs)
      (Workspace.step (some s) none (.refusable (f <$> step))) := by
  change AsExpected View _ (Workspace.step (some s) none (.refusable (EStateM.map f step)))
  unfold Workspace.step Effect.refusable EStateM.map
  dsimp only
  rw [hstep]
  exact .alike hview

end AsExpected

section

variable [Sequence σ α] {View : σ → List α → Prop}

theorem Laws.set_ok (h : Laws View) {s : σ} {xs : List α} (hs : View s xs) {i : Nat}
    (v : α) {previous : α} (hprevious : xs[i]? = some previous) :
    ∃ t, Sequence.set i v s = .ok previous t ∧ View t (xs.set i v) := by
  have hfst := h.set?_fst hs i v
  have hsnd := h.set?_snd hs i v
  unfold Sequence.set
  generalize Sequence.set? i v s = result at hfst hsnd ⊢
  obtain ⟨reply, t⟩ := result
  obtain rfl : reply = some previous := hfst.trans hprevious
  exact ⟨t, rfl, hsnd⟩

theorem Laws.set_refused (h : Laws View) {s : σ} {xs : List α} (hs : View s xs) {i : Nat}
    (v : α) (hi : xs[i]? = none) :
    ∃ t, Sequence.set i v s = .error (.array (.outOfRange i xs.length)) t ∧ View t xs := by
  have hfst := h.set?_fst hs i v
  have hsnd := h.set?_snd hs i v
  rw [List.set_eq_of_length_le (List.getElem?_eq_none_iff.mp hi)] at hsnd
  unfold Sequence.set
  generalize Sequence.set? i v s = result at hfst hsnd ⊢
  obtain ⟨reply, t⟩ := result
  obtain rfl : reply = none := hfst.trans hi
  refine ⟨t, ?_, hsnd⟩
  dsimp only
  rw [h.size_eq hsnd]

theorem Laws.isEmpty_eq (h : Laws View) {s : σ} {xs : List α} (hs : View s xs) :
    Sequence.isEmpty s = xs.isEmpty := by
  rw [Sequence.isEmpty, h.size_eq hs]
  cases xs <;> rfl

/-- What is seen in one of several ways has the laws if each way has them. -/
theorem Laws.exists {ι : Type} {Views : ι → σ → List α → Prop}
    (h : ∀ i, Laws (Views i)) : Laws fun s xs => ∃ i, Views i s xs where
  toList_eq := fun ⟨i, hs⟩ => (h i).toList_eq hs
  size_eq := fun ⟨i, hs⟩ => (h i).size_eq hs
  get?_eq := fun ⟨i, hs⟩ => (h i).get?_eq hs
  front?_eq := fun ⟨i, hs⟩ => (h i).front?_eq hs
  back?_eq := fun ⟨i, hs⟩ => (h i).back?_eq hs
  set?_fst := fun ⟨i, hs⟩ => (h i).set?_fst hs
  set?_snd := fun ⟨i, hs⟩ j v => ⟨i, (h i).set?_snd hs j v⟩
  pushBack_attempt := fun ⟨i, hs⟩ memory v =>
    ((h i).pushBack_attempt hs memory v).mono fun _ ht => ⟨i, ht⟩
  pushFront_attempt := fun ⟨i, hs⟩ memory v =>
    ((h i).pushFront_attempt hs memory v).mono fun _ ht => ⟨i, ht⟩
  popBack?_fst := fun ⟨i, hs⟩ => (h i).popBack?_fst hs
  popBack?_snd := fun ⟨i, hs⟩ => ⟨i, (h i).popBack?_snd hs⟩
  popFront?_fst := fun ⟨i, hs⟩ => (h i).popFront?_fst hs
  popFront?_snd := fun ⟨i, hs⟩ => ⟨i, (h i).popFront?_snd hs⟩
  insert_attempt := fun ⟨i, hs⟩ memory _ v hj =>
    ((h i).insert_attempt hs memory v hj).mono fun _ ht => ⟨i, ht⟩
  insert_refused := fun ⟨i, hs⟩ => (h i).insert_refused hs
  erase_ok := fun ⟨i, hs⟩ _ _ hv =>
    let ⟨t, herase, ht⟩ := (h i).erase_ok hs hv
    ⟨t, herase, i, ht⟩
  erase_refused := fun ⟨i, hs⟩ => (h i).erase_refused hs
  clear_view := fun ⟨i, hs⟩ => ⟨i, (h i).clear_view hs⟩

theorem insertIdx_eq_append {xs : List α} {i : Nat} (v : α) (hi : i ≤ xs.length) :
    xs.insertIdx i v = xs.take i ++ [v] ++ xs.drop i := by
  have hsplit := insertIdx_append_length (xs.take i) (xs.drop i) v
  rw [List.take_append_drop, List.length_take_of_le hi] at hsplit
  rw [hsplit, List.append_assoc, List.singleton_append]

/-- The laws say what a step of each operation shows and leaves. -/
theorem Laws.step (h : Laws View) {s : σ} {xs : List α} (hs : View s xs)
    (memory : Allocator) (command : Command α) :
    AsExpected View (command.onList xs)
      (Workspace.step (some s) none (command.effect memory)) := by
  cases command with
  | get? i => exact .look (congrArg Reply.optional (h.get?_eq hs i)) hs
  | front? => exact .look (congrArg Reply.optional (h.front?_eq hs)) hs
  | back? => exact .look (congrArg Reply.optional (h.back?_eq hs)) hs
  | set? i v => exact .optional (h.set?_fst hs i v) (h.set?_snd hs i v)
  | set i v =>
      simp only [Command.onList]
      cases hprevious : xs[i]? with
      | some previous =>
          obtain ⟨t, hset, ht⟩ := h.set_ok hs v hprevious
          exact .accepted hset ht
      | none =>
          obtain ⟨t, hset, ht⟩ := h.set_refused hs v hprevious
          exact .refused hset ht
  | pushBack v => exact .silently (h.pushBack_attempt hs memory v)
  | pushFront v => exact .silently (h.pushFront_attempt hs memory v)
  | popBack? => exact .optional (h.popBack?_fst hs) (h.popBack?_snd hs)
  | popFront? => exact .optional (h.popFront?_fst hs) (h.popFront?_snd hs)
  | insert i v =>
      simp only [Command.onList]
      split
      · rename_i hi
        have hinsert := h.insert_attempt hs memory v hi
        rw [insertIdx_eq_append v hi] at hinsert
        exact .silently hinsert
      · rename_i hi
        exact .refused (h.insert_refused hs memory v (Nat.lt_of_not_le hi)) hs
  | erase i =>
      simp only [Command.onList]
      cases hv : xs[i]? with
      | some v =>
          obtain ⟨t, herase, ht⟩ := h.erase_ok hs hv
          rw [List.eraseIdx_eq_take_drop_succ] at ht
          exact .accepted herase ht
      | none => exact .refused (h.erase_refused hs (List.getElem?_eq_none_iff.mp hv)) hs
  | clear =>
      have hcleared : View (Sequence.clear s) (Command.onList .clear xs).2 := h.clear_view hs
      exact .alike hcleared

/-- No operation leaves anything that is not seen as a list. -/
theorem Laws.keeps (h : Laws View) (memory : Allocator) (command : Command α) :
    (command.effect memory : Effect σ (Reply α)).Keeps fun s => ∃ xs, View s xs := by
  cases command with
  | get? | front? | back? => exact Effect.keeps_look _
  | set? i v =>
      rintro s ⟨xs, hs⟩
      exact ⟨_, h.set?_snd hs i v⟩
  | set i v =>
      refine Effect.keeps_refusable fun s ⟨xs, hs⟩ => ?_
      rw [leftBy_map]
      cases hprevious : xs[i]? with
      | some previous =>
          obtain ⟨t, hset, ht⟩ := h.set_ok hs v hprevious
          rw [hset]
          exact ⟨_, ht⟩
      | none =>
          obtain ⟨t, hset, ht⟩ := h.set_refused hs v hprevious
          rw [hset]
          exact ⟨_, ht⟩
  | pushBack v =>
      exact Effect.keeps_attempt fun s ⟨xs, hs⟩ =>
        (h.pushBack_attempt hs memory v).mono fun t ht => ⟨_, ht⟩
  | pushFront v =>
      exact Effect.keeps_attempt fun s ⟨xs, hs⟩ =>
        (h.pushFront_attempt hs memory v).mono fun t ht => ⟨_, ht⟩
  | popBack? =>
      rintro s ⟨xs, hs⟩
      exact ⟨_, h.popBack?_snd hs⟩
  | popFront? =>
      rintro s ⟨xs, hs⟩
      exact ⟨_, h.popFront?_snd hs⟩
  | insert i v =>
      refine Effect.keeps_refusable fun s ⟨xs, hs⟩ => ?_
      rw [leftBy_silently]
      rcases Nat.lt_or_ge xs.length i with hi | hi
      · rw [h.insert_refused hs memory v hi]
        exact ⟨xs, hs⟩
      · exact (h.insert_attempt hs memory v hi).leftBy (P := fun s => ∃ xs, View s xs) ⟨xs, hs⟩
          fun t ht => ⟨_, ht⟩
  | erase i =>
      refine Effect.keeps_refusable fun s ⟨xs, hs⟩ => ?_
      rw [leftBy_map]
      cases hv : xs[i]? with
      | some v =>
          obtain ⟨t, herase, ht⟩ := h.erase_ok hs hv
          rw [herase]
          exact ⟨_, ht⟩
      | none =>
          rw [h.erase_refused hs (List.getElem?_eq_none_iff.mp hv)]
          exact ⟨xs, hs⟩
  | clear =>
      rintro s ⟨xs, hs⟩
      exact ⟨[], h.clear_view hs⟩

/-! ### Runs -/

theorem Command.onListAll_cons (command : Command α) (rest : List (Command α)) (xs : List α) :
    onListAll (command :: rest) xs =
      ((command.onList xs).1 :: (onListAll rest (command.onList xs).2).1,
        (onListAll rest (command.onList xs).2).2) := rfl

theorem Command.runOn_cons {s t : σ} {memory : Allocator} {command : Command α}
    {outcome : Outcome (Reply α)}
    (hstep : Workspace.step (some s) none (command.effect memory) = (outcome, some t, none))
    (rest : List (Allocator × Command α)) :
    runOn s ((memory, command) :: rest) = (outcome :: (runOn t rest).1, (runOn t rest).2) := by
  change (let (outcome, here, other) := Workspace.step (some s) none (command.effect memory)
    let (outcomes, w) := Workspace.runEach Command.effect ⟨here, other⟩
      (rest.map fun operation => (.first, operation))
    (outcome :: outcomes, w)) = _
  rw [hstep]
  rfl

/-- As long as no step lacks memory, the list goes along with the container. -/
theorem Laws.runOn_eq (h : Laws View) {s : σ} {xs : List α} (hs : View s xs)
    (operations : List (Allocator × Command α))
    (hmemory : ∀ outcome ∈ (Command.runOn s operations).1, ¬ outcome.IsShortage) :
    ∃ t, Command.runOn s operations =
        ((Command.onListAll (operations.map Prod.snd) xs).1, ⟨some t, none⟩) ∧
      View t (Command.onListAll (operations.map Prod.snd) xs).2 := by
  induction operations generalizing s xs with
  | nil => exact ⟨s, rfl, hs⟩
  | cons operation rest ih =>
      obtain ⟨memory, command⟩ := operation
      have hexpected := h.step hs memory command
      have hfirst : ¬ (Workspace.step (some s) none (command.effect memory)).1.IsShortage :=
        hmemory _ List.mem_cons_self
      generalize hstep : Workspace.step (some s) none (command.effect memory) = result
        at hexpected hfirst
      cases hexpected with
      -- A step that lacks memory may leave anything behind, but there is none.
      | short hshort => exact absurd hshort hfirst
      | @alike t ht =>
          have hrun := Command.runOn_cons hstep rest
          rw [hrun] at hmemory ⊢
          obtain ⟨u, hrest, hu⟩ := ih ht fun outcome houtcome =>
            hmemory outcome (List.mem_cons_of_mem _ houtcome)
          rw [hrest, List.map_cons, Command.onListAll_cons]
          exact ⟨u, rfl, hu⟩

theorem Laws.actsAsList (h : Laws View) {s : σ} {xs : List α} (hs : View s xs) :
    ActsAsList s xs := by
  intro operations hmemory onList
  obtain ⟨t, hrun, ht⟩ := h.runOn_eq hs operations hmemory
  exact ⟨t, hrun, h.toList_eq ht, h.size_eq ht, h.isEmpty_eq ht⟩

end

end Sequence

end Containers
