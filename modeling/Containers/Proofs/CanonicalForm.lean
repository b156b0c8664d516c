/-
A sorted map has one form for each set of entries.  Strictly ascending entries are fixed by
what they say about each class of keys, and an operation on a key rewrites that one class.
So operations on keys of different classes can be done in any order, and an entry that is
taken in and out again leaves no trace.
-/
import Containers.Proofs.AscendingKeys
import Mathlib.Data.List.Sort
import Mathlib.Data.List.Pairwise

namespace Containers

/-! ### Reading stores with the same elements -/

namespace Cursor

variable {σ α : Type} [Storage σ α]

/-- A reader sees no more of a store than the list of its elements. -/
theorem moves_eq_of_toList_eq {store store' : σ}
    (h : Storage.toList store = Storage.toList store') (front back : Nat) (ms : List Move) :
    (⟨store, front, back⟩ : Cursor σ).moves ms = (⟨store', front, back⟩ : Cursor σ).moves ms := by
  induction ms generalizing front back with
  | nil => rfl
  | cons m ms ih =>
      cases m with
      | next =>
          by_cases hlt : front < back
          · simp only [moves, move, next, if_pos hlt, Storage.get?_eq_getElem?, h, ih]
          · simp only [moves, move, next, if_neg hlt, ih]
      | nextBack =>
          by_cases hlt : front < back
          · simp only [moves, move, nextBack, if_pos hlt, Storage.get?_eq_getElem?, h, ih]
          · simp only [moves, move, nextBack, if_neg hlt, ih]
      | remaining => simp only [moves, move, remaining, ih]
      | bounds => simp only [moves, move, remaining, ih]

end Cursor

/-! ### Effects on one container -/

namespace Effect

variable {σ ρ τ : Type}

/-- The effect works on the container in its place alone; from `s` it ends with `outcome` and
leaves `t`. -/
def Ends (effect : Effect σ ρ) (s : σ) (outcome : Outcome ρ) (t : σ) : Prop :=
  ∃ step, effect = .work step ∧ step s = (outcome, t)

theorem ends_look (reply : σ → ρ) (s : σ) : (look reply).Ends s (.returned (reply s)) s :=
  ⟨_, rfl, rfl⟩

theorem ends_lookChecked_ok {reply : σ → Except Error ρ} {s : σ} {v : ρ} (h : reply s = .ok v) :
    (lookChecked reply).Ends s (.accepted v) s :=
  ⟨_, rfl, by simp only [h]⟩

theorem ends_lookChecked_error {reply : σ → Except Error ρ} {s : σ} {error : Error}
    (h : reply s = .error error) : (lookChecked reply).Ends s (.refused error) s :=
  ⟨_, rfl, by simp only [h]⟩

theorem ends_total {step : StateM σ τ} {s t : σ} {v : τ} (h : step s = (v, t)) (f : τ → ρ) :
    (total (f <$> step)).Ends s (.returned (f v)) t := by
  refine ⟨_, rfl, ?_⟩
  change (Outcome.returned (f (step s).1), (step s).2) = _
  rw [h]

theorem ends_failing_ok {step : EStateM Failure σ ρ} {s t : σ} {v : ρ} (h : step s = .ok v t) :
    (failing step).Ends s (.accepted v) t :=
  ⟨_, rfl, by simp only [h]⟩

theorem ends_failing_refused {step : EStateM Failure σ ρ} {s t : σ} {error : Error}
    (h : step s = .error (.refused error) t) : (failing step).Ends s (.refused error) t :=
  ⟨_, rfl, by simp only [h]⟩

theorem ends_failing_short {step : EStateM Failure σ ρ} {s : σ} {failure : Failure}
    (h : step s = .error failure s) (hshort : failure.IsShortage) :
    ∃ outcome, (failing step).Ends s outcome s ∧ outcome.IsShortage := by
  cases failure with
  | refused error => exact ⟨.refused error, ends_failing_refused h, hshort⟩
  | violated violation => contradiction

theorem Ends.keeps {effect : Effect σ ρ} {P : σ → Prop} (hwork : effect.IsWork)
    (h : ∀ s, P s → ∃ outcome t, effect.Ends s outcome t ∧ P t) : effect.Keeps P := by
  cases effect with
  | work step =>
      intro s hs
      obtain ⟨outcome, t, ⟨_, ⟨⟩, hstep⟩, ht⟩ := h s hs
      rwa [hstep]
  | _ => contradiction

theorem Ends.run_cons {effect : Effect σ ρ} {s t : σ} {outcome : Outcome ρ}
    (h : effect.Ends s outcome t) (rest : List (Place × Effect σ ρ)) :
    Workspace.run ⟨some s, none⟩ ((.first, effect) :: rest) =
      (outcome :: (Workspace.run ⟨some t, none⟩ rest).1,
        (Workspace.run ⟨some t, none⟩ rest).2) := by
  obtain ⟨step, rfl, hstep⟩ := h
  simp only [Workspace.run, Workspace.perform, Workspace.step, hstep]

end Effect

namespace SortedMap

variable {κ ν : Type} {less : κ → κ → Bool}

/-! ### Operations on one key -/

/-- What can be done with one key. -/
inductive Act (ν : Type)
  | insert (value : ν)
  | insertOrAssign (value : ν)
  | set? (value : ν)
  | get?
  | find
  | remove
deriving DecidableEq

namespace Act

def on (key : κ) : Act ν → Command κ ν
  | insert value => .insert key value
  | insertOrAssign value => .insertOrAssign key value
  | set? value => .set? key value
  | get? => .get? key
  | find => .find key
  | remove => .remove key

/-- How it ends where the class of the key has the given entry, and the entry that the class
has then. -/
def result (key : κ) : Act ν → Option (κ × ν) → Outcome (Reply ν) × Option (κ × ν)
  | insert value, none => (.accepted .nothing, some (key, value))
  | insert _, some entry => (.refused .alreadyExists, some entry)
  | insertOrAssign value, none => (.accepted (.optional none), some (key, value))
  | insertOrAssign value, some entry =>
    (.accepted (.optional (some entry.2)), some (entry.1, value))
  | set? _, none => (.returned (.optional none), none)
  | set? value, some entry => (.returned (.optional (some entry.2)), some (entry.1, value))
  | get?, content => (.returned (.optional (content.map Prod.snd)), content)
  | find, none => (.refused .notFound, none)
  | find, some entry => (.accepted (.element entry.2), some entry)
  | remove, none => (.refused .notFound, none)
  | remove, some entry => (.accepted (.element entry.2), none)

/-- The keys of two acts are in different classes. -/
def Apart (less : κ → κ → Bool) (a b : κ × Act ν) : Prop := ¬ Tied less a.1 b.1

instance : Std.Symm (Apart less : κ × Act ν → κ × Act ν → Prop) :=
  ⟨fun _ _ h htied => h htied.symm⟩

/-- How an act ends on a finite map. -/
def outcome (hweak : WeakOrder less) (f : hweak.Class → Option (κ × ν)) (act : κ × Act ν) :
    Outcome (Reply ν) :=
  (act.2.result act.1 (f (hweak.classOf act.1))).1

/-- What an act makes of a finite map. -/
def change (hweak : WeakOrder less) (f : hweak.Class → Option (κ × ν)) (act : κ × Act ν) :
    hweak.Class → Option (κ × ν) :=
  Function.update f (hweak.classOf act.1) (act.2.result act.1 (f (hweak.classOf act.1))).2

theorem change_of_apart (hweak : WeakOrder less) (f : hweak.Class → Option (κ × ν))
    {a b : κ × Act ν} (h : Apart less a b) :
    change hweak f a (hweak.classOf b.1) = f (hweak.classOf b.1) :=
  Function.update_of_ne (fun heq => h (hweak.classOf_eq_iff.mp heq).symm) _ _

/-- Acts on keys of different classes do not see each other. -/
theorem change_comm (hweak : WeakOrder less) (f : hweak.Class → Option (κ × ν))
    {a b : κ × Act ν} (h : Apart less a b) :
    change hweak (change hweak f a) b = change hweak (change hweak f b) a := by
  have hne : hweak.classOf a.1 ≠ hweak.classOf b.1 := fun heq => h (hweak.classOf_eq_iff.mp heq)
  rw [change, change_of_apart hweak f h, change, change, change_of_apart hweak f (symm h),
    Function.update_comm hne, change]

/-- So they come to the same in every order. -/
theorem foldl_change_perm (hweak : WeakOrder less) (f : hweak.Class → Option (κ × ν))
    {acts acts' : List (κ × Act ν)} (hperm : acts.Perm acts')
    (hapart : acts.Pairwise (Apart less)) :
    acts.foldl (change hweak) f = acts'.foldl (change hweak) f := by
  refine hperm.foldl_eq' (fun a ha b hb g => ?_) f
  by_cases heq : a = b
  · rw [heq]
  · exact change_comm hweak g (hapart.forall ha hb heq)

end Act

/-! ### Ascending entries are fixed by their classes -/

/-- There is only one ascending row of the same entries. -/
theorem Ascending.eq_of_mem_iff (hweak : WeakOrder less) {entries entries' : List (κ × ν)}
    (h : Ascending less entries) (h' : Ascending less entries')
    (hmem : ∀ e, e ∈ entries ↔ e ∈ entries') : entries = entries' := by
  have hirrefl : Std.Irrefl fun e f : κ × ν => less e.1 f.1 = true :=
    ⟨fun e => hweak.irrefl e.1⟩
  have hantisymm : Std.Antisymm fun e f : κ × ν => less e.1 f.1 = true := by
    refine ⟨fun e f hef hfe => ?_⟩
    rw [hweak.not_less_of_less hef] at hfe
    contradiction
  exact List.Pairwise.eq_of_mem_iff h h' hmem

variable [Element (κ × ν)]

/-- The keys go up strictly by `less`, and the entries say about each class what `f` says. -/
structure Tells (hweak : WeakOrder less) (f : hweak.Class → Option (κ × ν))
    (m : SortedMap κ ν) : Prop where
  less_eq : m.less = less
  ascending : Ascending less m.toList
  byClass_eq : byClass hweak m.toList = f

theorem Proper.tells {m : SortedMap κ ν} (h : m.Proper) :
    Tells h.weak (byClass h.weak m.toList) m :=
  ⟨rfl, h.ascending, rfl⟩

namespace Tells

variable {hweak : WeakOrder less} {f : hweak.Class → Option (κ × ν)} {m n : SortedMap κ ν}

theorem proper (h : Tells hweak f m) : m.Proper := by
  obtain ⟨rfl, hascending, -⟩ := h
  exact ⟨hweak, hascending⟩

/-- The entries are those that `f` has for their own classes. -/
theorem mem_iff (h : Tells hweak f m) (e : κ × ν) :
    e ∈ m.toList ↔ f (hweak.classOf e.1) = some e := by
  obtain ⟨rfl, hascending, rfl⟩ := h
  have hproper : m.Proper := ⟨hweak, hascending⟩
  rw [hproper.found_iff e.1 e, and_iff_left (hweak.tied_refl e.1)]

/-- What is said about the classes leaves no choice of the entries. -/
theorem toList_eq (hm : Tells hweak f m) (hn : Tells hweak f n) : m.toList = n.toList :=
  hm.ascending.eq_of_mem_iff hweak hn.ascending fun e => (hm.mem_iff e).trans (hn.mem_iff e).symm

end Tells

/-- Two maps that hold the same entries in the same order, for whoever reads them. -/
structure Matches (m n : SortedMap κ ν) : Prop where
  less_eq : m.less = n.less
  toList_eq : m.toList = n.toList
  moves_eq : ∀ moves, m.cursor.moves moves = n.cursor.moves moves

theorem Matches.of_toList_eq {m n : SortedMap κ ν} (hless : m.less = n.less)
    (hlist : m.toList = n.toList) : Matches m n where
  less_eq := hless
  toList_eq := hlist
  moves_eq moves := by
    have hsize : Storage.size m.entries.store = Storage.size n.entries.store := by
      rw [Storage.size_eq_length, Storage.size_eq_length]
      exact congrArg List.length hlist
    change Cursor.moves ⟨m.entries.store, 0, Storage.size m.entries.store⟩ moves = _
    rw [hsize]
    exact Cursor.moves_eq_of_toList_eq hlist 0 _ moves

namespace Tells

variable {hweak : WeakOrder less} {f : hweak.Class → Option (κ × ν)} {m n : SortedMap κ ν}
  {key : κ}

theorem of_replaced {hweak : WeakOrder m.less} {content : Option (κ × ν)}
    (h : Replaced m hweak key content n) :
    Tells hweak (Function.update (byClass hweak m.toList) (hweak.classOf key) content) n :=
  ⟨h.less_eq, h.ascending, h.byClass_eq⟩

/-- A class about which the same is said again. -/
theorem again (h : Tells hweak f m) {content : Option (κ × ν)}
    (hcontent : f (hweak.classOf key) = content) :
    Tells hweak (Function.update f (hweak.classOf key) content) m := by
  rwa [← hcontent, Function.update_eq_self]

theorem remove_eq (h : Tells hweak f m) {entry : κ × ν}
    (hentry : f (hweak.classOf key) = some entry) :
    ∃ n, SortedMap.remove key m = .ok entry.2 n ∧
      Tells hweak (Function.update f (hweak.classOf key) none) n := by
  obtain ⟨rfl, hascending, rfl⟩ := h
  have hproper : m.Proper := ⟨hweak, hascending⟩
  -- Nothing is granted for a removal, so any allocator will do.
  obtain ⟨n, hremove, hn⟩ := (hproper.onTaken .addressSpace hentry).remove_eq
  exact ⟨n, hremove, of_replaced hn⟩

/-- An act on a key whose class has an entry. -/
theorem ends_taken (h : Tells hweak f m) (memory : Allocator) (act : Act ν) {entry : κ × ν}
    (hentry : f (hweak.classOf key) = some entry) :
    ∃ n, ((act.on key).effect memory).Ends m (act.result key (some entry)).1 n ∧
      Tells hweak
        (Function.update f (hweak.classOf key) (act.result key (some entry)).2) n := by
  obtain ⟨rfl, hascending, rfl⟩ := h
  have hproper : m.Proper := ⟨hweak, hascending⟩
  have htells : Tells hweak (byClass hweak m.toList) m := hproper.tells
  have htaken := hproper.onTaken memory hentry
  cases act with
  | insert value =>
      refine ⟨m, Effect.ends_failing_refused ?_, htells.again hentry⟩
      exact map_of_error (htaken.insert_eq value)
  | insertOrAssign value =>
      obtain ⟨n, hassign, hn⟩ := htaken.insertOrAssign_eq value
      exact ⟨n, Effect.ends_failing_ok (map_of_ok hassign), of_replaced hn⟩
  | set? value =>
      obtain ⟨n, hset, hn⟩ := htaken.set?_eq value
      exact ⟨n, Effect.ends_total hset Reply.optional, of_replaced hn⟩
  | get? =>
      refine ⟨m, ?_, htells.again hentry⟩
      have hget := Effect.ends_look (fun m : SortedMap κ ν => Reply.optional (m.get? key)) m
      rwa [htaken.get?_eq] at hget
  | find =>
      refine ⟨m, Effect.ends_lookChecked_ok ?_, htells.again hentry⟩
      rw [htaken.find_eq]
      rfl
  | remove =>
      obtain ⟨n, hremove, hn⟩ := htells.remove_eq hentry
      exact ⟨n, Effect.ends_failing_ok (map_of_ok hremove), hn⟩

/-- An act on a key whose class has no entry; a new entry may find no memory. -/
theorem ends_free (h : Tells hweak f m) (memory : Allocator) (act : Act ν)
    (hentry : f (hweak.classOf key) = none) :
    ∃ outcome n, ((act.on key).effect memory).Ends m outcome n ∧
      (outcome.IsShortage ∧ n = m ∨ outcome = (act.result key (none : Option (κ × ν))).1 ∧
        Tells hweak (Function.update f (hweak.classOf key) (act.result key none).2) n) := by
  obtain ⟨rfl, hascending, rfl⟩ := h
  have hproper : m.Proper := ⟨hweak, hascending⟩
  have htells : Tells hweak (byClass hweak m.toList) m := hproper.tells
  have hfree := hproper.onFree memory hentry
  cases act with
  | insert value =>
      have hinsert := hfree.insert_attempt value
      cases hresult : SortedMap.insert memory key value m with
      | ok reply n =>
          have hn := hinsert.of_ok hresult
          exact ⟨_, n, Effect.ends_failing_ok (map_of_ok hresult), .inr ⟨rfl, of_replaced hn⟩⟩
      | error failure n =>
          rw [hresult] at hinsert
          cases hinsert with
          | short hshort =>
              obtain ⟨outcome, hends, hlacks⟩ :=
                Effect.ends_failing_short (map_of_error hresult) hshort
              exact ⟨outcome, m, hends, .inl ⟨hlacks, rfl⟩⟩
  | insertOrAssign value =>
      rcases hfree.insertOrAssign_eq value with ⟨n, hassign, hn⟩ | ⟨failure, hassign, hshort⟩
      · exact ⟨_, n, Effect.ends_failing_ok (map_of_ok hassign), .inr ⟨rfl, of_replaced hn⟩⟩
      · obtain ⟨outcome, hends, hlacks⟩ :=
          Effect.ends_failing_short (map_of_error hassign) hshort
        exact ⟨outcome, m, hends, .inl ⟨hlacks, rfl⟩⟩
  | set? value =>
      exact ⟨_, m, Effect.ends_total (hfree.set?_eq value) Reply.optional,
        .inr ⟨rfl, htells.again hentry⟩⟩
  | get? =>
      refine ⟨_, m, Effect.ends_look _ m, .inr ⟨?_, htells.again hentry⟩⟩
      rw [hfree.get?_eq]
      rfl
  | find =>
      refine ⟨_, m, Effect.ends_lookChecked_error ?_, .inr ⟨rfl, htells.again hentry⟩⟩
      rw [hfree.find_eq]
      rfl
  | remove =>
      exact ⟨_, m, Effect.ends_failing_refused (map_of_error hfree.remove_eq),
        .inr ⟨rfl, htells.again hentry⟩⟩

/-- An act ends as the class of its key says, and rewrites that class alone.  Only where
memory is lacking it ends otherwise, and then nothing is changed. -/
theorem ends (h : Tells hweak f m) (memory : Allocator) (act : κ × Act ν) :
    ∃ outcome n, ((act.2.on act.1).effect memory).Ends m outcome n ∧
      (outcome.IsShortage ∧ n = m ∨ outcome = Act.outcome hweak f act ∧
        Tells hweak (Act.change hweak f act) n) := by
  unfold Act.outcome Act.change
  cases hentry : f (hweak.classOf act.1) with
  | some entry =>
      obtain ⟨n, hends, hn⟩ := h.ends_taken memory act.2 hentry
      exact ⟨_, n, hends, .inr ⟨rfl, hn⟩⟩
  | none => exact h.ends_free memory act.2 hentry

end Tells

/-! ### Runs of acts -/

/-- Acts on one map, one after the other, each with memory of its own. -/
def actEach (m : SortedMap κ ν) (acts : List (Allocator × κ × Act ν)) :
    List (Outcome (Reply ν)) × Workspace (SortedMap κ ν) :=
  Workspace.runEach Command.effect ⟨some m, none⟩
    (acts.map fun act => (.first, act.1, act.2.2.on act.2.1))

/-- A run of acts that never lacks memory ends as each of them would at the beginning, and
leaves what their changes make of the classes. -/
theorem Tells.actEach {hweak : WeakOrder less} {f : hweak.Class → Option (κ × ν)}
    {m : SortedMap κ ν} (h : Tells hweak f m) {acts : List (Allocator × κ × Act ν)}
    (hapart : (acts.map Prod.snd).Pairwise (Act.Apart less))
    (hmemory : ∀ outcome ∈ (m.actEach acts).1, ¬ outcome.IsShortage) :
    (m.actEach acts).1 = (acts.map Prod.snd).map (Act.outcome hweak f) ∧
      ∃ n, (m.actEach acts).2.first = some n ∧
        Tells hweak ((acts.map Prod.snd).foldl (Act.change hweak) f) n := by
  induction acts generalizing m f with
  | nil => exact ⟨rfl, m, rfl, h⟩
  | cons act rest ih =>
      rw [List.map_cons] at hapart
      obtain ⟨happart, hrest⟩ := List.pairwise_cons.mp hapart
      obtain ⟨outcome, n, hends, hstep⟩ := h.ends act.1 act.2
      have hrun : m.actEach (act :: rest) =
          (outcome :: (n.actEach rest).1, (n.actEach rest).2) := hends.run_cons _
      rw [hrun] at hmemory ⊢
      obtain ⟨rfl, hn⟩ := hstep.resolve_left fun hshort =>
        hmemory outcome List.mem_cons_self hshort.1
      obtain ⟨houtcomes, r, hr, htells⟩ := ih hn hrest fun later hlater =>
        hmemory later (List.mem_cons_of_mem _ hlater)
      refine ⟨?_, r, hr, htells⟩
      rw [houtcomes, List.map_cons, List.map_cons, List.cons_inj_right]
      refine List.map_congr_left fun later hlater => ?_
      rw [Act.outcome, Act.outcome, Act.change_of_apart hweak f (happart later hlater)]

/-- A map that operations leave behind, each with memory of its own and with predicates that
order. -/
def Reached (m : SortedMap κ ν) : Prop :=
  Workspace.Reached Command.effect Command.Orders m

theorem Reached.proper {m : SortedMap κ ν} (h : Reached m) : m.Proper :=
  Workspace.Reached.holds h fun memory _ horders => Command.keeps_proper memory horders

/-- The predicate that an operation makes a map with. -/
def Command.predicate? : Command κ ν → Option (κ → κ → Bool)
  | new less => some less
  | _ => none

theorem Act.keeps_tells (hweak : WeakOrder less) (memory : Allocator) (act : κ × Act ν) :
    ((act.2.on act.1).effect memory).Keeps fun m => ∃ f, Tells hweak f m := by
  apply Effect.Ends.keeps
  · obtain ⟨key, act⟩ := act
    cases act <;> trivial
  · rintro m ⟨f, hm⟩
    obtain ⟨outcome, n, hends, ⟨-, rfl⟩ | ⟨-, hn⟩⟩ := hm.ends memory act
    · exact ⟨outcome, n, hends, f, hm⟩
    · exact ⟨outcome, n, hends, _, hn⟩

theorem Command.keeps_tells (hweak : WeakOrder less) (memory : Allocator) {command : Command κ ν}
    (h : ∀ made ∈ command.predicate?, made = less) :
    (command.effect memory).Keeps fun m => ∃ f, Tells hweak f m := by
  cases command with
  | new made =>
      obtain rfl := h made rfl
      intro m hm
      obtain ⟨hless, hnil⟩ := new_eq_ok hm
      exact ⟨_, hless, hnil ▸ .nil, rfl⟩
  | insert key value => exact Act.keeps_tells hweak memory (key, .insert value)
  | insertOrAssign key value => exact Act.keeps_tells hweak memory (key, .insertOrAssign value)
  | set? key value => exact Act.keeps_tells hweak memory (key, .set? value)
  | get? key => exact Act.keeps_tells hweak memory (key, .get?)
  | find key => exact Act.keeps_tells hweak memory (key, .find)
  | remove key => exact Act.keeps_tells hweak memory (key, .remove)
  | clear =>
      rintro m ⟨f, hm⟩
      exact ⟨_, hm.less_eq, (toList_clear m) ▸ .nil, rfl⟩
  | exchange => exact fun m n hm hn => ⟨hn, hm⟩

/-- Maps that are all made with one predicate keep it. -/
theorem runEach_less (hweak : WeakOrder less)
    {operations : List (Place × Allocator × Command κ ν)}
    (h : ∀ operation ∈ operations, ∀ made ∈ operation.2.2.predicate?, made = less)
    (place : Place) (m : SortedMap κ ν)
    (hm : m ∈ (Workspace.vacant.runEach Command.effect operations).2.get place) :
    m.less = less := by
  have hreached : Workspace.Reached Command.effect
      (fun command : Command κ ν => ∀ made ∈ command.predicate?, made = less) m :=
    ⟨operations, place, h, hm⟩
  obtain ⟨f, htells⟩ := hreached.holds fun memory _ hmade => Command.keeps_tells hweak memory hmade
  exact htells.less_eq

/-- An entry that was taken in can be taken out again, and nothing else is moved. -/
theorem Proper.remove_inserted {m n : SortedMap κ ν} (h : m.Proper) {memory : Allocator}
    {key : κ} {value : ν} (hinsert : SortedMap.insert memory key value m = .ok () n) :
    ∃ r, SortedMap.remove key n = .ok value r ∧ Matches r m := by
  cases hentry : byClass h.weak m.toList (h.weak.classOf key) with
  | some entry =>
      rw [(h.onTaken memory hentry).insert_eq value] at hinsert
      contradiction
  | none =>
      have hn := Tells.of_replaced (((h.onFree memory hentry).insert_attempt value).of_ok hinsert)
      obtain ⟨r, hremove, hr⟩ := hn.remove_eq (Function.update_self _ _ _)
      rw [Function.update_idem] at hr
      have hagain := h.tells.again hentry
      exact ⟨r, hremove, .of_toList_eq hr.less_eq (hr.toList_eq hagain)⟩

/-- The entries of a map that a run leaves behind are fixed by which ones there are: two such
maps with the same entries hold them in the same order.  Acts on keys of different classes
that never lack memory lead from such maps to such maps, in whichever order they are done,
and each of them ends in the same way.  An entry that is added and removed again leaves the
entries as they were. -/
theorem run_has_canonical_form {m : SortedMap κ ν} (hm : Reached m) :
    (∀ n, Reached n → n.less = m.less → (∀ e, e ∈ n.toList ↔ e ∈ m.toList) →
      Matches n m ∧
      ∀ acts acts' : List (Allocator × κ × Act ν),
        (acts.map Prod.snd).Perm (acts'.map Prod.snd) →
        (acts.map Prod.snd).Pairwise (Act.Apart m.less) →
        (∀ outcome ∈ (m.actEach acts).1, ¬ outcome.IsShortage) →
        (∀ outcome ∈ (n.actEach acts').1, ¬ outcome.IsShortage) →
        ((acts.map Prod.snd).zip (m.actEach acts).1).Perm
            ((acts'.map Prod.snd).zip (n.actEach acts').1) ∧
          ∃ r s, (m.actEach acts).2.first = some r ∧ (n.actEach acts').2.first = some s ∧
            Matches s r) ∧
    ∀ memory key value n, insert memory key value m = .ok () n →
      ∃ r, remove key n = .ok value r ∧ Matches r m := by
  have hproper := hm.proper
  refine ⟨fun n hn hless hsame => ?_, fun memory key value n => hproper.remove_inserted⟩
  have hascending : Ascending m.less n.toList := hless ▸ hn.proper.ascending
  have hlist : n.toList = m.toList :=
    hascending.eq_of_mem_iff hproper.weak hproper.ascending hsame
  refine ⟨.of_toList_eq hless hlist, fun acts acts' hperm hapart hmemory hmemory' => ?_⟩
  have htells : Tells hproper.weak (byClass hproper.weak m.toList) n :=
    ⟨hless, hascending, by rw [hlist]⟩
  have hapart' := hapart.perm hperm symm
  obtain ⟨houtcomes, r, hr, hleft⟩ := hproper.tells.actEach hapart hmemory
  obtain ⟨houtcomes', s, hs, hleft'⟩ := htells.actEach hapart' hmemory'
  rw [Act.foldl_change_perm _ _ hperm hapart] at hleft
  refine ⟨?_, r, s, hr, hs, .of_toList_eq ?_ (hleft'.toList_eq hleft)⟩
  · rw [houtcomes, houtcomes', ← List.map_prod_left_eq_zip, ← List.map_prod_left_eq_zip]
    exact hperm.map _
  · exact hleft'.less_eq.trans hleft.less_eq.symm

namespace CanonicalFormWitness

/-- Keys 3 and 13 are one key, of which the first one stays. -/
def operations : List (Place × Allocator × Command UInt8 UInt8) :=
  [(.first, .addressSpace, .new (lessBy FiniteMapWitness.lastDigit)),
    (.first, .addressSpace, .insert 3 1), (.first, .addressSpace, .insert 1 2),
    (.first, .addressSpace, .insertOrAssign 13 4), (.first, .addressSpace, .insert 8 5),
    (.first, .addressSpace, .remove 18)]

/-- The same entries come together in another way; then memory is lacking for one more. -/
def operations' : List (Place × Allocator × Command UInt8 UInt8) :=
  [(.second, .addressSpace, .new (lessBy FiniteMapWitness.lastDigit)),
    (.second, .addressSpace, .insertOrAssign 21 9), (.second, .addressSpace, .insert 3 7),
    (.second, .addressSpace, .clear), (.second, .addressSpace, .insert 1 2),
    (.second, .addressSpace, .insert 3 1), (.second, .addressSpace, .set? 13 4)]

def left : Option (SortedMap UInt8 UInt8) :=
  (Workspace.vacant.runEach Command.effect operations).2.first

def left' : Option (SortedMap UInt8 UInt8) :=
  (Workspace.vacant.runEach Command.effect operations').2.second

theorem operations_order : ∀ operation ∈ operations, operation.2.2.Orders := by
  simp [operations, Command.Orders, weakOrder_lessBy]

theorem operations_order' : ∀ operation ∈ operations', operation.2.2.Orders := by
  simp [operations', Command.Orders, weakOrder_lessBy]

/-- One key is new, one is taken away, and one is overwritten. -/
def acts : List (Allocator × UInt8 × Act UInt8) :=
  [(.addressSpace, 20, .insert 6), (.addressSpace, 11, .remove), (.addressSpace, 13, .set? 8)]

def acts' : List (Allocator × UInt8 × Act UInt8) :=
  [(.addressSpace, 13, .set? 8), (.addressSpace, 20, .insert 6), (.addressSpace, 11, .remove)]

/-- Two histories end with the same entries, and so do two orders of going on from there. -/
theorem run_has_canonical_form_histories :
    ∃ m ∈ left, ∃ n ∈ left', m.toList = [(1, 2), (3, 4)] ∧ Matches n m ∧
      ∃ r s, (m.actEach acts).2.first = some r ∧ (n.actEach acts').2.first = some s ∧
        r.toList = [(20, 6), (3, 8)] ∧ Matches s r := by
  have hsome : left.isSome = true := by decide +kernel
  have hsome' : left'.isSome = true := by decide +kernel
  have hlist : left.map toList = some [(1, 2), (3, 4)] := by decide +kernel
  have hlist' : left'.map toList = some [(1, 2), (3, 4)] := by decide +kernel
  have hend : left.map (fun m => (m.actEach acts).2.first.map toList) =
      some (some [(20, 6), (3, 8)]) := by decide +kernel
  have hmemory : ∀ m ∈ left, ∀ outcome ∈ (m.actEach acts).1, ¬ outcome.IsShortage := by
    decide +kernel
  have hmemory' : ∀ n ∈ left', ∀ outcome ∈ (n.actEach acts').1, ¬ outcome.IsShortage := by
    decide +kernel
  obtain ⟨m, hm⟩ := Option.isSome_iff_exists.mp hsome
  obtain ⟨n, hn⟩ := Option.isSome_iff_exists.mp hsome'
  rw [hm, Option.map_some, Option.some_inj] at hlist hend
  rw [hn, Option.map_some, Option.some_inj] at hlist'
  have hweak := weakOrder_lessBy FiniteMapWitness.lastDigit
  have hless : m.less = lessBy FiniteMapWitness.lastDigit :=
    runEach_less hweak (by simp [operations, Command.predicate?]) .first m hm
  have hless' : n.less = lessBy FiniteMapWitness.lastDigit :=
    runEach_less hweak (by simp [operations', Command.predicate?]) .second n hn
  obtain ⟨hsame, -⟩ := run_has_canonical_form ⟨operations, .first, operations_order, hm⟩
  obtain ⟨hmatches, hacts⟩ := hsame n ⟨operations', .second, operations_order', hn⟩
    (hless'.trans hless.symm) (by simp [hlist, hlist'])
  have hapart : (acts.map Prod.snd).Pairwise (Act.Apart m.less) := by
    rw [hless]
    simp [acts, Act.Apart, Tied, lessBy, FiniteMapWitness.lastDigit]
  have hperm : (acts.map Prod.snd).Perm (acts'.map Prod.snd) := by decide
  obtain ⟨-, r, s, hr, hs, hrs⟩ := hacts acts acts' hperm hapart (hmemory m hm) (hmemory' n hn)
  rw [hr, Option.map_some, Option.some_inj] at hend
  exact ⟨m, hm, n, hn, hlist, hmatches, r, s, hr, hs, hend, hrs⟩

end CanonicalFormWitness

end SortedMap

end Containers
