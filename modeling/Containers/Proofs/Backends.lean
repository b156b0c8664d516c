/-
The containers behind a queue cannot be told apart, except by the memory that they
need.  Each of them does to the list that it is seen as what the plain list does, and
so does a queue with two ends over any of them.
-/
import Containers.Deque
import Containers.Proofs.PlainList
import Containers.Proofs.RingList

namespace Containers

namespace Sequence

variable {σ τ α β ε : Type}

/-! ### Parts of larger containers -/

/-- A result for a part, as a result for the whole. -/
def carry (whole : σ → τ) : EStateM.Result ε σ β → EStateM.Result ε τ β
  | .ok reply s => .ok reply (whole s)
  | .error error s => .error error (whole s)

theorem leftBy_carry (whole : σ → τ) (result : EStateM.Result ε σ β) :
    leftBy (carry whole result) = whole (leftBy result) := by
  cases result <;> rfl

theorem attempt_carry {IsShortage : ε → Prop} {s : σ} {Done : σ → Prop} (whole : σ → τ)
    {result : EStateM.Result ε σ Unit} (h : Attempt IsShortage s Done result) :
    Attempt IsShortage (whole s) (fun t => ∃ s, whole s = t ∧ Done s) (carry whole result) := by
  cases h with
  | done hdone => exact .done ⟨_, rfl, hdone⟩
  | short hshort => exact .short hshort

/-- Every operation on the whole is the operation on the part. -/
structure Embeds [Sequence σ α] [Sequence τ α] (whole : σ → τ) : Prop where
  toList_eq : ∀ s, Sequence.toList (whole s) = Sequence.toList s
  size_eq : ∀ s, Sequence.size (whole s) = Sequence.size s
  get?_eq : ∀ s i, Sequence.get? (whole s) i = Sequence.get? s i
  front?_eq : ∀ s, Sequence.front? (whole s) = Sequence.front? s
  back?_eq : ∀ s, Sequence.back? (whole s) = Sequence.back? s
  set?_eq : ∀ i v s, Sequence.set? i v (whole s) = Prod.map id whole (Sequence.set? i v s)
  pushBack_eq : ∀ memory v s,
    Sequence.pushBack memory v (whole s) = carry whole (Sequence.pushBack memory v s)
  pushFront_eq : ∀ memory v s,
    Sequence.pushFront memory v (whole s) = carry whole (Sequence.pushFront memory v s)
  popBack?_eq : ∀ s, Sequence.popBack? (whole s) = Prod.map id whole (Sequence.popBack? s)
  popFront?_eq : ∀ s, Sequence.popFront? (whole s) = Prod.map id whole (Sequence.popFront? s)
  insert_eq : ∀ memory i v s,
    Sequence.insert memory i v (whole s) = carry whole (Sequence.insert memory i v s)
  erase_eq : ∀ i s, Sequence.erase i (whole s) = carry whole (Sequence.erase i s)
  clear_eq : ∀ s, Sequence.clear (whole s) = whole (Sequence.clear s)

/-- The whole is seen as the list that the part is seen as. -/
def Within (whole : σ → τ) (View : σ → List α → Prop) (t : τ) (xs : List α) : Prop :=
  ∃ s, whole s = t ∧ View s xs

theorem Laws.within [Sequence σ α] [Sequence τ α] {View : σ → List α → Prop} {whole : σ → τ}
    (h : Laws View) (hwhole : Embeds whole) : Laws (Within whole View) where
  toList_eq := by
    rintro _ xs ⟨s, rfl, hs⟩
    rw [hwhole.toList_eq, h.toList_eq hs]
  size_eq := by
    rintro _ xs ⟨s, rfl, hs⟩
    rw [hwhole.size_eq, h.size_eq hs]
  get?_eq := by
    rintro _ xs ⟨s, rfl, hs⟩ i
    rw [hwhole.get?_eq, h.get?_eq hs]
  front?_eq := by
    rintro _ xs ⟨s, rfl, hs⟩
    rw [hwhole.front?_eq, h.front?_eq hs]
  back?_eq := by
    rintro _ xs ⟨s, rfl, hs⟩
    rw [hwhole.back?_eq, h.back?_eq hs]
  set?_fst := by
    rintro _ xs ⟨s, rfl, hs⟩ i v
    rw [hwhole.set?_eq]
    exact h.set?_fst hs i v
  set?_snd := by
    rintro _ xs ⟨s, rfl, hs⟩ i v
    rw [hwhole.set?_eq]
    exact ⟨_, rfl, h.set?_snd hs i v⟩
  pushBack_attempt := by
    rintro _ xs ⟨s, rfl, hs⟩ memory v
    rw [hwhole.pushBack_eq]
    exact attempt_carry whole (h.pushBack_attempt hs memory v)
  pushFront_attempt := by
    rintro _ xs ⟨s, rfl, hs⟩ memory v
    rw [hwhole.pushFront_eq]
    exact attempt_carry whole (h.pushFront_attempt hs memory v)
  popBack?_fst := by
    rintro _ xs ⟨s, rfl, hs⟩
    rw [hwhole.popBack?_eq]
    exact h.popBack?_fst hs
  popBack?_snd := by
    rintro _ xs ⟨s, rfl, hs⟩
    rw [hwhole.popBack?_eq]
    exact ⟨_, rfl, h.popBack?_snd hs⟩
  popFront?_fst := by
    rintro _ xs ⟨s, rfl, hs⟩
    rw [hwhole.popFront?_eq]
    exact h.popFront?_fst hs
  popFront?_snd := by
    rintro _ xs ⟨s, rfl, hs⟩
    rw [hwhole.popFront?_eq]
    exact ⟨_, rfl, h.popFront?_snd hs⟩
  insert_attempt := by
    rintro _ xs ⟨s, rfl, hs⟩ memory i v hi
    rw [hwhole.insert_eq]
    exact attempt_carry whole (h.insert_attempt hs memory v hi)
  insert_refused := by
    rintro _ xs ⟨s, rfl, hs⟩ memory i v hi
    rw [hwhole.insert_eq, h.insert_refused hs memory v hi]
    rfl
  erase_ok := by
    rintro _ xs ⟨s, rfl, hs⟩ i v hv
    obtain ⟨t, herase, ht⟩ := h.erase_ok hs hv
    rw [hwhole.erase_eq, herase]
    exact ⟨whole t, rfl, t, rfl, ht⟩
  erase_refused := by
    rintro _ xs ⟨s, rfl, hs⟩ i hi
    rw [hwhole.erase_eq, h.erase_refused hs hi]
    rfl
  clear_view := by
    rintro _ xs ⟨s, rfl, hs⟩
    rw [hwhole.clear_eq]
    exact ⟨_, rfl, h.clear_view hs⟩

end Sequence

/-! ### Arrays -/

namespace DynArray

variable {α : Type} [Element α]

/-- An attempt on an array, reported as one on a sequence. -/
theorem attempt_array {step : EStateM ArrayError (DynArray α) Unit} {a : DynArray α}
    {xs ys : List α} (hys : xs = ys) (h : Attempt ArrayError.IsShortage a (Widened a xs) (step a)) :
    Attempt Error.IsShortage a (fun b => b.toList = ys) (step.adaptExcept Error.array a) := by
  subst hys
  have hadapt : Attempt Error.IsShortage a (Widened a xs) (step.adaptExcept Error.array a) :=
    h.adaptExcept Error.array fun _ hshort => hshort
  exact hadapt.mono fun b hb => hb.toList_eq

/-- An array is seen as the list of its elements, whatever its capacity and its policy
are. -/
theorem laws : Sequence.Laws fun (a : DynArray α) xs => a.toList = xs where
  toList_eq h := h
  size_eq {a _} h := h ▸ a.size_eq_length
  get?_eq {a _} h i := h ▸ a.get?_eq_getElem? i
  front?_eq {a _} h := h ▸ a.front?_eq_head?
  back?_eq {a _} h := h ▸ a.back?_eq_getLast?
  set?_fst {a _} h i v := h ▸ set?_fst i v a
  set?_snd {a _} h i v := h ▸ toList_set? i v a
  pushBack_attempt {a _} h memory v :=
    h ▸ attempt_array rfl (DynArray.pushBack_attempt memory v a)
  pushFront_attempt {a _} h memory v :=
    h ▸ attempt_array List.insertIdx_zero (insertAt_attempt memory 0 v a)
  popBack?_fst {a _} h := h ▸ DynArray.popBack?_fst a
  popBack?_snd {a _} h := h ▸ (popBack?_narrowed a).toList_eq
  popFront?_fst {a _} h := h ▸ DynArray.popFront?_fst a
  popFront?_snd {a _} h := h ▸ (popFront?_narrowed a).toList_eq
  insert_attempt {a xs} h memory i v hi := by
    subst h
    refine attempt_array rfl ?_
    unfold insertChecked
    rw [a.size_eq_length, if_neg (Nat.not_lt.mpr hi)]
    exact insertAt_attempt memory i v a
  insert_refused {a xs} h memory i v hi := by
    subst h
    change (insertChecked memory i v).adaptExcept Error.array a = _
    unfold EStateM.adaptExcept insertChecked
    rw [a.size_eq_length, if_pos hi]
  erase_ok {a xs} h i v hv := by
    subst h
    refine ⟨a.removeAt i, ?_, toList_removeAt i a⟩
    change (removeChecked i).adaptExcept Error.array a = _
    unfold EStateM.adaptExcept removeChecked
    rw [a.get?_eq_getElem?, hv]
  erase_refused {a xs} h i hi := by
    subst h
    change (removeChecked i).adaptExcept Error.array a = _
    unfold EStateM.adaptExcept removeChecked
    rw [a.get?_eq_getElem?, List.getElem?_eq_none hi, a.size_eq_length]
  clear_view {a _} _ := toList_clear a

end DynArray

/-! ### Chains -/

namespace Chain

variable {α : Type}

/-- A split at the index of a node puts that node in front of the second part, so that
there is something to take away. -/
theorem popFront?_split {c : Chain α} {i : Nat} (hi : i < c.nodes.length) :
    popFront? (c.split i).2 = (some c.nodes[i], ⟨c.nodes.drop (i + 1)⟩) := by
  unfold popFront? split
  rw [List.splitAt_eq]
  dsimp only
  rw [List.drop_eq_getElem_cons hi]

theorem erase_of_lt {c : Chain α} {i : Nat} (hi : i < c.nodes.length) :
    erase i c = .ok c.nodes[i] ⟨c.nodes.eraseIdx i⟩ := by
  have hpop := popFront?_split hi
  have hsplit : (c.split i).1 = ⟨c.nodes.take i⟩ := by
    rw [split, List.splitAt_eq]
  unfold erase
  rw [size, if_neg (Nat.not_le.mpr hi)]
  dsimp only
  rw [hpop, hsplit, List.eraseIdx_eq_take_drop_succ]
  rfl

theorem insert_of_le {c : Chain α} {i : Nat} (v : α) (hi : i ≤ c.nodes.length) :
    insert i v c = .ok () ⟨c.nodes.insertIdx i v⟩ := by
  unfold insert
  rw [size, if_neg (Nat.not_lt.mpr hi), split, List.splitAt_eq,
    Sequence.insertIdx_eq_append v hi]
  rfl

/-- A chain is seen as the list of its nodes, and never lacks memory. -/
theorem laws : Sequence.Laws fun (c : Chain α) xs => c.nodes = xs where
  toList_eq h := h
  size_eq h := congrArg List.length h
  get?_eq h i := h ▸ rfl
  front?_eq h := congrArg List.head? h
  back?_eq h := congrArg List.getLast? h
  set?_fst h i v := h ▸ rfl
  set?_snd h i v := h ▸ rfl
  pushBack_attempt h _ _ := .done (h ▸ rfl)
  pushFront_attempt h _ _ := .done (h ▸ rfl)
  popBack?_fst h := congrArg List.getLast? h
  popBack?_snd h := congrArg List.dropLast h
  popFront?_fst {c xs} h := by
    obtain ⟨nodes⟩ := c
    subst h
    cases nodes <;> rfl
  popFront?_snd {c xs} h := by
    obtain ⟨nodes⟩ := c
    subst h
    cases nodes <;> rfl
  insert_attempt {c xs} h _ i v hi := by
    subst h
    change Attempt Error.IsShortage c _ (insert i v c)
    rw [insert_of_le v hi]
    exact .done rfl
  insert_refused {c xs} h _ i v hi := by
    subst h
    change insert i v c = _
    unfold insert
    rw [size, if_pos hi]
  erase_ok {c xs} h i v hv := by
    subst h
    obtain ⟨hi, rfl⟩ := List.getElem?_eq_some_iff.mp hv
    exact ⟨_, erase_of_lt hi, rfl⟩
  erase_refused {c xs} h i hi := by
    subst h
    change erase i c = _
    unfold erase
    rw [size, if_pos hi]
  clear_view _ := rfl

end Chain

/-! ### Rings -/

namespace Ring

variable {α : Type} [Element α]

/-- A ring is seen as the list that it shows. -/
theorem laws : Sequence.Laws fun (r : Ring α) xs => r.Shows xs where
  toList_eq h := h.toList_eq
  size_eq h := h.size_eq
  get?_eq h i := h.get?_eq i
  front?_eq h := (h.get?_eq 0).trans List.head?_eq_getElem?.symm
  back?_eq {r xs} h := by
    change (if r.size = 0 then none else r.get? (r.size - 1)) = _
    rw [h.size_eq, h.get?_eq, List.getLast?_eq_getElem?]
    split
    · rename_i hzero
      rw [hzero, List.eq_nil_of_length_eq_zero hzero]
      rfl
    · rfl
  set?_fst {r xs} h i v := by
    change (set? i v r).1 = _
    unfold set?
    rw [h.get?_eq]
    cases xs[i]? <;> rfl
  set?_snd {r xs} h i v := by
    change Shows (set? i v r).2 _
    unfold set?
    rw [h.get?_eq]
    cases hv : xs[i]? with
    | some previous => exact h.set v (List.getElem?_eq_some_iff.mp hv).1
    | none =>
        rw [List.set_eq_of_length_le (List.getElem?_eq_none_iff.mp hv)]
        exact h
  pushBack_attempt h memory v := Ring.pushBack_attempt memory v h
  pushFront_attempt h memory v := Ring.pushFront_attempt memory v h
  popBack?_fst h := h.popBack?.1
  popBack?_snd h := h.popBack?.2
  popFront?_fst h := h.popFront?.1
  popFront?_snd h := h.popFront?.2
  insert_attempt h memory _ v hi := Ring.insert_attempt memory v h hi
  insert_refused {r xs} h memory i v hi := by
    change insert memory i v r = _
    unfold insert
    rw [h.size_eq, if_pos hi]
  erase_ok h _ v hv :=
    ⟨_, h.erase_of_lt hv, h.removeAt (List.getElem?_eq_some_iff.mp hv).1⟩
  erase_refused {r xs} h i hi := by
    change erase i r = _
    unfold erase
    rw [h.get?_eq, List.getElem?_eq_none hi, h.size_eq]
  clear_view _ := shows_nil rfl rfl

end Ring

/-! ### Backends and deques -/

namespace Backend

variable {σ α : Type} [Element α] [Sequence σ α]

/-- A constructor that looks, changes and attempts go through embeds what it is applied
to. -/
theorem embeds {whole : σ → Backend α}
    (hlook : ∀ (β : Type) (f : (σ : Type) → [Sequence σ α] → σ → β) (s : σ),
      look f (whole s) = f σ s)
    (hchange : ∀ (β : Type) (f : (σ : Type) → [Sequence σ α] → StateM σ β) (s : σ),
      change f (whole s) = Prod.map id whole (f σ s))
    (hattempt : ∀ (ε β : Type) (f : (σ : Type) → [Sequence σ α] → EStateM ε σ β) (s : σ),
      attempt f (whole s) = Sequence.carry whole (f σ s)) :
    Sequence.Embeds whole where
  toList_eq := hlook _ _
  size_eq := hlook _ _
  get?_eq s _ := hlook _ _ s
  front?_eq := hlook _ _
  back?_eq := hlook _ _
  set?_eq _ _ := hchange _ _
  pushBack_eq _ _ := hattempt _ _ _
  pushFront_eq _ _ := hattempt _ _ _
  popBack?_eq := hchange _ _
  popFront?_eq := hchange _ _
  insert_eq _ _ _ := hattempt _ _ _
  erase_eq _ := hattempt _ _ _
  clear_eq s := congrArg Prod.snd (hchange Unit (fun _ _ s => ((), Sequence.clear s)) s)

theorem embeds_array : Sequence.Embeds (array : DynArray α → Backend α) :=
  embeds (fun _ _ _ => rfl) (fun _ _ _ => rfl) fun _ _ f s => by
    unfold attempt Sequence.carry
    dsimp only
    cases f _ s <;> rfl

theorem embeds_chain : Sequence.Embeds (chain : Chain α → Backend α) :=
  embeds (fun _ _ _ => rfl) (fun _ _ _ => rfl) fun _ _ f s => by
    unfold attempt Sequence.carry
    dsimp only
    cases f _ s <;> rfl

theorem embeds_ring : Sequence.Embeds (ring : Ring α → Backend α) :=
  embeds (fun _ _ _ => rfl) (fun _ _ _ => rfl) fun _ _ f s => by
    unfold attempt Sequence.carry
    dsimp only
    cases f _ s <;> rfl

end Backend

namespace Plan

variable {α : Type} [Element α]

/-- How the containers that a plan makes are seen. -/
def Shows : Plan → Backend α → List α → Prop
  | array _ => Sequence.Within Backend.array fun a xs => a.toList = xs
  | chain => Sequence.Within Backend.chain fun c xs => c.nodes = xs
  | ring => Sequence.Within Backend.ring fun r xs => r.Shows xs

theorem laws (plan : Plan) : Sequence.Laws (plan.Shows : Backend α → List α → Prop) := by
  cases plan with
  | array parameters => exact DynArray.laws.within Backend.embeds_array
  | chain => exact Chain.laws.within Backend.embeds_chain
  | ring => exact Ring.laws.within Backend.embeds_ring

/-- An array is made by adding the elements of the list one by one. -/
theorem makeWith_array {memory : Allocator} {xs : List α} {parameters : Policy.Parameters}
    {b : Backend α} (h : (Plan.array parameters).makeWith memory xs = .ok b) :
    ∃ a : DynArray α, a.toList = xs ∧ Backend.array a = b := by
  obtain ⟨a, hmade, rfl⟩ := map_eq_ok (mapError_eq_ok h)
  obtain ⟨empty, hempty, hfilled⟩ := bind_eq_ok hmade
  obtain ⟨policy, -, hpolicy⟩ := DynArray.exists_policy_of_ofParameters hempty
  have hnil : empty.toList = [] := (DynArray.ofPolicy_widened hpolicy).1.toList_eq
  have ha := (DynArray.pushBackAll_widened (DynArray.built_eq_ok hfilled)).toList_eq
  rw [hnil, List.nil_append] at ha
  exact ⟨a, ha, rfl⟩

theorem shows_makeWith {memory : Allocator} {plan : Plan} {xs : List α} {b : Backend α}
    (h : plan.makeWith memory xs = .ok b) : plan.Shows b xs := by
  cases plan with
  | array parameters =>
      obtain ⟨a, ha, rfl⟩ := makeWith_array h
      exact ⟨a, rfl, ha⟩
  | chain =>
      obtain rfl := Except.ok.inj h
      exact ⟨_, rfl, rfl⟩
  | ring =>
      obtain ⟨r, hring, rfl⟩ := map_eq_ok h
      exact ⟨r, rfl, Ring.ofList_shows hring⟩

theorem shows_make {memory : Allocator} {plan : Plan} {b : Backend α}
    (h : plan.make memory = .ok b) : plan.Shows b [] := by
  cases plan with
  | array parameters =>
      obtain ⟨a, hmade, rfl⟩ := map_eq_ok (mapError_eq_ok h)
      obtain ⟨policy, -, hpolicy⟩ := DynArray.exists_policy_of_ofParameters hmade
      exact ⟨a, rfl, (DynArray.ofPolicy_widened hpolicy).1.toList_eq⟩
  | chain =>
      obtain rfl := Except.ok.inj h
      exact ⟨_, rfl, rfl⟩
  | ring =>
      obtain rfl := Except.ok.inj h
      exact ⟨_, rfl, Ring.shows_nil rfl rfl⟩

end Plan

namespace Deque

section

variable {π σ α : Type} [Sequence σ α]

theorem attempt_mk {ε β : Type} (table : Table π) (f : EStateM ε σ β) (s : σ) :
    attempt f ⟨table, s⟩ = Sequence.carry (Deque.mk table) (f s) := by
  cases hresult : f s <;> simp [attempt, Sequence.carry, hresult]

theorem embeds (table : Table π) : Sequence.Embeds (Deque.mk table : σ → Deque π σ) where
  toList_eq _ := rfl
  size_eq _ := rfl
  get?_eq _ _ := rfl
  front?_eq _ := rfl
  back?_eq _ := rfl
  set?_eq _ _ _ := rfl
  pushBack_eq memory v := attempt_mk table (Sequence.pushBack memory v)
  pushFront_eq memory v := attempt_mk table (Sequence.pushFront memory v)
  popBack?_eq _ := rfl
  popFront?_eq _ := rfl
  insert_eq memory i v := attempt_mk table (Sequence.insert memory i v)
  erase_eq i := attempt_mk table (Sequence.erase i)
  clear_eq _ := rfl

theorem popFront_eq_elim (d : Deque π σ) :
    popFront d = (Sequence.popFront? d).1.elim
      (.error (.empty .pop .deque) (Sequence.popFront? d).2)
      (.ok · (Sequence.popFront? d).2) := by
  unfold popFront
  rcases Sequence.popFront? d with ⟨_ | v, e⟩ <;> rfl

theorem popBack_eq_elim (d : Deque π σ) :
    popBack d = (Sequence.popBack? d).1.elim
      (.error (.empty .pop .deque) (Sequence.popBack? d).2)
      (.ok · (Sequence.popBack? d).2) := by
  unfold popBack
  rcases Sequence.popBack? d with ⟨_ | v, e⟩ <;> rfl

end

variable {α : Type} [Element α]

/-- A deque is seen as its container is, whatever plan that was made by: after an
exchange the table need not be the one that it was made by. -/
def Shows (d : Deque Plan (Backend α)) (xs : List α) : Prop :=
  ∃ i : Table Plan × Plan, Sequence.Within (Deque.mk i.1) i.2.Shows d xs

theorem shows_mk {plan : Plan} {b : Backend α} {xs : List α} (h : plan.Shows b xs)
    (table : Table Plan) : Shows ⟨table, b⟩ xs :=
  ⟨(table, plan), b, rfl, h⟩

theorem Shows.withTable {d : Deque Plan (Backend α)} {xs : List α} (h : d.Shows xs)
    (table : Table Plan) : Shows ⟨table, d.backend⟩ xs := by
  obtain ⟨⟨_, plan⟩, b, rfl, hb⟩ := h
  exact shows_mk hb table

theorem laws : Sequence.Laws (Shows : Deque Plan (Backend α) → List α → Prop) :=
  Sequence.Laws.exists fun i => i.2.laws.within (embeds i.1)

theorem shows_ofListIn {memory : Allocator} {table : Table Plan} {xs : List α}
    {d : Deque Plan (Backend α)} (h : ofListIn memory table xs = .ok d) : d.Shows xs := by
  obtain ⟨b, hb, hd⟩ := bind_eq_ok h
  obtain rfl := Except.ok.inj hd
  exact shows_mk (Plan.shows_makeWith hb) table

theorem shows_ofTable {memory : Allocator} {table : Table Plan} {d : Deque Plan (Backend α)}
    (h : ofTable memory table = .ok d) : d.Shows [] := by
  obtain ⟨b, hb, hd⟩ := bind_eq_ok h
  obtain rfl := Except.ok.inj hd
  exact shows_mk (Plan.shows_make hb) table

/-- The deque is seen as some list. -/
def Sound (d : Deque Plan (Backend α)) : Prop := ∃ xs, d.Shows xs

theorem Sound.exchange {d e : Deque Plan (Backend α)} (hd : d.Sound) (he : e.Sound) :
    (leftBy (Deque.exchange (d, e))).1.Sound ∧ (leftBy (Deque.exchange (d, e))).2.Sound := by
  obtain ⟨xs, hxs⟩ := hd
  obtain ⟨ys, hys⟩ := he
  unfold Deque.exchange
  dsimp only
  split
  · exact ⟨⟨xs, hxs⟩, ⟨ys, hys⟩⟩
  · split
    · exact ⟨⟨xs, hxs⟩, ⟨ys, hys⟩⟩
    · exact ⟨⟨ys, hys.withTable d.table⟩, ⟨xs, hxs.withTable e.table⟩⟩

theorem Command.keeps_sound (memory : Allocator) (command : Command Plan α) :
    (command.effect memory).Keeps (Sound (α := α)) := by
  cases command with
  | ofTable table => exact fun d hd => ⟨[], shows_ofTable hd⟩
  | ofListIn table xs => exact fun d hd => ⟨xs, shows_ofListIn hd⟩
  | sequence command => exact laws.keeps memory command
  | front | back => exact Effect.keeps_lookAsserted _
  | popFront =>
      refine Effect.keeps_asserted fun d ⟨xs, hd⟩ => ?_
      rw [leftBy_map, popFront_eq_elim, leftBy_elim]
      exact ⟨_, laws.popFront?_snd hd⟩
  | popBack =>
      refine Effect.keeps_asserted fun d ⟨xs, hd⟩ => ?_
      rw [leftBy_map, popBack_eq_elim, leftBy_elim]
      exact ⟨_, laws.popBack?_snd hd⟩
  | exchange =>
      refine Effect.keeps_jointAsserted fun d e hd he => ?_
      rw [leftBy_silently]
      exact hd.exchange he

theorem Command.run_sound (operations : List (Place × Allocator × Command Plan α)) :
    (Workspace.vacant.runEach Command.effect operations).2.Holds (Sound (α := α)) :=
  Workspace.holds_runEach fun operation _ => operation.2.2.keeps_sound operation.2.1

/-- A deque that is made with a list acts as that list, whatever its table makes. -/
theorem ofListIn_actsAsList {memory : Allocator} {table : Table Plan} {xs : List α}
    {d : Deque Plan (Backend α)} (h : ofListIn memory table xs = .ok d) :
    Sequence.ActsAsList d xs :=
  laws.actsAsList (shows_ofListIn h)

end Deque

namespace Sequence

/-- Arrays of any capacity and policy, chains, rings and deques over any of them, made
with one list, act as that list.  A chain that is split in front of an element always
finds the element there. -/
theorem containers_act_as_list {α : Type} [Element α] (memory : Allocator) (xs : List α) :
    (∀ a : DynArray α, a.toList = xs → ActsAsList a xs) ∧
      ActsAsList (Chain.ofList xs) xs ∧
      (∀ r : Ring α, Ring.ofList memory xs = .ok r → ActsAsList r xs) ∧
      (∀ (table : Table Plan) (d : Deque Plan (Backend α)),
        Deque.ofListIn memory table xs = .ok d → ActsAsList d xs) ∧
      ∀ (c : Chain α) (i : Nat), ¬ c.size ≤ i → (Chain.popFront? (c.split i).2).1 ≠ none := by
  refine ⟨fun a ha => DynArray.laws.actsAsList ha, Chain.laws.actsAsList rfl,
    fun r hr => Ring.laws.actsAsList (Ring.ofList_shows hr),
    fun table d hd => Deque.ofListIn_actsAsList hd, fun c i hi => ?_⟩
  rw [Chain.popFront?_split (Nat.lt_of_not_le hi)]
  exact Option.some_ne_none _

namespace ActsAsListWitness

/-- Both ends, the middle, and three indices that are out of range.  Once a fourth element was
added, no more memory is needed. -/
def operations : List (Allocator × Command UInt8) :=
  (.addressSpace, .insert 1 9) ::
    [.erase 7, .popFront?, .set 5 0, .pushFront 4, .insert 8 1, .erase 0, .popBack?, .set? 1 6,
      .pushBack 2].map fun command => (.exhausted, command)

def spared {σ : Type} [Sequence σ UInt8] (s : σ) : Bool :=
  (Command.runOn s operations).1.all fun outcome => decide (¬ outcome.IsShortage)

theorem exists_spared {σ ε : Type} [Sequence σ UInt8] {made : Except ε σ}
    (h : made.toOption.any spared = true) :
    ∃ s, made = .ok s ∧
      ∀ outcome ∈ (Command.runOn s operations).1, ¬ outcome.IsShortage := by
  cases made with
  | ok s => exact ⟨s, rfl, by simpa [spared, Except.toOption] using h⟩
  | error error => contradiction

theorem containers_act_as_list_mixed :
    ∃ (a : DynArray UInt8) (r : Ring UInt8) (d : Deque Plan (Backend UInt8)),
      DynArray.ofList .addressSpace [1, 2, 3] = .ok a ∧
      Ring.ofList .addressSpace [1, 2, 3] = .ok r ∧
      Deque.ofListIn .addressSpace .array [1, 2, 3] = .ok d ∧
      (Command.runOn a operations).1 = (Command.runOn r operations).1 ∧
      (Command.runOn r operations).1 = (Command.runOn d operations).1 := by
  obtain ⟨a, ha, hmemoryA⟩ := exists_spared
    (show (DynArray.ofList .addressSpace ([1, 2, 3] : List UInt8)).toOption.any spared = true by
      decide +kernel)
  obtain ⟨r, hr, hmemoryR⟩ := exists_spared
    (show (Ring.ofList .addressSpace ([1, 2, 3] : List UInt8)).toOption.any spared = true by
      decide +kernel)
  obtain ⟨d, hd, hmemoryD⟩ := exists_spared
    (show (Deque.ofList .addressSpace ([1, 2, 3] : List UInt8)).toOption.any spared = true by
      decide +kernel)
  obtain ⟨empty, -, hwide⟩ := DynArray.ofList_widened ha
  obtain ⟨harray, -, hring, hdeque, -⟩ :=
    containers_act_as_list .addressSpace ([1, 2, 3] : List UInt8)
  obtain ⟨_, hrunA, -⟩ := harray a hwide.toList_eq operations hmemoryA
  obtain ⟨_, hrunR, -⟩ := hring r hr operations hmemoryR
  obtain ⟨_, hrunD, -⟩ := hdeque .array d hd operations hmemoryD
  exact ⟨a, r, d, ha, hr, hd, by rw [hrunA, hrunR], by rw [hrunR, hrunD]⟩

end ActsAsListWitness

end Sequence

end Containers
