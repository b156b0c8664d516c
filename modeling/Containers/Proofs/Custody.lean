/-
Whose container a deque, a stack or a queue holds.  Exchanges move containers about, while
every holder keeps the table that it was asked from.  A note beside each holder says which
table made its container and what the container has been asked since; an exchange is
possible only between tables that agree, so the table that made a container always agrees
with the table of its holder.  Nothing is asked of what a table makes, but that it is a
sequence: whoever adds a table may make containers of any kind by it.
-/
import Containers.Proofs.Fleet
import Containers.Proofs.ServiceOrder
import Mathlib.Data.Option.NAry

namespace Containers

/-! ### Tables that agree -/

namespace Table

variable {π : Type} {t u v : Table π}

theorem agrees_iff : t.agrees u = true ↔ t.name = u.name ∧ t.type = u.type := by
  simp [agrees]

theorem agrees_refl (t : Table π) : t.agrees t = true := agrees_iff.mpr ⟨rfl, rfl⟩

theorem agrees_symm (h : t.agrees u = true) : u.agrees t = true := by
  rw [agrees_iff] at h ⊢
  exact ⟨h.1.symm, h.2.symm⟩

theorem agrees_trans (htu : t.agrees u = true) (huv : u.agrees v = true) :
    t.agrees v = true := by
  rw [agrees_iff] at htu huv ⊢
  exact ⟨htu.1.trans huv.1, htu.2.trans huv.2⟩

end Table

/-! ### Operations on a part -/

namespace Sequence

variable {σ τ α : Type} [Sequence σ α] [Sequence τ α]

theorem Command.isWork (memory : Allocator) (command : Command α) :
    (command.effect memory : Effect σ (Reply α)).IsWork := by
  cases command <;> trivial

/-- What an operation leaves of the whole is what it leaves of the part. -/
theorem Embeds.after {whole : σ → τ} (h : Embeds whole) (memory : Allocator)
    (command : Command α) (s : σ) :
    (command.effect memory).after (whole s) = whole ((command.effect memory).after s) := by
  cases command with
  | get? | front? | back? => rfl
  | set? i v => exact congrArg Prod.snd (h.set?_eq i v s)
  | set i v =>
      simp only [Command.effect, Effect.after_refusable, leftBy_map]
      unfold Sequence.set
      rw [h.set?_eq]
      rcases Sequence.set? i v s with ⟨_ | previous, t⟩ <;> rfl
  | pushBack v => simp [Command.effect, h.pushBack_eq, leftBy_carry]
  | pushFront v => simp [Command.effect, h.pushFront_eq, leftBy_carry]
  | popBack? => exact congrArg Prod.snd (h.popBack?_eq s)
  | popFront? => exact congrArg Prod.snd (h.popFront?_eq s)
  | insert i v => simp [Command.effect, h.insert_eq, leftBy_carry]
  | erase i => simp [Command.effect, h.erase_eq, leftBy_carry]
  | clear => exact h.clear_eq s

end Sequence

variable {π β α : Type}

theorem Deque.after_eq [Sequence β α] (memory : Allocator) (command : Sequence.Command α)
    (d : Deque π β) :
    (command.effect memory).after d = ⟨d.table, (command.effect memory).after d.backend⟩ :=
  (Deque.embeds d.table).after memory command d.backend

/-! ### Exchanges -/

/-- The operation was not allowed, and said so. -/
def Outcome.Denies {ρ : Type} (outcome : Outcome ρ) (message : String) : Prop :=
  ∃ violation : Violation, outcome = .violated violation ∧ violation.message = message

theorem Violation.message_differentTables (name left right : String) :
    (differentTables name left right).message =
      s!"Cannot swap deques built by different {name} tables: " ++ s!"{left} and {right}" := by
  unfold message
  simp only [toString, String.append_assoc]

namespace Deque

theorem exchange_of_agree {d e : Deque π β} (hname : d.table.name = e.table.name)
    (htype : d.table.type = e.table.type) :
    exchange (d, e) = .ok () (⟨d.table, e.backend⟩, ⟨e.table, d.backend⟩) := by
  simp [exchange, Table.agrees, hname, htype]

theorem exchange_of_name_ne {d e : Deque π β} (hname : d.table.name ≠ e.table.name) :
    exchange (d, e) = .error (.differentNames d.table.name e.table.name) (d, e) := by
  simp [exchange, hname]

theorem exchange_of_type_ne {d e : Deque π β} (hname : d.table.name = e.table.name)
    (htype : d.table.type ≠ e.table.type) :
    exchange (d, e) =
      .error (.differentTables d.table.name d.table.type e.table.type) (d, e) := by
  simp [exchange, Table.agrees, hname, htype]

end Deque

/-- How an exchange of what `d` and `e` hold ends, and what is left of them.  It takes place
exactly if the tables have one name and one type, and then all that changes hands are the
containers; otherwise nothing does. -/
structure Traded (d e : Deque π β) (outcome : Outcome (Reply α)) (d' e' : Deque π β) : Prop where
  returned_iff : outcome = .returned .nothing ↔
    d.table.name = e.table.name ∧ d.table.type = e.table.type
  exchanged : outcome = .returned .nothing →
    d' = ⟨d.table, e.backend⟩ ∧ e' = ⟨e.table, d.backend⟩
  differentNames : d.table.name ≠ e.table.name →
    outcome.Denies s!"Cannot swap a {d.table.name} deque with a {e.table.name} deque"
  differentTypes : d.table.name = e.table.name → d.table.type ≠ e.table.type →
    outcome.Denies (s!"Cannot swap deques built by different {d.table.name} tables: " ++
      s!"{d.table.type} and {e.table.type}")
  untouched : outcome ≠ .returned .nothing → d' = d ∧ e' = e

namespace Traded

variable {d e d' e' : Deque π β} {outcome : Outcome (Reply α)}

theorem of_agree (hname : d.table.name = e.table.name) (htype : d.table.type = e.table.type) :
    Traded d e (.returned (.nothing : Reply α)) ⟨d.table, e.backend⟩ ⟨e.table, d.backend⟩ where
  returned_iff := iff_of_true rfl ⟨hname, htype⟩
  exchanged _ := ⟨rfl, rfl⟩
  differentNames h := absurd hname h
  differentTypes _ h := absurd htype h
  untouched h := absurd rfl h

theorem of_name_ne (hname : d.table.name ≠ e.table.name) :
    Traded d e (.violated (.differentNames d.table.name e.table.name) : Outcome (Reply α))
      d e where
  returned_iff := iff_of_false nofun fun h => hname h.1
  exchanged := nofun
  differentNames _ := ⟨_, rfl, rfl⟩
  differentTypes h := absurd h hname
  untouched _ := ⟨rfl, rfl⟩

theorem of_type_ne (hname : d.table.name = e.table.name) (htype : d.table.type ≠ e.table.type) :
    Traded d e (.violated (.differentTables d.table.name d.table.type e.table.type) :
      Outcome (Reply α)) d e where
  returned_iff := iff_of_false nofun fun h => htype h.2
  exchanged := nofun
  differentNames h := absurd hname h
  differentTypes _ _ := ⟨_, rfl, Violation.message_differentTables _ _ _⟩
  untouched _ := ⟨rfl, rfl⟩

/-- Either all of it takes place, or nothing does. -/
theorem cases (h : Traded d e outcome d' e') :
    (outcome = .returned .nothing ∧ d.table.agrees e.table = true ∧
        d' = ⟨d.table, e.backend⟩ ∧ e' = ⟨e.table, d.backend⟩) ∨
      (∃ violation, outcome = .violated violation) ∧ d' = d ∧ e' = e := by
  by_cases hname : d.table.name = e.table.name
  · by_cases htype : d.table.type = e.table.type
    · have hreturned := h.returned_iff.mpr ⟨hname, htype⟩
      exact Or.inl ⟨hreturned, Table.agrees_iff.mpr ⟨hname, htype⟩, h.exchanged hreturned⟩
    · obtain ⟨violation, hviolated, -⟩ := h.differentTypes hname htype
      exact Or.inr ⟨⟨violation, hviolated⟩, h.untouched (by simp [hviolated])⟩
  · obtain ⟨violation, hviolated, -⟩ := h.differentNames hname
    exact Or.inr ⟨⟨violation, hviolated⟩, h.untouched (by simp [hviolated])⟩

end Traded

/-! ### Notes -/

/-- What is asked of a holder: to be built from a table, to pass an operation on to its
container, or to exchange that for another one. -/
inductive Request (π α : Type)
  | build (table : Table π) (elements? : Option (List α))
  | operate (command : Sequence.Command α)
  | exchange

/-- A note beside a holder: the table that it was built from, and of its container the table
that made it, the memory and the elements that it was made with, and what it was asked
since. -/
structure Note (π α : Type) where
  own : Table π
  maker : Table π
  memory : Allocator
  elements? : Option (List α)
  asked : List (Allocator × Sequence.Command α)

namespace Note

/-- A holder and its container are new. -/
def new (table : Table π) (memory : Allocator) (elements? : Option (List α)) : Note π α :=
  ⟨table, table, memory, elements?, []⟩

/-- One more operation is passed on. -/
def ask (memory : Allocator) (command : Sequence.Command α) (note : Note π α) : Note π α :=
  { note with asked := note.asked ++ [(memory, command)] }

/-- The container of another holder takes the place of the one that was there. -/
def take (note other : Note π α) : Note π α := { other with own := note.own }

/-- The notes on two holders after an operation on the first one, or on both, that ended in
this way. -/
def revise (request : Request π α) (memory : Allocator) (outcome : Outcome (Reply α))
    (here other : Option (Note π α)) : Option (Note π α) × Option (Note π α) :=
  match request, outcome with
  | .build table elements?, .accepted _ => (some (new table memory elements?), other)
  | .operate command, _ => (here.map (ask memory command), other)
  | .exchange, .returned _ => (Option.map₂ take here other, Option.map₂ take other here)
  | _, _ => (here, other)

variable [Maker π β α]

/-- The container as it was made. -/
def made (note : Note π α) : Except Error β :=
  match note.elements? with
  | none => Maker.make note.memory note.maker.plan
  | some xs => Maker.makeWith note.memory xs note.maker.plan

variable [Sequence β α]

/-- The container as it was made and then asked all that it was asked. -/
def replay (note : Note π α) : Except Error β :=
  note.made.map fun b : β =>
    note.asked.foldl (fun b (memory, command) => (command.effect memory).after b) b

/-- The note is true of a holder. -/
structure Tells (note : Note π α) (d : Deque π β) : Prop where
  table_eq : d.table = note.own
  replay_eq : note.replay = .ok d.backend
  agrees : note.maker.agrees d.table = true

/-- The note is true of what is within something. -/
def TellsOf {σ : Type} (deque : σ → Deque π β) (note : Note π α) (s : σ) : Prop :=
  note.Tells (deque s)

theorem tells_new {table : Table π} {memory : Allocator} {elements? : Option (List α)}
    {b : β} (h : (new table memory elements?).made = .ok b) :
    (new table memory elements?).Tells ⟨table, b⟩ :=
  ⟨rfl, by rw [replay, h]; rfl, table.agrees_refl⟩

theorem Tells.ask {note : Note π α} {d : Deque π β} (h : note.Tells d) (memory : Allocator)
    (command : Sequence.Command α) :
    (note.ask memory command).Tells ((command.effect memory).after d) := by
  rw [Deque.after_eq]
  refine ⟨h.table_eq, ?_, h.agrees⟩
  obtain ⟨b, hmade, hb⟩ := map_eq_ok h.replay_eq
  have hmade' : (note.ask memory command).made = .ok b := hmade
  rw [replay, hmade', ← hb]
  simp [Note.ask, Except.map]

theorem Tells.take {note other : Note π α} {d e : Deque π β} (hd : note.Tells d)
    (he : other.Tells e) (h : d.table.agrees e.table = true) :
    (note.take other).Tells ⟨d.table, e.backend⟩ :=
  ⟨hd.table_eq, he.replay_eq, Table.agrees_trans he.agrees (Table.agrees_symm h)⟩

end Note

/-! ### What each operation does -/

variable [Sequence β α] [Maker π β α] {σ γ : Type} {deque : σ → Deque π β} {memory : Allocator}

/-- The effect does what is asked to the deque that is held. -/
def Effect.Meets (deque : σ → Deque π β) (memory : Allocator) (effect : Effect σ (Reply α)) :
    Request π α → Prop
  | .build table elements? => ∃ result, effect = .make result .nothing ∧
      ∀ s, result = .ok s → (Note.new table memory elements?).Tells (deque s)
  | .operate command => effect.IsWork ∧
      ∀ s, deque (effect.after s) = (command.effect memory).after (deque s)
  | .exchange => ∃ change, effect = .joint change ∧ ∀ s t,
      Traded (deque s) (deque t) (change (s, t)).1 (deque (change (s, t)).2.1)
        (deque (change (s, t)).2.2)

/-- An operation keeps the notes true. -/
theorem Effect.Meets.keeps_notes {effect : Effect σ (Reply α)} {request : Request π α}
    (h : effect.Meets deque memory request) {noted noted' : Option (Note π α)}
    {here other : Option σ}
    (hhere : Option.Rel (Note.TellsOf deque) noted here)
    (hother : Option.Rel (Note.TellsOf deque) noted' other) :
    let result := Workspace.step here other effect
    Option.Rel (Note.TellsOf deque) (Note.revise request memory result.1 noted noted').1
        result.2.1 ∧
      Option.Rel (Note.TellsOf deque) (Note.revise request memory result.1 noted noted').2
        result.2.2 := by
  cases request with
  | build table elements? =>
      obtain ⟨result, rfl, hmade⟩ := h
      cases result with
      | ok s => exact ⟨.some (hmade s rfl), hother⟩
      | error error => exact ⟨hhere, hother⟩
  | operate command =>
      obtain ⟨hwork, hafter⟩ := h
      dsimp only [Note.revise]
      rw [Workspace.step_of_isWork hwork]
      cases hhere with
      | none => exact ⟨.none, hother⟩
      | @some note s htells =>
          have hasked : (note.ask memory command).Tells (deque (effect.after s)) := by
            rw [hafter]
            exact htells.ask memory command
          exact ⟨.some hasked, hother⟩
  | exchange =>
      obtain ⟨change, rfl, htraded⟩ := h
      cases hhere with
      | none => exact ⟨.none, hother⟩
      | @some note s hs =>
          cases hother with
          | none => exact ⟨.some hs, .none⟩
          | @some note' t ht =>
              have hcases := (htraded s t).cases
              dsimp only [Workspace.step]
              generalize change (s, t) = result at hcases ⊢
              obtain ⟨outcome, s', t'⟩ := result
              rcases hcases with ⟨rfl, hagree, hs', ht'⟩ | ⟨⟨violation, rfl⟩, hs', ht'⟩
              · have htook : (note.take note').Tells (deque s') := by
                  rw [hs']
                  exact hs.take ht hagree
                have htook' : (note'.take note).Tells (deque t') := by
                  rw [ht']
                  exact ht.take hs (Table.agrees_symm hagree)
                exact ⟨.some htook, .some htook'⟩
              · have hkept : note.Tells (deque s') := hs'.symm ▸ hs
                have hkept' : note'.Tells (deque t') := ht'.symm ▸ ht
                exact ⟨.some hkept, .some hkept'⟩

/-- What wraps a deque is built by building the deque. -/
theorem Effect.meets_build (wrap : Deque π β → σ) (hwrap : ∀ d, deque (wrap d) = d)
    {table : Table π} {elements? : Option (List α)} {made : Except Error (Deque π β)}
    (h : ∀ d, made = .ok d → (Note.new table memory elements?).Tells d) :
    (Effect.make (made.map wrap) .nothing).Meets deque memory (.build table elements?) := by
  refine ⟨_, rfl, fun s hs => ?_⟩
  obtain ⟨d, hd, rfl⟩ := map_eq_ok hs
  rw [hwrap]
  exact h d hd

/-- Two holders exchange what they hold as the deques within them do. -/
theorem Effect.meets_exchange (wrap : Deque π β → σ) (hwrap : ∀ d, deque (wrap d) = d)
    {exchange : EStateM Violation (σ × σ) Unit}
    (hcarry : ∀ s t, exchange (s, t) =
      Sequence.carry (Prod.map wrap wrap) (Deque.exchange (deque s, deque t))) :
    (Effect.jointAsserted (Reply.silently exchange)).Meets deque memory .exchange := by
  refine ⟨_, rfl, fun s t => ?_⟩
  have hexchange := hcarry s t
  by_cases hname : (deque s).table.name = (deque t).table.name
  · by_cases htype : (deque s).table.type = (deque t).table.type
    · rw [Deque.exchange_of_agree hname htype] at hexchange
      simp only [Reply.silently, map_of_ok hexchange, Prod.map, hwrap]
      exact .of_agree hname htype
    · rw [Deque.exchange_of_type_ne hname htype] at hexchange
      simp only [Reply.silently, map_of_error hexchange, Prod.map, hwrap]
      exact .of_type_ne hname htype
  · rw [Deque.exchange_of_name_ne hname] at hexchange
    simp only [Reply.silently, map_of_error hexchange, Prod.map, hwrap]
    exact .of_name_ne hname

/-! ### Deques, stacks and queues -/

namespace Deque

theorem ofTable_tells {table : Table π} {d : Deque π β} (h : ofTable memory table = .ok d) :
    (Note.new table memory none).Tells d := by
  obtain ⟨b, hb, hd⟩ := bind_eq_ok h
  obtain rfl := Except.ok.inj hd
  exact Note.tells_new hb

theorem ofListIn_tells {table : Table π} {xs : List α} {d : Deque π β}
    (h : ofListIn memory table xs = .ok d) : (Note.new table memory (some xs)).Tells d := by
  obtain ⟨b, hb, hd⟩ := bind_eq_ok h
  obtain rfl := Except.ok.inj hd
  exact Note.tells_new hb

def Command.request : Command π α → Request π α
  | ofTable table => .build table none
  | ofListIn table xs => .build table (some xs)
  | sequence command => .operate command
  | front => .operate .front?
  | back => .operate .back?
  | popFront => .operate .popFront?
  | popBack => .operate .popBack?
  | exchange => .exchange

theorem Command.meets (memory : Allocator) (command : Command π α) :
    (command.effect memory).Meets (id : Deque π β → Deque π β) memory command.request := by
  cases command with
  | ofTable table => exact ⟨_, rfl, fun d hd => ofTable_tells hd⟩
  | ofListIn table xs => exact ⟨_, rfl, fun d hd => ofListIn_tells hd⟩
  | sequence command => exact ⟨command.isWork memory, fun d => rfl⟩
  | front | back => exact ⟨trivial, fun d => Effect.after_lookAsserted _ d⟩
  | popFront =>
      refine ⟨trivial, fun d => ?_⟩
      simp only [Command.effect, Effect.after_asserted, leftBy_map, popFront_eq_elim, leftBy_elim]
      rfl
  | popBack =>
      refine ⟨trivial, fun d => ?_⟩
      simp only [Command.effect, Effect.after_asserted, leftBy_map, popBack_eq_elim, leftBy_elim]
      rfl
  | exchange =>
      refine Effect.meets_exchange id (fun d => rfl) fun d e => ?_
      cases h : Deque.exchange (d, e) <;> simp [h, Sequence.carry]

end Deque

namespace Stack

def Command.request : Command π α → Request π α
  | ofTable table => .build table none
  | ofListIn table xs => .build table (some xs)
  | push v => .operate (.pushBack v)
  | top? | top => .operate .back?
  | pop? | pop => .operate .popBack?
  | clear => .operate .clear
  | exchange => .exchange

theorem Command.meets (memory : Allocator) (command : Command π α) :
    (command.effect memory).Meets (Stack.deque : Stack π β → _) memory command.request := by
  cases command with
  | ofTable table => exact Effect.meets_build mk (fun d => rfl) fun d => Deque.ofTable_tells
  | ofListIn table xs => exact Effect.meets_build mk (fun d => rfl) fun d => Deque.ofListIn_tells
  | push v =>
      refine ⟨trivial, fun s => ?_⟩
      simp [Command.effect, Sequence.Command.effect, push_eq_carry, Sequence.leftBy_carry]
  | top? | pop? | clear => exact ⟨trivial, fun s => rfl⟩
  | top => exact ⟨trivial, fun s => congrArg Stack.deque (Effect.after_lookAsserted _ s)⟩
  | pop =>
      refine ⟨trivial, fun s => ?_⟩
      simp only [Command.effect, Effect.after_asserted, leftBy_map, pop_eq_elim, leftBy_elim]
      rfl
  | exchange => exact Effect.meets_exchange mk (fun d => rfl) exchange_eq_carry

end Stack

namespace Queue

def Command.request : Command π α → Request π α
  | ofTable table => .build table none
  | ofListIn table xs => .build table (some xs)
  | push v => .operate (.pushBack v)
  | front? | front => .operate .front?
  | back? | back => .operate .back?
  | pop? | pop => .operate .popFront?
  | clear => .operate .clear
  | exchange => .exchange

theorem Command.meets (memory : Allocator) (command : Command π α) :
    (command.effect memory).Meets (Queue.deque : Queue π β → _) memory command.request := by
  cases command with
  | ofTable table => exact Effect.meets_build mk (fun d => rfl) fun d => Deque.ofTable_tells
  | ofListIn table xs => exact Effect.meets_build mk (fun d => rfl) fun d => Deque.ofListIn_tells
  | push v =>
      refine ⟨trivial, fun q => ?_⟩
      simp [Command.effect, Sequence.Command.effect, push_eq_carry, Sequence.leftBy_carry]
  | front? | back? | pop? | clear => exact ⟨trivial, fun q => rfl⟩
  | front | back => exact ⟨trivial, fun q => congrArg Queue.deque (Effect.after_lookAsserted _ q)⟩
  | pop =>
      refine ⟨trivial, fun q => ?_⟩
      simp only [Command.effect, Effect.after_asserted, leftBy_map, pop_eq_elim, leftBy_elim]
      rfl
  | exchange => exact Effect.meets_exchange mk (fun d => rfl) exchange_eq_carry

end Queue

/-! ### Runs -/

namespace Note

variable {ι : Type} [DecidableEq ι]

/-- The notes beside a run, from places that are all vacant. -/
def beside (effect : Allocator → γ → Effect σ (Reply α)) (request : γ → Request π α)
    (operations : List (Fleet.Operation ι γ)) : Fleet ι (Note π α) :=
  Fleet.annotate (fun operation => revise (request operation.command) operation.memory)
    Fleet.vacant operations (Fleet.run effect Fleet.vacant operations).1

end Note

/-- The discipline that the holders of containers keep in any number of places.  Whatever was
done there, the note beside every holder is true: its table is the one that it was built
from, its container was made by a table that agrees with that one, and it is what came of
that after all that it was asked since.  An exchange between two of them ends as it has to,
and leaves all others as they are. -/
structure Disciplined (effect : Allocator → γ → Effect σ (Reply α)) (request : γ → Request π α)
    (deque : σ → Deque π β) : Prop where
  tells : ∀ (ι : Type) [DecidableEq ι] (operations : List (Fleet.Operation ι γ)) (place : ι),
    Option.Rel (Note.TellsOf deque) (Note.beside effect request operations place)
      ((Fleet.run effect Fleet.vacant operations).2 place)
  exchanges : ∀ (ι : Type) [DecidableEq ι] (fleet : Fleet ι σ) (operation : Fleet.Operation ι γ),
    request operation.command = .exchange →
      ∀ s ∈ fleet operation.here, ∀ t ∈ fleet operation.other,
        let result := fleet.perform effect operation
        (∃ s' ∈ result.2 operation.here, ∃ t' ∈ result.2 operation.other,
            Traded (deque s) (deque t) result.1 (deque s') (deque t')) ∧
          ∀ place, place ≠ operation.here → place ≠ operation.other →
            result.2 place = fleet place

theorem disciplined_of_meets {effect : Allocator → γ → Effect σ (Reply α)}
    {request : γ → Request π α}
    (h : ∀ memory command, (effect memory command).Meets deque memory (request command)) :
    Disciplined effect request deque where
  tells ι _ operations place := by
    refine Fleet.run_annotated (fun operation noted noted' here other hhere hother => ?_)
      operations (fun place => ?_) place
    · exact (h operation.memory operation.command).keeps_notes hhere hother
    · exact .none
  exchanges ι _ fleet operation hexchange s hs t ht := by
    have hmeets := h operation.memory operation.command
    rw [hexchange] at hmeets
    obtain ⟨change, heffect, htraded⟩ := hmeets
    rw [Option.mem_def] at hs ht
    have hperform : fleet.perform effect operation =
        ((change (s, t)).1,
          fleet.put operation (some (change (s, t)).2.1, some (change (s, t)).2.2)) := by
      rw [Fleet.perform, hs, ht, heffect]
      rfl
    rw [hperform]
    exact ⟨⟨_, Fleet.put_here, _, Fleet.put_other, htraded s t⟩,
      fun place => Fleet.put_elsewhere⟩

/-- Deques, stacks and queues only ever hold containers that were made by a table which
agrees with their own, whatever tables there are and whatever kind of container they make,
and they exchange them exactly if their tables have one name and one type. -/
theorem run_keeps_custody :
    Disciplined Deque.Command.effect Deque.Command.request (id : Deque π β → Deque π β) ∧
      Disciplined Stack.Command.effect Stack.Command.request
        (Stack.deque : Stack π β → Deque π β) ∧
      Disciplined Queue.Command.effect Queue.Command.request
        (Queue.deque : Queue π β → Deque π β) :=
  ⟨disciplined_of_meets Deque.Command.meets, disciplined_of_meets Stack.Command.meets,
    disciplined_of_meets Queue.Command.meets⟩

/-- Three tables of one name, of which two have one type as well.  The first two deques
exchange what they hold, and later exchange it back; in between nothing comes of an exchange
with the third one. -/
example :
    let rings : Table Plan := ⟨"ring_buffer", "Rings", .ring⟩
    let impostor : Table Plan := ⟨"ring_buffer", "Rings", .chain⟩
    let stranger : Table Plan := ⟨"ring_buffer", "Others", .ring⟩
    let operations : List (Fleet.Operation (Fin 3) (Deque.Command Plan UInt8)) :=
      [⟨0, 1, by decide, .addressSpace, .ofListIn rings [1, 2]⟩,
        ⟨1, 2, by decide, .addressSpace, .ofListIn impostor [3]⟩,
        ⟨2, 0, by decide, .addressSpace, .ofTable stranger⟩,
        ⟨0, 1, by decide, .addressSpace, .exchange⟩,
        ⟨1, 2, by decide, .addressSpace, .exchange⟩,
        ⟨1, 2, by decide, .addressSpace, .sequence (.pushBack 4)⟩,
        ⟨1, 0, by decide, .addressSpace, .exchange⟩]
    let result : _ × Fleet (Fin 3) (Deque Plan (Backend UInt8)) :=
      Fleet.run Deque.Command.effect Fleet.vacant operations
    (result.1.filterMap fun
      | .violated violation => some violation.message
      | _ => none) =
        ["Cannot swap deques built by different ring_buffer tables: Rings and Others"] ∧
      ([0, 1, 2].map fun place => (result.2 place).map fun d => (d.table, Sequence.toList d)) =
        [some (rings, [1, 2, 4]), some (impostor, [3]), some (stranger, [])] := by
  decide +kernel

end Containers
