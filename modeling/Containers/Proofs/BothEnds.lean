/-
Reading from both ends.  However the moves are mixed, what has come from the front, what is
left and what has come from the back make up the list.  So every reply is fixed by how many
elements have come from either end, and no element comes twice.
-/
import Containers.DynArray.Command
import Containers.Proofs.FiniteMap

namespace Containers

namespace Cursor

variable {σ α : Type}

/-! ### Moves and replies -/

/-- The element that is handed out by a reply to a move of one kind. -/
def elementOf (kind : Move) : Move × Reply α → Option α
  | (m, .element element) => if m = kind then element else none
  | _ => none

/-- The elements that the moves of one kind have handed out, in the order in which they
did. -/
def handedOut (kind : Move) (past : List Move) (replies : List (Reply α)) : List α :=
  (past.zip replies).filterMap (elementOf kind)

/-- The reply to a move when `front` elements of a list have come from its front and `back`
from its back. -/
def replyAfter (xs : List α) (front back : Nat) : Move → Reply α
  | .next => .element (if front + back < xs.length then xs[front]? else none)
  | .nextBack => .element (if front + back < xs.length then xs[xs.length - 1 - back]? else none)
  | .remaining => .remaining (xs.length - front - back)
  | .bounds => .bounds (xs.length - front - back) (xs.length - front - back)

/-- A list in the middle of being read: what has come from its front and from its back, and
the replies to the moves that are still to be made. -/
structure Midway (xs fronts backs : List α) (later : List Move) (replies : List (Reply α)) :
    Prop where
  parts : ∃ rest, xs = fronts ++ rest ++ backs.reverse
  reply_eq : ∀ m ∈ later.head?, replies.head? = some (replyAfter xs fronts.length backs.length m)
  whole : fronts.length + backs.length = xs.length → fronts ++ backs.reverse = xs
  spent : fronts.length + backs.length = xs.length →
    ∀ reply ∈ replies, ∀ a, reply ≠ .element (some a)

/-- There is a reply to each move, and before each of them and after the last one the list is
midway. -/
structure ReadsBothEnds (xs : List α) (moves : List Move) (replies : List (Reply α)) : Prop where
  length_eq : replies.length = moves.length
  midway : ∀ past later, moves = past ++ later →
    Midway xs (handedOut .next past replies) (handedOut .nextBack past replies) later
      (replies.drop past.length)

theorem handedOut_cons (kind m : Move) (ms : List Move) (reply : Reply α)
    (replies : List (Reply α)) :
    handedOut kind (m :: ms) (reply :: replies) =
      handedOut kind [m] [reply] ++ handedOut kind ms replies :=
  List.filterMap_append (l := [(m, reply)])

theorem handedOut_singleton (kind m : Move) {reply : Reply α}
    (h : ∀ a, reply ≠ .element (some a)) : handedOut kind [m] [reply] = [] := by
  cases reply with
  | element element =>
      cases element with
      | none => simp [handedOut, elementOf]
      | some a => exact absurd rfl (h a)
  | remaining count => rfl
  | bounds lower upper => rfl

/-- Replies to later moves do not count. -/
theorem handedOut_append (kind : Move) {past : List Move} {replies : List (Reply α)}
    (h : past.length = replies.length) (more : List (Reply α)) :
    handedOut kind past (replies ++ more) = handedOut kind past replies := by
  have hzip : (past ++ []).zip (replies ++ more) = past.zip replies ++ [].zip more :=
    List.zip_append h
  rw [List.append_nil, List.zip_nil_left, List.append_nil] at hzip
  rw [handedOut, handedOut, hzip]

variable [Storage σ α]

/-- The cursor that a list of moves leaves. -/
def after (c : Cursor σ) (ms : List Move) : Cursor σ := ms.foldl (fun c m => (move m c).2) c

theorem moves_cons (c : Cursor σ) (m : Move) (ms : List Move) :
    c.moves (m :: ms) = (move m c).1 :: (move m c).2.moves ms := rfl

theorem length_moves (c : Cursor σ) (ms : List Move) : (c.moves ms).length = ms.length := by
  induction ms generalizing c with
  | nil => rfl
  | cons m ms ih => rw [moves_cons, List.length_cons, List.length_cons, ih]

theorem moves_append (c : Cursor σ) (past later : List Move) :
    c.moves (past ++ later) = c.moves past ++ (c.after past).moves later := by
  induction past generalizing c with
  | nil => rfl
  | cons m past ih =>
      rw [List.cons_append, moves_cons, moves_cons, ih, List.cons_append]
      rfl

/-! ### One move -/

theorem move_next_of_lt {c : Cursor σ} (h : c.front < c.back) :
    move .next c =
      (.element (Storage.get? c.store c.front), { c with front := c.front + 1 }) := by
  simp only [move, next, if_pos h]

theorem move_nextBack_of_lt {c : Cursor σ} (h : c.front < c.back) :
    move .nextBack c =
      (.element (Storage.get? c.store (c.back - 1)), { c with back := c.back - 1 }) := by
  simp only [move, nextBack, if_pos h]

/-- Where nothing is left, no move changes anything. -/
theorem move_of_not_lt {c : Cursor σ} (h : ¬ c.front < c.back) (m : Move) :
    (move m c).2 = c ∧ ∀ a, (move m c).1 ≠ .element (some a) := by
  cases m with
  | next => simp [move, next, h]
  | nextBack => simp [move, nextBack, h]
  | remaining => simp [move]
  | bounds => simp [move]

/-- A cursor between what has come from the front of a list and what has come from its
back. -/
structure Between (xs : List α) (c : Cursor σ) (fronts rest backs : List α) : Prop where
  toList_eq : Storage.toList c.store = xs
  parts_eq : xs = fronts ++ rest ++ backs.reverse
  front_eq : c.front = fronts.length
  back_eq : c.back = fronts.length + rest.length

namespace Between

variable {xs fronts rest backs : List α} {c : Cursor σ}

theorem length_eq (h : Between xs c fronts rest backs) :
    xs.length = fronts.length + rest.length + backs.length := by
  rw [h.parts_eq, List.length_append, List.length_append, List.length_reverse]

theorem lt_iff (h : Between xs c fronts rest backs) :
    c.front < c.back ↔ fronts.length + backs.length < xs.length := by
  rw [h.front_eq, h.back_eq, h.length_eq]
  omega

/-- A cursor replies by the two numbers alone. -/
theorem reply_eq (h : Between xs c fronts rest backs) (m : Move) :
    (move m c).1 = replyAfter xs fronts.length backs.length m := by
  have hlength := h.length_eq
  have hremaining : c.remaining = xs.length - fronts.length - backs.length := by
    rw [remaining, h.front_eq, h.back_eq]
    omega
  have hlast : c.back - 1 = xs.length - 1 - backs.length := by
    rw [h.back_eq]
    omega
  cases m with
  | next =>
      by_cases hlt : c.front < c.back
      · rw [move_next_of_lt hlt, replyAfter, if_pos (h.lt_iff.mp hlt),
          Storage.get?_eq_getElem?, h.toList_eq, h.front_eq]
      · simp only [move, next, replyAfter, if_neg hlt, if_neg (mt h.lt_iff.mpr hlt)]
  | nextBack =>
      by_cases hlt : c.front < c.back
      · rw [move_nextBack_of_lt hlt, replyAfter, if_pos (h.lt_iff.mp hlt),
          Storage.get?_eq_getElem?, h.toList_eq, hlast]
      · simp only [move, nextBack, replyAfter, if_neg hlt, if_neg (mt h.lt_iff.mpr hlt)]
  | remaining => rw [move, replyAfter, hremaining]
  | bounds => rw [move, replyAfter, hremaining]

theorem rest_ne_nil (h : Between xs c fronts rest backs) (hlt : c.front < c.back) :
    rest ≠ [] := by
  rintro rfl
  simp [h.front_eq, h.back_eq] at hlt

/-- A move that hands nothing out and leaves the cursor where it is. -/
theorem stays (h : Between xs c fronts rest backs) {m : Move} (hsame : (move m c).2 = c)
    (hnone : ∀ a, (move m c).1 ≠ .element (some a)) :
    Between xs (move m c).2 (fronts ++ handedOut .next [m] [(move m c).1]) rest
      (backs ++ handedOut .nextBack [m] [(move m c).1]) := by
  rw [hsame, handedOut_singleton _ _ hnone, handedOut_singleton _ _ hnone, List.append_nil,
    List.append_nil]
  exact h

/-- A move from the front takes the first element of what is left, and one from the back the
last one. -/
theorem moved (h : Between xs c fronts rest backs) (m : Move) :
    ∃ rest', Between xs (move m c).2 (fronts ++ handedOut .next [m] [(move m c).1]) rest'
      (backs ++ handedOut .nextBack [m] [(move m c).1]) := by
  by_cases hlt : c.front < c.back
  · cases m with
    | next =>
        obtain ⟨x, rest', rfl⟩ := List.exists_cons_of_ne_nil (h.rest_ne_nil hlt)
        have hget : Storage.get? c.store c.front = some x := by
          rw [Storage.get?_eq_getElem?, h.toList_eq, h.front_eq, h.parts_eq]
          simp
        rw [move_next_of_lt hlt, hget]
        refine ⟨rest', h.toList_eq, ?_, ?_, ?_⟩
        · simpa [handedOut, elementOf] using h.parts_eq
        · simp [handedOut, elementOf, h.front_eq]
        · simp [handedOut, elementOf, h.back_eq]
          omega
    | nextBack =>
        obtain ⟨rest', x, rfl⟩ :=
          (List.eq_nil_or_concat rest).resolve_left (h.rest_ne_nil hlt)
        have hget : Storage.get? c.store (c.back - 1) = some x := by
          rw [Storage.get?_eq_getElem?, h.toList_eq, h.back_eq, h.parts_eq]
          simp
        rw [move_nextBack_of_lt hlt, hget]
        refine ⟨rest', h.toList_eq, ?_, ?_, ?_⟩
        · simpa [handedOut, elementOf] using h.parts_eq
        · simp [handedOut, elementOf, h.front_eq]
        · simp [handedOut, elementOf, h.back_eq]
    | remaining => exact ⟨rest, h.stays rfl (by simp [move])⟩
    | bounds => exact ⟨rest, h.stays rfl (by simp [move])⟩
  · obtain ⟨hsame, hnone⟩ := move_of_not_lt hlt m
    exact ⟨rest, h.stays hsame hnone⟩

/-! ### Any number of moves -/

/-- The induction is on the moves; what they have handed out goes to what was handed out
before. -/
theorem after (h : Between xs c fronts rest backs) (ms : List Move) :
    ∃ rest', Between xs (c.after ms) (fronts ++ handedOut .next ms (c.moves ms)) rest'
      (backs ++ handedOut .nextBack ms (c.moves ms)) := by
  induction ms generalizing c fronts rest backs with
  | nil => exact ⟨rest, by simpa [handedOut, Cursor.after] using h⟩
  | cons m ms ih =>
      obtain ⟨between, hbetween⟩ := h.moved m
      obtain ⟨rest', hrest⟩ := ih hbetween
      refine ⟨rest', ?_⟩
      rw [moves_cons, handedOut_cons .next, handedOut_cons .nextBack, ← List.append_assoc,
        ← List.append_assoc]
      exact hrest

end Between

/-- Once nothing is left, nothing is handed out any more. -/
theorem moves_of_not_lt {c : Cursor σ} (h : ¬ c.front < c.back) (ms : List Move) :
    ∀ reply ∈ c.moves ms, ∀ a, reply ≠ .element (some a) := by
  induction ms with
  | nil => simp [moves]
  | cons m ms ih =>
      obtain ⟨hsame, hnone⟩ := move_of_not_lt h m
      rw [moves_cons, hsame]
      intro reply hreply
      rcases List.mem_cons.mp hreply with rfl | hlater
      · exact hnone
      · exact ih reply hlater

theorem Between.midway {xs fronts rest backs : List α} {c : Cursor σ}
    (h : Between xs c fronts rest backs) (later : List Move) :
    Midway xs fronts backs later (c.moves later) where
  parts := ⟨rest, h.parts_eq⟩
  reply_eq m hm := by
    cases later with
    | nil => contradiction
    | cons m' more =>
        obtain rfl := Option.some.inj hm
        exact congrArg some (h.reply_eq m')
  whole hall := by
    have hrest : rest = [] := List.eq_nil_of_length_eq_zero (by have := h.length_eq; omega)
    rw [h.parts_eq, hrest, List.append_nil]
  spent hall := moves_of_not_lt (fun hlt => Nat.ne_of_lt (h.lt_iff.mp hlt) hall) later

/-- Whatever is stored is read from both ends. -/
theorem readsBothEnds (store : σ) (ms : List Move) :
    ReadsBothEnds (Storage.toList store) ms ((ofStore store).moves ms) where
  length_eq := length_moves _ ms
  midway past later hms := by
    have hstart : Between (Storage.toList store) (ofStore store) [] (Storage.toList store) [] := by
      refine ⟨rfl, ?_, rfl, ?_⟩
      · simp
      · simp [ofStore]
    obtain ⟨rest, hrest⟩ := hstart.after past
    have hlength := length_moves (ofStore store) past
    rw [hms, moves_append, handedOut_append _ hlength.symm, handedOut_append _ hlength.symm,
      List.drop_left' hlength]
    exact hrest.midway later

end Cursor

/-! ### Containers -/

namespace Effect

/-- Whatever the moves are, the effect reads the elements `xs` of `s`, and leaves `left` in
its place. -/
def Reads {τ α : Type} (effect : List Cursor.Move → Effect τ (List (Cursor.Reply α))) (s : τ)
    (xs : List α) (left : Option τ) : Prop :=
  ∀ moves other, ∃ replies,
    Workspace.step (some s) other (effect moves) = (.returned replies, left, other) ∧
      Cursor.ReadsBothEnds xs moves replies

end Effect

/-- The elements of an array, which stays or is handed over, and the entries of a map are read
from both ends; the entries are in ascending order of their keys, in every map that a run
leaves behind. -/
theorem containers_read_from_both_ends {α κ ν : Type} [Element α] [Element (κ × ν)] :
    (∀ a : DynArray α,
      Effect.Reads DynArray.readInPlace a a.toList (some a) ∧
        Effect.Reads DynArray.readOut a a.toList none) ∧
      ∀ m : SortedMap κ ν,
        Effect.Reads SortedMap.readInPlace m m.toList (some m) ∧
          ∀ (operations : List (Place × Allocator × SortedMap.Command κ ν)) (place : Place),
            (∀ operation ∈ operations, operation.2.2.Orders) →
            m ∈ (Workspace.vacant.runEach SortedMap.Command.effect operations).2.get place →
            SortedMap.Ascending m.less m.toList := by
  refine ⟨fun a => ⟨fun moves other => ?_, fun moves other => ?_⟩, fun m => ⟨?_, ?_⟩⟩
  · exact ⟨_, rfl, Cursor.readsBothEnds a.store moves⟩
  · exact ⟨_, rfl, Cursor.readsBothEnds a.store moves⟩
  · exact fun moves other => ⟨_, rfl, Cursor.readsBothEnds m.entries.store moves⟩
  · intro operations place horders hm
    exact (SortedMap.run_proper operations horders place m hm).ascending

namespace BothEndsWitness

/-- The ends take turns until they meet, and go on. -/
def moves : List Cursor.Move :=
  [.next, .nextBack, .bounds, .nextBack, .next, .remaining, .nextBack, .next, .nextBack, .remaining]

def array : DynArray UInt8 := ⟨#[10, 20, 30, 40, 50], 8, .standard, 2⟩

/-- The last key goes to the front, and a key that is tied with another one is not taken in. -/
def operations : List (Place × Allocator × SortedMap.Command UInt8 UInt8) :=
  (.first, .addressSpace, .new (lessBy fun key => key.toNat % 10)) ::
    [.insert 15 1, .insert 9 2, .insert 25 3, .insert 3 4, .insert 40 5].map fun command =>
      (.first, .exhausted, command)

theorem operations_order : ∀ operation ∈ operations, operation.2.2.Orders := by
  simp [operations, SortedMap.Command.Orders, weakOrder_lessBy]

def left : Option (SortedMap UInt8 UInt8) :=
  (Workspace.vacant.runEach SortedMap.Command.effect operations).2.get .first

theorem containers_read_from_both_ends_taking_turns :
    (∃ replies, Workspace.step (some array) none (DynArray.readOut moves) =
        (.returned replies, none, none) ∧
      Cursor.handedOut .next moves replies = [10, 20] ∧
      Cursor.handedOut .next moves replies ++ (Cursor.handedOut .nextBack moves replies).reverse =
        [10, 20, 30, 40, 50]) ∧
      ∃ m ∈ left, m.toList = [(40, 5), (3, 4), (15, 1), (9, 2)] ∧
        SortedMap.Ascending m.less m.toList ∧
        Effect.Reads SortedMap.readInPlace m m.toList (some m) := by
  obtain ⟨harrays, hmaps⟩ := containers_read_from_both_ends (α := UInt8) (κ := UInt8) (ν := UInt8)
  constructor
  · obtain ⟨replies, ⟨⟩, hreads⟩ := (harrays array).2 moves none
    have hmidway := hreads.midway moves [] (List.append_nil moves).symm
    exact ⟨_, rfl, by decide +kernel, hmidway.whole (by decide +kernel)⟩
  · have hsome : left.isSome = true := by decide +kernel
    obtain ⟨m, hm⟩ := Option.isSome_iff_exists.mp hsome
    have hlist : left.map SortedMap.toList = some [(40, 5), (3, 4), (15, 1), (9, 2)] := by
      decide +kernel
    rw [hm, Option.map_some, Option.some_inj] at hlist
    obtain ⟨hreads, hascending⟩ := hmaps m
    exact ⟨m, hm, hlist, hascending operations .first operations_order hm, hreads⟩

end BothEndsWitness

end Containers
