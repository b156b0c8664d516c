/-
The operations on arrays as data, so that runs of them can be spoken about.
-/
import Containers.DynArray.Change
import Containers.Workspace

namespace Containers

namespace DynArray

/-- An operation on the array in a place, and on the one in the other place for
`append`, `exchange` and `clone`. -/
inductive Command (α : Type) [Element α]
  | new
  | ofParameters (parameters : Policy.Parameters)
  | ofList (xs : List α)
  | ofBlock (xs : List α)
  | clone
  | get (i : Nat)
  | getChecked (i : Nat)
  | front
  | back
  | front?
  | back?
  | set (i : Nat) (v : α)
  | setChecked (i : Nat) (v : α)
  | setFront? (v : α)
  | setBack? (v : α)
  | rewrite (f : (xs : Array α) → { ys : Array α // ys.size = xs.size })
  | reserve (capacity : Nat)
  | pushBack (v : α)
  | pushFront (v : α)
  | insert (i : Nat) (v : α)
  | extendBy (more : Element.Store α)
  | append
  | popBack
  | popFront
  | popBack?
  | popFront?
  | remove (i : Nat)
  | removeChecked (i : Nat)
  | erase (i : Nat)
  | clear
  | drain
  | exchange

variable {α : Type} [Element α]

/-- What an operation does. -/
def Command.effect (memory : Allocator) : Command α → Effect (DynArray α) (Reply α)
  | new => .make ((DynArray.new memory).mapError .array) .nothing
  | ofParameters parameters =>
    .make ((DynArray.ofParameters memory parameters).mapError .array) .nothing
  | ofList xs => .make ((DynArray.ofList memory xs).mapError .array) .nothing
  | ofBlock xs => .make ((DynArray.ofBlock memory xs).mapError .array) .nothing
  | clone => .copy (fun a => (DynArray.clone memory a).mapError .array) .nothing
  | get i => .lookAsserted fun a => (a.get i).map .element
  | getChecked i => .lookChecked fun a => ((a.getChecked i).map .element).mapError .array
  | front => .lookAsserted fun a => a.front.map .element
  | back => .lookAsserted fun a => a.back.map .element
  | front? => .look fun a => .optional a.front?
  | back? => .look fun a => .optional a.back?
  | set i v => .asserted (.element <$> DynArray.set i v)
  | setChecked i v => .refusable ((.element <$> DynArray.setChecked i v).adaptExcept .array)
  | setFront? v => .total (.optional <$> DynArray.setFront? v)
  | setBack? v => .total (.optional <$> DynArray.setBack? v)
  | rewrite f => .total fun a => (.nothing, a.rewrite f)
  | reserve capacity =>
    .refusable ((Reply.silently (DynArray.reserve memory capacity)).adaptExcept .array)
  | pushBack v => .refusable ((Reply.silently (DynArray.pushBack memory v)).adaptExcept .array)
  | pushFront v => .refusable ((Reply.silently (DynArray.pushFront memory v)).adaptExcept .array)
  | insert i v => .failing (Reply.silently (DynArray.insert memory i v))
  | extendBy more =>
    .refusable ((Reply.silently (DynArray.extendBy memory more)).adaptExcept .array)
  | append => .jointRefusable ((Reply.silently (DynArray.append memory)).adaptExcept .array)
  | popBack => .asserted (.element <$> DynArray.popBack)
  | popFront => .asserted (.element <$> DynArray.popFront)
  | popBack? => .total (.optional <$> DynArray.popBack?)
  | popFront? => .total (.optional <$> DynArray.popFront?)
  | remove i => .asserted (.element <$> DynArray.remove i)
  | removeChecked i => .refusable ((.element <$> DynArray.removeChecked i).adaptExcept .array)
  | erase i => .asserted (Reply.silently (DynArray.erase i))
  | clear => .total fun a => (.nothing, a.clear)
  | drain => .total (.elements <$> DynArray.drain)
  | exchange => .jointTotal fun (a, b) => (.nothing, (b, a))

/-! ### Reading from both ends -/

/-- Reads an array that is looked at: it stays as it is. -/
def readInPlace (moves : List Cursor.Move) : Effect (DynArray α) (List (Cursor.Reply α)) :=
  .look fun a => a.cursor.moves moves

/-- Reads an array that is handed over to the reader: its place is vacant then. -/
def readOut (moves : List Cursor.Move) : Effect (DynArray α) (List (Cursor.Reply α)) :=
  .consume fun a => a.cursor.moves moves

end DynArray

end Containers
