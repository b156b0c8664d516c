/-
Descriptions of values, and the two ways to write them: on one line, or with one
item a line and four spaces for each level.
-/
import Containers.Text.Quoted

namespace Containers

/-- A description: plain text, a key with its value, or items in brackets. -/
inductive Document
  | text (content : String)
  | entry (key value : Document)
  | group (opening closing : String) (spaced : Bool) (items : List Document)

namespace Document

/-- A text in quotes. -/
def quoted (content : String) : Document := text (Text.quote content)

/-- Items in square brackets. -/
def list (items : List Document) : Document := group "[" "]" false items

/-- Keys with their values, in braces. -/
def table (entries : List (Document × Document)) : Document :=
  group "\x7b" "\x7d" false (entries.map fun (key, value) => entry key value)

/-- A name with named fields. -/
def record (name : String) (fields : List (String × Document)) : Document :=
  group (name ++ " \x7b") "\x7d" true (fields.map fun (label, value) => entry (text label) value)

/-- A name with unnamed parts; without a name, a tuple. -/
def variant (name : String) (parts : List Document) : Document :=
  group (name ++ "(") ")" false parts

mutual

/-- A text with the description behind it, on one line. -/
def compact (written : String) : Document → String
  | text content => written ++ content
  | entry key value => compact (compact written key ++ ": ") value
  | group opening closing spaced items =>
    let padding := if spaced then " " else ""
    compactItems (written ++ opening ++ padding) items ++ padding ++ closing

/-- A text with the items behind it, and a comma between any two. -/
def compactItems (written : String) : List Document → String
  | [] => written
  | [item] => compact written item
  | item :: items => compactItems (compact written item ++ ", ") items

end

/-- The spaces in front of a line at the given level. -/
def margin (level : Nat) : String := String.ofList (List.replicate (4 * level) ' ')

mutual

/-- A text with the description behind it, one item a line; its last line is at
the given level. -/
def indented (level : Nat) (written : String) : Document → String
  | text content => written ++ content
  | entry key value => indented level (indented level written key ++ ": ") value
  | group opening closing _ [] => written ++ opening ++ closing
  | group opening closing _ (item :: items) =>
    indentedItems (level + 1) (written ++ opening ++ "\n") (item :: items) ++ margin level ++
      closing

/-- A text with the items behind it, each on lines of its own with a comma behind
it. -/
def indentedItems (level : Nat) (written : String) : List Document → String
  | [] => written
  | item :: items =>
    indentedItems level (indented level (written ++ margin level) item ++ ",\n") items

end

/-- How a description is written. -/
inductive Style
  | compact
  | indented
deriving DecidableEq

/-- The description in the given style. -/
def render (style : Style) (document : Document) : String :=
  match style with
  | .compact => compact "" document
  | .indented => indented 0 "" document

end Document

/-- Values that can be described. -/
class Describe (α : Type u) where
  describe : α → Document

export Describe (describe)

instance : Describe Nat := ⟨fun n => .text (toString n)⟩

instance : Describe Int := ⟨fun n => .text (toString n)⟩

instance : Describe UInt8 := ⟨fun n => describe n.toNat⟩

instance : Describe Unit := ⟨fun _ => .text "()"⟩

instance : Describe String := ⟨.quoted⟩

instance {α : Type u} [Describe α] : Describe (List α) := ⟨fun xs => .list (xs.map describe)⟩

instance {α : Type u} {β : Type v} [Describe α] [Describe β] : Describe (α × β) :=
  ⟨fun (a, b) => .variant "" [describe a, describe b]⟩

end Containers
