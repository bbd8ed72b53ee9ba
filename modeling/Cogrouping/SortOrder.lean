import Cogrouping.Error
import Cogrouping.Text.Blank

/-!
Sort orders: lists of fields with a direction, and at most one mark that says where records are sorted
by their source. As text they read `url asc, fetched desc, #source# asc`.
-/

namespace Cogrouping

inductive Direction
  | ascending
  | descending
  deriving DecidableEq, Repr

namespace Direction

def apply : Direction → Ordering → Ordering
  | ascending, ordering => ordering
  | descending, ordering => ordering.swap

def display : Direction → String
  | ascending => "asc"
  | descending => "desc"

def ofWord (word : List Char) : Except Error Direction :=
  match String.ofList (Text.lowerCase word) with
  | "asc" => .ok ascending
  | "desc" => .ok descending
  | other => .error (.config (.unknownDirection other))

end Direction

inductive SortEntry
  /-- A field; a comparator named here goes before the field's own. -/
  | field (name : String) (direction : Direction) (comparator : Option String)
  | sourceId (direction : Direction)
  deriving DecidableEq, Repr

namespace SortEntry

def name : SortEntry → String
  | field name _ _ => name
  | sourceId _ => sourceIdName

def direction : SortEntry → Direction
  | field _ direction _ => direction
  | sourceId direction => direction

def comparator : SortEntry → Option String
  | field _ _ comparator => comparator
  | sourceId _ => none

def isSourceId : SortEntry → Bool
  | field .. => false
  | sourceId _ => true

def display (entry : SortEntry) : String :=
  let text := s!"{entry.name} {entry.direction.display}"
  match entry.comparator with
  | none => text
  | some comparator => s!"{text} using {comparator}"

def ofPart (text : String) (part : List Char) : Except Error SortEntry :=
  match Text.words part with
  | [] => .error (.config (.emptyEntry text))
  | name :: rest => do
      let direction ← match rest with
        | [] => .ok Direction.ascending
        | word :: _ => Direction.ofWord word
      match rest with
      | _ :: extra :: _ =>
          .error (.config (.extraWord (String.ofList extra) (String.ofList part)))
      | _ =>
          let name := String.ofList name
          if name = sourceIdName then return .sourceId direction
          else return .field name direction none

end SortEntry

structure SortOrder where
  entries : List SortEntry
  deriving DecidableEq, Repr

namespace SortOrder

def empty : SortOrder := ⟨[]⟩

instance : Inhabited SortOrder := ⟨empty⟩

def isEmpty (order : SortOrder) : Bool := order.entries.isEmpty

def size (order : SortOrder) : Nat := order.entries.length

def add (order : SortOrder) (entry : SortEntry) : SortOrder := ⟨order.entries ++ [entry]⟩

def hasSourceId (order : SortOrder) : Bool := order.entries.any SortEntry.isSourceId

def containsField (order : SortOrder) (name : String) : Bool :=
  order.entries.any fun entry => !entry.isSourceId && entry.name == name

def display (order : SortOrder) : String :=
  ", ".intercalate (order.entries.map SortEntry.display)

/-- The order of a comma-separated list; a missing direction means ascending. -/
def parse (text : String) : Except Error SortOrder :=
  ((Text.entries text.toList).mapM (SortEntry.ofPart text)).map SortOrder.mk

end SortOrder

end Cogrouping
