import Cogrouping.Json.Value

/-!
Reading typed data from JSON trees. A record is an object with known members or an array with their
values in order; members nobody asks for are passed over.
-/

namespace Cogrouping.Json.Decoder

abbrev Members := List (String × Tree)

/-- Collects the known members of an object; every key has to be a text, and no known one may come
twice. -/
def known? (names : List String) : List (List Char × Tree) → Option Members
  | [] => some []
  | (lexeme, tree) :: rest => do
      let key ← Lexeme.text? lexeme
      let members ← known? names rest
      if !names.contains key then return members
      else if members.any (·.1 == key) then none
      else return (key, tree) :: members

def record? (names : List String) : Tree → Option Members
  | .object members => known? names members
  | .array items => if items.length ≤ names.length then some (names.zip items) else none
  | _ => none

def member? (members : Members) (name : String) : Option Tree := members.lookup name

def required? {α : Type} (members : Members) (name : String) (read? : Tree → Option α) : Option α :=
  member? members name >>= read?

def defaulted? {α : Type} (members : Members) (name : String) (read? : Tree → Option α)
    (default : α) : Option α :=
  match member? members name with
  | none => some default
  | some tree => read? tree

def text? : Tree → Option String
  | .string lexeme => Lexeme.text? lexeme
  | _ => none

/-- A natural number below a bound, written without sign, fraction or exponent. -/
def natural? (bound : Nat) : Tree → Option Nat
  | .number lexeme => (Lexeme.natural? lexeme).filter (· < bound)
  | _ => none

def optional? {α : Type} (read? : Tree → Option α) : Tree → Option (Option α)
  | .null => some none
  | tree => (read? tree).map some

def list? {α : Type} (read? : Tree → Option α) : Tree → Option (List α)
  | .array items => items.mapM read?
  | _ => none

/-- A name alone, or a name with a payload as the only member of an object. -/
def variant? : Tree → Option (String × Option Tree)
  | .string lexeme => (Lexeme.text? lexeme).map (·, none)
  | .object [(lexeme, payload)] => (Lexeme.text? lexeme).map (·, some payload)
  | _ => none

def isNull : Tree → Bool
  | .null => true
  | _ => false

def isEmptyObject : Tree → Bool
  | .object [] => true
  | _ => false

end Cogrouping.Json.Decoder
