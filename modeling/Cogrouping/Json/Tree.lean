/-!
JSON text as a tree of lexemes. The tree keeps strings and numbers as they are written, members in
their order and repeated keys, so that whoever reads a text decides what its lexemes mean; text that
nobody reads is only held to the grammar.
-/

namespace Cogrouping.Json

inductive Tree
  | null
  | bool (value : Bool)
  | number (lexeme : List Char)
  | string (lexeme : List Char)
  | array (items : List Tree)
  | object (members : List (List Char × Tree))
  deriving Inhabited

namespace Scan

def isSpace (char : Char) : Bool :=
  char == ' ' || char == '\t' || char == '\r' || char == '\n'

def skipSpace (text : List Char) : List Char := text.dropWhile isSpace

def isDigit (char : Char) : Bool := '0' ≤ char && char ≤ '9'

def isHexDigit (char : Char) : Bool :=
  isDigit char || ('a' ≤ char && char ≤ 'f') || ('A' ≤ char && char ≤ 'F')

def isShortEscape (char : Char) : Bool :=
  char == '"' || char == '\\' || char == '/' || char == 'b' || char == 'f' || char == 'n' ||
    char == 'r' || char == 't'

def string? : List Char → Option (List Char × List Char)
  | [] => none
  | '"' :: rest => some ([], rest)
  | '\\' :: 'u' :: first :: second :: third :: fourth :: rest =>
      if isHexDigit first && isHexDigit second && isHexDigit third && isHexDigit fourth then
        (string? rest).map fun (lexeme, after) =>
          ('\\' :: 'u' :: first :: second :: third :: fourth :: lexeme, after)
      else none
  | '\\' :: escaped :: rest =>
      if isShortEscape escaped then
        (string? rest).map fun (lexeme, after) => ('\\' :: escaped :: lexeme, after)
      else none
  | char :: rest =>
      if char == '\\' || char.toNat < 0x20 then none
      else (string? rest).map fun (lexeme, after) => (char :: lexeme, after)

def digits? (text : List Char) : Option (List Char × List Char) :=
  let digits := text.takeWhile isDigit
  if digits.isEmpty then none else some (digits, text.dropWhile isDigit)

def whole? (text : List Char) : Option (List Char × List Char) := do
  let (digits, rest) ← digits? text
  if digits.head? == some '0' && digits.length != 1 then none else some (digits, rest)

def fraction? : List Char → Option (List Char × List Char)
  | '.' :: rest => (digits? rest).map fun (digits, after) => ('.' :: digits, after)
  | text => some ([], text)

def isExponentMark (char : Char) : Bool := char == 'e' || char == 'E'

def isSign (char : Char) : Bool := char == '+' || char == '-'

def exponent? (text : List Char) : Option (List Char × List Char) :=
  match text with
  | mark :: rest =>
      if isExponentMark mark then
        let sign := rest.takeWhile isSign
        if 1 < sign.length then none
        else (digits? (rest.dropWhile isSign)).map fun (digits, after) =>
          (mark :: sign ++ digits, after)
      else some ([], text)
  | [] => some ([], [])

def unsigned? (text : List Char) : Option (List Char × List Char) := do
  let (whole, rest) ← whole? text
  let (fraction, rest) ← fraction? rest
  let (exponent, rest) ← exponent? rest
  return (whole ++ fraction ++ exponent, rest)

def number? : List Char → Option (List Char × List Char)
  | '-' :: rest => (unsigned? rest).map fun (lexeme, after) => ('-' :: lexeme, after)
  | text => unsigned? text

mutual

/-- The value at the start of a text, after white space; `fuel` bounds the values and members. -/
def value? : Nat → List Char → Option (Tree × List Char)
  | 0, _ => none
  | fuel + 1, text =>
      match skipSpace text with
      | 'n' :: 'u' :: 'l' :: 'l' :: rest => some (.null, rest)
      | 't' :: 'r' :: 'u' :: 'e' :: rest => some (.bool true, rest)
      | 'f' :: 'a' :: 'l' :: 's' :: 'e' :: rest => some (.bool false, rest)
      | '"' :: rest => (string? rest).map fun (lexeme, after) => (.string lexeme, after)
      | '[' :: rest =>
          match skipSpace rest with
          | ']' :: after => some (.array [], after)
          | _ => (items? fuel rest).map fun (items, after) => (.array items, after)
      | '{' :: rest =>
          match skipSpace rest with
          | '}' :: after => some (.object [], after)
          | _ => (members? fuel rest).map fun (members, after) => (.object members, after)
      | other => (number? other).map fun (lexeme, after) => (.number lexeme, after)

def items? : Nat → List Char → Option (List Tree × List Char)
  | 0, _ => none
  | fuel + 1, text => do
      let (item, rest) ← value? fuel text
      match skipSpace rest with
      | ']' :: after => some ([item], after)
      | ',' :: more => (items? fuel more).map fun (items, after) => (item :: items, after)
      | _ => none

def members? : Nat → List Char → Option (List (List Char × Tree) × List Char)
  | 0, _ => none
  | fuel + 1, text =>
      match skipSpace text with
      | '"' :: opened => do
          let (key, rest) ← string? opened
          match skipSpace rest with
          | ':' :: rest => do
              let (value, rest) ← value? fuel rest
              match skipSpace rest with
              | '}' :: after => some ([(key, value)], after)
              | ',' :: more =>
                  (members? fuel more).map fun (members, after) => ((key, value) :: members, after)
              | _ => none
          | _ => none
      | _ => none

end

end Scan

def Tree.ofText? (text : String) : Option Tree :=
  let chars := text.toList
  match Scan.value? (chars.length + 1) chars with
  | some (tree, rest) => if (Scan.skipSpace rest).isEmpty then some tree else none
  | none => none

end Cogrouping.Json
