/-!
White space and the ways text is cut at it or at a separator. Blank characters are the code points
with the Unicode property `White_Space`.
-/

namespace Cogrouping.Text

/-- The code points with the Unicode property `White_Space`. -/
def isBlank (char : Char) : Bool :=
  let point := char.toNat
  (9 ≤ point && point ≤ 13) || point == 0x20 || point == 0x85 || point == 0xA0 ||
    point == 0x1680 || (0x2000 ≤ point && point ≤ 0x200A) || point == 0x2028 ||
    point == 0x2029 || point == 0x202F || point == 0x205F || point == 0x3000

def trim (text : List Char) : List Char :=
  ((text.dropWhile isBlank).reverse.dropWhile isBlank).reverse

def splitAll (separator : Char) : List Char → List (List Char)
  | [] => [[]]
  | char :: rest =>
      if char = separator then [] :: splitAll separator rest
      else match splitAll separator rest with
        | [] => [[char]]
        | piece :: pieces => (char :: piece) :: pieces

def splitFirst (separator : Char) : List Char → Option (List Char × List Char)
  | [] => none
  | char :: rest =>
      if char = separator then some ([], rest)
      else (splitFirst separator rest).map fun (before, after) => (char :: before, after)

def words (text : List Char) : List (List Char) :=
  (pieces text).filter (! ·.isEmpty)
where
  pieces : List Char → List (List Char)
    | [] => [[]]
    | char :: rest =>
        if isBlank char then [] :: pieces rest
        else match pieces rest with
          | [] => [[char]]
          | piece :: others => (char :: piece) :: others

def entries (text : List Char) : List (List Char) :=
  ((splitAll ',' text).map trim).filter (! ·.isEmpty)

def stripOpening? : List Char → List Char → Option (List Char)
  | [], text => some text
  | _ :: _, [] => none
  | expected :: opening, char :: text =>
      if expected = char then stripOpening? opening text else none

def stripClosing? (closing : Char) (text : List Char) : Option (List Char) :=
  match text.getLast? with
  | some last => if last = closing then some text.dropLast else none
  | none => none

def lowerCase (text : List Char) : List Char := text.map Char.toLower

end Cogrouping.Text
