/-!
White space as the Unicode property `White_Space` defines it, and the removal of it from both ends
of a text.
-/

namespace Fibers.Text

/-- Whether a character has the property `White_Space`. -/
def isBlank (c : Char) : Bool :=
  let n := c.toNat
  (9 ≤ n && n ≤ 13) || n == 0x20 || n == 0x85 || n == 0xa0 || n == 0x1680 ||
    (0x2000 ≤ n && n ≤ 0x200a) || n == 0x2028 || n == 0x2029 || n == 0x202f || n == 0x205f ||
    n == 0x3000

/-- The text without the white space at its start. -/
def trimStart (cs : List Char) : List Char := cs.dropWhile isBlank

/-- The text without the white space at its end. -/
def trimEnd (cs : List Char) : List Char := (cs.reverse.dropWhile isBlank).reverse

/-- The text without the white space at its two ends. -/
def trim (cs : List Char) : List Char := trimEnd (trimStart cs)

/-- The lower-case form of a text, where only the letters A to Z have one. -/
def lowerAscii (cs : List Char) : List Char := cs.map Char.toLower

/-- Whether `word` starts the text. -/
def startsWith (word cs : List Char) : Bool := word.isPrefixOf cs

/-- A line without a carriage return at its end. -/
def chopReturn (line : List Char) : List Char :=
  if line.getLast? == some '\r' then line.dropLast else line

/-- The text cut at its line feeds; the last piece is what follows the last one. -/
def pieces : List Char → List (List Char)
  | [] => [[]]
  | c :: cs =>
    match pieces cs with
    | [] => [[c]]
    | p :: ps => if c = '\n' then [] :: p :: ps else (c :: p) :: ps

/-- The lines of a text: a line ends at a line feed, a carriage return right before it is not part
of the line, and a text that ends in a line feed has no further line. -/
def lines (cs : List Char) : List (List Char) :=
  let ps := pieces cs
  let ended := ps.dropLast.map chopReturn
  match ps.getLast? with
  | some (c :: rest) => ended ++ [c :: rest]
  | _ => ended

/-- The lines of a string. -/
def stringLines (s : String) : List String := (lines s.toList).map String.ofList

end Fibers.Text
