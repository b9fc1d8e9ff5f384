/-
**Blanks, lines and trimming.**

Two classes of white space are in use: the four blanks of XML and XPath (`isBlank`), and the white
space of Unicode (`isSpace`). On them stand

* `trimBy`, `trimBlanks`, `trimSpaces` — a text without the white space at its ends;
* `collapseBlanks` — runs of blanks become one space, none is left at the ends;
* `words` — the pieces between white space; `lines` — the pieces between line ends;
* `normalizeLines` — a text without the spaces at both ends of every line and the blank lines at its own ends,
  where line feeds alone divide lines.
-/

namespace XPathAnnotator.Text

/-- Whether a character is one of the four blanks of XML: space, tab, carriage return, line feed. -/
def isBlank (c : Char) : Bool :=
  c == ' ' || c == '\t' || c == '\r' || c == '\n'

/-- Whether a character is white space in Unicode. -/
def isSpace (c : Char) : Bool :=
  let code := c.toNat
  (9 ≤ code && code ≤ 13) || (28 ≤ code && code ≤ 32) || code == 133 || code == 160 ||
  code == 5760 || (8192 ≤ code && code ≤ 8202) || code == 8232 || code == 8233 || code == 8239 ||
  code == 8287 || code == 12288

/-- A text without the characters of a class at its start. -/
def trimStartBy (class? : Char → Bool) (text : String) : String :=
  String.ofList (text.toList.dropWhile class?)

/-- A text without the characters of a class at its end. -/
def trimEndBy (class? : Char → Bool) (text : String) : String :=
  String.ofList (text.toList.reverse.dropWhile class?).reverse

/-- A text without the characters of a class at its ends. -/
def trimBy (class? : Char → Bool) (text : String) : String :=
  trimEndBy class? (trimStartBy class? text)

/-- A text without blanks at its ends. -/
def trimBlanks (text : String) : String := trimBy isBlank text

/-- A text without white space at its ends. -/
def trimSpaces (text : String) : String := trimBy isSpace text

/-- The maximal pieces of a list that hold no separator. -/
def piecesBetween (separator : Char → Bool) : List Char → List (List Char)
  | [] => []
  | c :: rest =>
    if separator c then piecesBetween separator rest
    else match rest, piecesBetween separator rest with
      | next :: _, piece :: pieces =>
        if separator next then [c] :: piece :: pieces else (c :: piece) :: pieces
      | _, pieces => [c] :: pieces

/-- The words of a text: its pieces between white space. -/
def words (text : String) : List String :=
  (piecesBetween isSpace text.toList).map String.ofList

/-- Runs of blanks become single spaces, and none is left at the ends. -/
def collapseBlanks (text : String) : String :=
  String.intercalate " " ((piecesBetween isBlank text.toList).map String.ofList)

/-- Whether a character ends a line. -/
def isLineEnd (c : Char) : Bool :=
  let code := c.toNat
  (10 ≤ code && code ≤ 13) || (28 ≤ code && code ≤ 30) || code == 133 || code == 8232 ||
  code == 8233

/-- The lines of a list of characters, where `current` is the line read so far in reverse. -/
def linesFrom (current : List Char) : List Char → List (List Char)
  | [] => if current.isEmpty then [] else [current.reverse]
  | '\r' :: '\n' :: rest => current.reverse :: linesFrom [] rest
  | c :: rest =>
    if isLineEnd c then current.reverse :: linesFrom [] rest else linesFrom (c :: current) rest

/-- The lines of a text without their ends. A carriage return and a line feed are one end. -/
def lines (text : String) : List String :=
  (linesFrom [] text.toList).map String.ofList

/-! ### Spaces at the ends of lines -/

/-- A space that does not divide lines. -/
def isLineSpace (c : Char) : Bool := isSpace c && c != '\n'

/-- Whether nothing but spaces comes before the end of a line. -/
def endsLine (cs : List Char) : Bool :=
  match cs.dropWhile isLineSpace with
  | [] => true
  | c :: _ => c == '\n'

/-- Drops the spaces at the ends of lines, where `lineStart` tells whether a line begins here. -/
def dropLineSpaces (lineStart : Bool) : List Char → List Char
  | [] => []
  | c :: cs =>
    if isLineSpace c && (lineStart || endsLine cs) then dropLineSpaces lineStart cs
    else c :: dropLineSpaces (c == '\n') cs

/-- A text without spaces at the ends of its lines and without blank lines at its ends. -/
def normalizeLines (text : String) : String :=
  trimSpaces (String.ofList (dropLineSpaces true text.toList))

end XPathAnnotator.Text
