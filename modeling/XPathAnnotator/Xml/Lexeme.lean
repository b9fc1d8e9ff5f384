/-
**Lexical elements of XML.**

Characters and names, references, comments, processing instructions, CDATA sections and quoted values:
everything that start tags, content and prologs are made of. Each reader takes a row of characters and
gives what it begins with and the rest, or nothing if the text is not well-formed there. Line ends are
taken to be single line feeds already.
-/

import XPathAnnotator.Text.Blank
import XPathAnnotator.Text.Case
import XPathAnnotator.Text.Word
import XPathAnnotator.Xml.Document
import XPathAnnotator.Xml.NameTable

namespace XPathAnnotator.Xml

open XPathAnnotator.Name XPathAnnotator.Text

/-- What a row of characters begins with, and the rest. -/
abbrev Reading (α : Type) := Option (α × List Char)

/-- Whether a character may occur in a document. -/
def isXmlChar (c : Char) : Bool :=
  let code := c.toNat
  code == 9 || code == 10 || code == 13 || (32 ≤ code && code != 0xFFFE && code != 0xFFFF)

/-- Whether a name without colon may begin with a character. -/
def isNameStart (c : Char) : Bool :=
  if c.toNat < 128 then c.isAlpha || c == '_' else nameStartCodePoints.contains c

/-- Whether a name without colon may hold a character. -/
def isNameChar (c : Char) : Bool :=
  if c.toNat < 128 then c.isAlphanum || c == '_' || c == '-' || c == '.' else nameCodePoints.contains c

/-- Every line end becomes a single line feed. -/
def normalizeLineEnds : List Char → List Char
  | [] => []
  | '\r' :: '\n' :: rest => '\n' :: normalizeLineEnds rest
  | '\r' :: rest => '\n' :: normalizeLineEnds rest
  | c :: rest => c :: normalizeLineEnds rest

/-- The rest after leading blanks. -/
def skipBlanks (cs : List Char) : List Char := cs.dropWhile isBlank

/-- A name without colon. -/
def readSimpleName? : List Char → Reading String
  | [] => none
  | c :: rest =>
    if isNameStart c then
      some (String.ofList (c :: rest.takeWhile isNameChar), rest.dropWhile isNameChar)
    else none

/-- A name with at most one colon. -/
def readName? (cs : List Char) : Reading QName :=
  match readSimpleName? cs with
  | none => none
  | some (first, ':' :: rest) =>
    match readSimpleName? rest with
    | some (second, rest) => if rest.head? == some ':' then none else some (⟨some first, second⟩, rest)
    | none => none
  | some (first, rest) => some (⟨none, first⟩, rest)

/-- A name in which colons stand anywhere, as in document type declarations. -/
def readAnyName? (cs : List Char) : Reading String :=
  match cs with
  | [] => none
  | c :: rest =>
    let inside (c : Char) : Bool := isNameChar c || c == ':'
    if isNameStart c || c == ':' then
      some (String.ofList (c :: rest.takeWhile inside), rest.dropWhile inside)
    else none

/-- The rest after a mark that the characters must begin with. -/
def expect? (mark : String) (cs : List Char) : Option (List Char) :=
  let mark := mark.toList
  if mark.isPrefixOf cs then some (cs.drop mark.length) else none

/-- What precedes the first occurrence of a mark, and the rest after it. -/
def readUntil? (mark : List Char) : List Char → Reading (List Char)
  | [] => none
  | c :: rest =>
    if mark.isPrefixOf (c :: rest) then some ([], (c :: rest).drop mark.length)
    else (readUntil? mark rest).map fun (before, after) => (c :: before, after)

/-- The character of a code, if a document may refer to it. -/
def charOfCode? (code : Nat) : Option Char :=
  if 0x110000 ≤ code || (0xD800 ≤ code && code < 0xE000) then none
  else
    let c := Char.ofNat code
    if isXmlChar c then some c else none

/-- The character of a reference, after its ampersand. -/
def readReference? (cs : List Char) : Reading Char :=
  match readUntil? [';'] cs with
  | none => none
  | some (name, rest) =>
    let c? := match name with
      | '#' :: 'x' :: digits =>
        if digits.isEmpty || !digits.all fun c => (hexValue? c).isSome then none
        else charOfCode? (digits.foldl (fun n c => n * 16 + (hexValue? c).getD 0) 0)
      | '#' :: digits =>
        if digits.isEmpty || !digits.all Char.isDigit then none
        else charOfCode? (digits.foldl (fun n (c : Char) => n * 10 + (c.toNat - 48)) 0)
      | name =>
        match String.ofList name with
        | "lt" => some '<'
        | "gt" => some '>'
        | "amp" => some '&'
        | "quot" => some '"'
        | "apos" => some '\''
        | _ => none
    c?.map fun c => (c, rest)

/-- Text up to the next markup, after the characters read so far in reverse. A closing bracket of a CDATA
section may not stand in it. -/
def readText? (read : List Char) : Nat → List Char → Reading String
  | 0, _ => none
  | fuel + 1, cs =>
    match cs with
    | [] => some (String.ofList read.reverse, [])
    | '<' :: _ => some (String.ofList read.reverse, cs)
    | '&' :: rest =>
      match readReference? rest with
      | none => none
      | some (c, rest) => readText? (c :: read) fuel rest
    | ']' :: ']' :: '>' :: _ => none
    | c :: rest => readText? (c :: read) fuel rest

/-- An attribute value up to its closing quote, after the characters read so far in reverse. Tabs and
line ends become spaces unless they are written as references. -/
def readValue? (quote : Char) (read : List Char) : Nat → List Char → Reading String
  | 0, _ => none
  | fuel + 1, cs =>
    match cs with
    | [] => none
    | '<' :: _ => none
    | '&' :: rest =>
      match readReference? rest with
      | none => none
      | some (c, rest) => readValue? quote (c :: read) fuel rest
    | c :: rest =>
      if c == quote then some (String.ofList read.reverse, rest)
      else readValue? quote ((if c == '\t' || c == '\n' then ' ' else c) :: read) fuel rest

/-- A quoted attribute value. -/
def readQuoted? (cs : List Char) : Reading String :=
  match cs with
  | '"' :: rest => readValue? '"' [] (rest.length + 1) rest
  | '\'' :: rest => readValue? '\'' [] (rest.length + 1) rest
  | _ => none

/-- A quoted text without references, as in declarations. -/
def readLiteral? (cs : List Char) : Reading String :=
  match cs with
  | quote :: rest =>
    if quote == '"' || quote == '\'' then
      (readUntil? [quote] rest).map fun (text, rest) => (String.ofList text, rest)
    else none
  | [] => none

/-- A comment, after its opening mark. Two hyphens in a row end it. -/
def readComment? (cs : List Char) : Reading Remark :=
  match readUntil? ['-', '-'] cs with
  | some (text, '>' :: rest) => some (.comment (String.ofList text), rest)
  | _ => none

/-- A processing instruction, after its opening mark. The target may not be `xml` in any case, and blanks
before the data do not belong to it. -/
def readInstruction? (cs : List Char) : Reading Remark :=
  match readSimpleName? cs with
  | none => none
  | some (target, rest) =>
    if toLower target == "xml" then none
    else match rest with
      | '?' :: '>' :: rest => some (.instruction target "", rest)
      | c :: _ =>
        if isBlank c then
          (readUntil? ['?', '>'] (skipBlanks rest)).map fun (data, rest) =>
            (.instruction target (String.ofList data), rest)
        else none
      | [] => none

end XPathAnnotator.Xml
