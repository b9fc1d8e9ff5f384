/-
**JSON text.**

Settings are written as JSON. `Json.parse` reads it by the rules of JSON, where `NaN` and infinities are
numbers too. `Json.parseYaml` reads the same text as a YAML document: a numeral without a point or
without a sign in its exponent is no number there but a text. Integers have no more than 4300 digits.
`Json.pretty` writes plain data over several lines, in ASCII.
-/

import XPathAnnotator.Data.Datum
import XPathAnnotator.Number.Arithmetic
import XPathAnnotator.Text.Integer

namespace XPathAnnotator.Data.Json

open XPathAnnotator XPathAnnotator.Data

/-- Why a text is not read. -/
inductive JsonError where
  | malformed
  /-- An integer has more digits than an integer may be written with. -/
  | tooManyDigits (count : Nat)

/-- The code in four hexadecimal digits, and the characters after it. -/
def readCode? : List Char → Option (Nat × List Char)
  | a :: b :: c :: d :: rest =>
    match Text.hexValue? a, Text.hexValue? b, Text.hexValue? c, Text.hexValue? d with
    | some a, some b, some c, some d => some (((a * 16 + b) * 16 + c) * 16 + d, rest)
    | _, _, _, _ => none
  | _ => none

/-- The character of a code unit that may be the first half of a pair. -/
def joinPair (code : Nat) (rest : List Char) : Char × List Char :=
  if 0xD800 ≤ code && code < 0xDC00 then
    match rest with
    | '\\' :: 'u' :: after =>
      match readCode? after with
      | some (low, after) =>
        if 0xDC00 ≤ low && low < 0xE000 then
          (Char.ofNat (0x10000 + (code - 0xD800) * 0x400 + (low - 0xDC00)), after)
        else ('\uFFFD', rest)
      | none => ('\uFFFD', rest)
    | _ => ('\uFFFD', rest)
  else if 0xDC00 ≤ code && code < 0xE000 then ('\uFFFD', rest)
  else (Char.ofNat code, rest)

/-- The character of an escape of one letter. -/
def escaped? : Char → Option Char
  | '"' => some '"'
  | '\\' => some '\\'
  | '/' => some '/'
  | 'b' => some '\x08'
  | 'f' => some '\x0c'
  | 'n' => some '\n'
  | 'r' => some '\r'
  | 't' => some '\t'
  | _ => none

/-- The text up to the closing quote, and the characters after it; `read` holds the characters read so far,
in reverse. -/
def readText (read : List Char) : Nat → List Char → Except JsonError (String × List Char)
  | 0, _ => .error .malformed
  | fuel + 1, cs =>
    match cs with
    | [] => .error .malformed
    | '"' :: rest => .ok (String.ofList read.reverse, rest)
    | '\\' :: 'u' :: rest =>
      match readCode? rest with
      | none => .error .malformed
      | some (code, rest) =>
        let (c, rest) := joinPair code rest
        readText (c :: read) fuel rest
    | '\\' :: c :: rest =>
      match escaped? c with
      | none => .error .malformed
      | some c => readText (c :: read) fuel rest
    | c :: rest => if c.toNat < 32 || c == '\\' then .error .malformed else readText (c :: read) fuel rest

/-- The parts of a numeral: its sign, whole digits, and optional fraction and exponent. -/
structure Numeral where
  negative : Bool
  whole : List Char
  fraction : Option (List Char)
  exponentSign : Option Char
  exponent : Option (List Char)

/-- The digits at the start of a row of characters. -/
def digitsOf (cs : List Char) : List Char × List Char := (cs.takeWhile Char.isDigit, cs.dropWhile Char.isDigit)

/-- The fraction after the whole digits of a numeral. -/
def readFraction (cs : List Char) : Option (List Char) × List Char :=
  match cs with
  | '.' :: rest =>
    match digitsOf rest with
    | ([], _) => (none, cs)
    | (digits, rest) => (some digits, rest)
  | _ => (none, cs)

/-- The exponent at the end of a numeral. -/
def readExponent (cs : List Char) : Option Char × Option (List Char) × List Char :=
  match cs with
  | e :: rest =>
    if e == 'e' || e == 'E' then
      let (sign, digits) := match rest with
        | '+' :: rest => (some '+', rest)
        | '-' :: rest => (some '-', rest)
        | rest => (none, rest)
      match digitsOf digits with
      | ([], _) => (none, none, cs)
      | (digits, rest) => (sign, some digits, rest)
    else (none, none, cs)
  | [] => (none, none, cs)

/-- The numeral at the start of a row of characters, and the characters after it. -/
def readNumeral? (cs : List Char) : Option (Numeral × List Char) :=
  let negative := cs.head? == some '-'
  let unsigned := if negative then cs.tail else cs
  let whole := match unsigned with
    | '0' :: rest => (['0'], rest)
    | _ => digitsOf unsigned
  match whole with
  | ([], _) => none
  | (whole, rest) =>
    let (fraction, rest) := readFraction rest
    let (sign, exponent, rest) := readExponent rest
    some (⟨negative, whole, fraction, sign, exponent⟩, rest)

/-- A decimal exponent beyond which every number is infinite or zero, whatever its digits. -/
def exponentLimit : Nat := 100000

namespace Numeral

/-- Whether a numeral has neither fraction nor exponent. -/
def isInteger (n : Numeral) : Bool := n.fraction.isNone && n.exponent.isNone

/-- The integer that the whole digits denote. -/
def integer (n : Numeral) : Int :=
  let size : Int := Number.digitsValue n.whole
  if n.negative then -size else size

/-- The number nearest to the one that a numeral denotes. -/
def number (n : Numeral) : Float :=
  let fraction := n.fraction.getD []
  let digits := Number.digitsValue (n.whole ++ fraction)
  let power := min exponentLimit (Number.digitsValue (n.exponent.getD []))
  let scale : Int := (if n.exponentSign == some '-' then -(power : Int) else power) - fraction.length
  let size :=
    if digits == 0 then 0.0
    else if scale ≥ 0 then Float.ofScientific digits false scale.toNat
    else Float.ofScientific digits true (-scale).toNat
  if n.negative then -size else size

/-- The written form of a numeral. -/
def text (n : Numeral) (letter : Char) : String :=
  String.ofList ((if n.negative then ['-'] else []) ++ n.whole ++
    (match n.fraction with
      | some digits => '.' :: digits
      | none => []) ++
    (match n.exponent with
      | some digits => letter :: n.exponentSign.toList ++ digits
      | none => []))

end Numeral

/-- Which characters may stand between the marks, which numerals with a fraction or an exponent are numbers,
what words without quotes stand for, and whether the digits of integers are counted. -/
structure Dialect where
  isBlank : Char → Bool
  isNumber : Numeral → Bool
  words : List (String × Setting)
  countsDigits : Bool

/-- The word that a row of characters begins with, and the characters after it. -/
def wordAt (words : List (String × Setting)) (cs : List Char) : Except JsonError (Setting × List Char) :=
  match words with
  | [] => .error .malformed
  | (word, value) :: words =>
    if word.toList.isPrefixOf cs then .ok (value, cs.drop word.length) else wordAt words cs

/-- The rules of JSON. -/
def strict : Dialect where
  isBlank := Text.isBlank
  isNumber _ := true
  words := [("null", .null), ("true", .truth true), ("false", .truth false),
    ("NaN", .number Number.notANumber), ("Infinity", .number Number.infinity),
    ("-Infinity", .number (-Number.infinity))]
  countsDigits := true

/-- The rules of YAML for text that is written as JSON. No tabs stand between the marks. -/
def yaml : Dialect where
  isBlank c := Text.isBlank c && c != '\t'
  isNumber n := n.fraction.isSome && (n.exponent.isNone || n.exponentSign.isSome)
  words := [("null", .null), ("true", .truth true), ("false", .truth false),
    ("NaN", .text "NaN"), ("Infinity", .text "Infinity"), ("-Infinity", .text "-Infinity")]
  countsDigits := true

/-- What a numeral stands for, with the letter of its exponent. -/
def Dialect.valueOf (dialect : Dialect) (n : Numeral) (letter : Char) : Except JsonError Setting :=
  if n.isInteger then
    if dialect.countsDigits && Text.maxIntegerDigits < n.whole.length then
      .error (.tooManyDigits n.whole.length)
    else .ok (.integer n.integer)
  else if dialect.isNumber n then .ok (.number n.number)
  else .ok (.text (n.text letter))

/-- The letter of the exponent of a numeral. -/
def exponentLetter (cs : List Char) : Char :=
  if (cs.takeWhile fun c => c.isDigit || c == '-' || c == '.').length <
      (cs.takeWhile fun c => c.isDigit || c == '-' || c == '.' || c == 'E').length then 'E' else 'e'

/-- The characters after leading blanks. -/
def Dialect.skip (dialect : Dialect) (cs : List Char) : List Char := cs.dropWhile dialect.isBlank

mutual

/-- The value that a row of characters begins with, and the characters after it. -/
def readValue (dialect : Dialect) : Nat → List Char → Except JsonError (Setting × List Char)
  | 0, _ => .error .malformed
  | fuel + 1, cs =>
    match cs with
    | '"' :: rest => do
      let (text, rest) ← readText [] (rest.length + 1) rest
      return (.text text, rest)
    | '[' :: rest =>
      match dialect.skip rest with
      | ']' :: rest => return (.list [], rest)
      | rest => do
        let (items, rest) ← readItems dialect fuel rest
        return (.list items, rest)
    | '{' :: rest =>
      match dialect.skip rest with
      | '}' :: rest => return (.mapping [], rest)
      | rest => do
        let (entries, rest) ← readEntries dialect [] fuel rest
        return (.mapping entries, rest)
    | cs =>
      match readNumeral? cs with
      | some (numeral, rest) => do
        let value ← dialect.valueOf numeral (exponentLetter cs)
        return (value, rest)
      | none => wordAt dialect.words cs

/-- The items of a list up to its closing bracket. -/
def readItems (dialect : Dialect) : Nat → List Char → Except JsonError (List Setting × List Char)
  | 0, _ => .error .malformed
  | fuel + 1, cs => do
    let (item, rest) ← readValue dialect fuel (dialect.skip cs)
    match dialect.skip rest with
    | ',' :: rest =>
      let (items, rest) ← readItems dialect fuel rest
      return (item :: items, rest)
    | ']' :: rest => return ([item], rest)
    | _ => throw .malformed

/-- The entries of a mapping up to its closing brace, added to those already read. -/
def readEntries (dialect : Dialect) (read : List (String × Setting)) :
    Nat → List Char → Except JsonError (List (String × Setting) × List Char)
  | 0, _ => .error .malformed
  | fuel + 1, cs =>
    match dialect.skip cs with
    | '"' :: rest => do
      let (key, rest) ← readText [] (rest.length + 1) rest
      match dialect.skip rest with
      | ':' :: rest =>
        let (value, rest) ← readValue dialect fuel (dialect.skip rest)
        let read := Datum.put key value read
        match dialect.skip rest with
        | ',' :: rest => readEntries dialect read fuel rest
        | '}' :: rest => return (read, rest)
        | _ => throw .malformed
      | _ => throw .malformed
    | _ => .error .malformed

end

/-- The value that a whole text is written for. -/
def readWith (dialect : Dialect) (text : String) : Except JsonError Setting := do
  let cs := dialect.skip text.toList
  let (value, rest) ← readValue dialect (2 * cs.length + 2) cs
  if (dialect.skip rest).isEmpty then return value else throw .malformed

/-- The value that a text is the JSON of. -/
def parse (text : String) : Except JsonError Setting := readWith strict text

/-- The value that a text is the JSON of, if it is. -/
def parse? (text : String) : Option Setting := (parse text).toOption

/-- Whether a character may stand in a YAML document. -/
def isAllowedInYaml (c : Char) : Bool :=
  let code := c.toNat
  code == 9 || code == 10 || code == 13 || (32 ≤ code && code ≤ 126) || code == 133 ||
    (160 ≤ code && code != 0xFFFE && code != 0xFFFF)

/-- The value that a text is read as in YAML; a blank text is null. A document is read as a whole before
the digits of its integers are counted. -/
def parseYaml (text : String) : Except JsonError Setting :=
  if !text.toList.all isAllowedInYaml then .error .malformed
  else if (yaml.skip text.toList).isEmpty then .ok .null
  else do
    let _ ← readWith { yaml with countsDigits := false } text
    readWith yaml text

/-- The escape of a code unit. -/
def unitEscape (code : Nat) : List Char := ['\\', 'u'] ++ Text.hexDigits 4 code

/-- How one character is written in JSON, in ASCII. -/
def escapedChar (c : Char) : List Char :=
  if c == '"' || c == '\\' then ['\\', c]
  else if c == '\n' then ['\\', 'n']
  else if c == '\r' then ['\\', 'r']
  else if c == '\t' then ['\\', 't']
  else if c == '\x08' then ['\\', 'b']
  else if c == '\x0c' then ['\\', 'f']
  else if 32 ≤ c.toNat && c.toNat < 127 then [c]
  else if c.toNat < 0x10000 then unitEscape c.toNat
  else
    let offset := c.toNat - 0x10000
    unitEscape (0xD800 + offset / 0x400) ++ unitEscape (0xDC00 + offset % 0x400)

/-- A text in JSON. -/
def ofText (text : String) : String :=
  String.ofList ('"' :: text.toList.flatMap escapedChar ++ ['"'])

/-- A number in JSON. -/
def ofNumber (x : Float) : String :=
  if x.isNaN then "NaN" else if x.isInf then (if x > 0 then "Infinity" else "-Infinity")
  else Number.shown x

/-- A line break with an indentation of two spaces a level. -/
def newline (level : Nat) : String := "\n" ++ String.ofList (List.replicate (2 * level) ' ')

mutual

/-- A setting in JSON over several lines, at a level of nesting. -/
def prettyAt (level : Nat) : Setting → String
  | .null => "null"
  | .truth value => if value then "true" else "false"
  | .integer value => toString value
  | .number value => ofNumber value
  | .text value => ofText value
  | .list [] => "[]"
  | .list (item :: items) =>
    "[" ++ newline (level + 1) ++ prettyAt (level + 1) item ++ prettyItems (level + 1) items ++
      newline level ++ "]"
  | .mapping [] => "\x7b\x7d"
  | .mapping ((key, value) :: entries) =>
    "\x7b" ++ newline (level + 1) ++ ofText key ++ ": " ++ prettyAt (level + 1) value ++
      prettyEntries (level + 1) entries ++ newline level ++ "\x7d"
  | .foreign value => nomatch value

/-- The items of a list after its first. -/
def prettyItems (level : Nat) : List Setting → String
  | [] => ""
  | item :: items => "," ++ newline level ++ prettyAt level item ++ prettyItems level items

/-- The entries of a mapping after its first. -/
def prettyEntries (level : Nat) : List (String × Setting) → String
  | [] => ""
  | (key, value) :: entries =>
    "," ++ newline level ++ ofText key ++ ": " ++ prettyAt level value ++ prettyEntries level entries

end

/-- A setting in JSON over several lines. -/
def pretty (s : Setting) : String := prettyAt 0 s

mutual

/-- Writes a setting in JSON without blanks behind a text. -/
def writeBehind (written : String) : Setting → String
  | .null => written ++ "null"
  | .truth value => written ++ (if value then "true" else "false")
  | .integer value => written ++ toString value
  | .number value => written ++ ofNumber value
  | .text value => written ++ ofText value
  | .list [] => written ++ "[]"
  | .list (item :: items) => writeItems (writeBehind (written ++ "[") item) items ++ "]"
  | .mapping [] => written ++ "\x7b\x7d"
  | .mapping ((key, value) :: entries) =>
    writeEntries (writeBehind (written ++ "\x7b" ++ ofText key ++ ":") value) entries ++ "\x7d"
  | .foreign value => nomatch value

/-- Writes the items of a list after its first. -/
def writeItems (written : String) : List Setting → String
  | [] => written
  | item :: items => writeItems (writeBehind (written ++ ",") item) items

/-- Writes the entries of a mapping after its first. -/
def writeEntries (written : String) : List (String × Setting) → String
  | [] => written
  | (key, value) :: entries =>
    writeEntries (writeBehind (written ++ "," ++ ofText key ++ ":") value) entries

end

/-- A setting in JSON on one line. -/
def compact (s : Setting) : String := writeBehind "" s

end XPathAnnotator.Data.Json
