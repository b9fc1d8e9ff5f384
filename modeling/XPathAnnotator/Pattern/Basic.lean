/-
**Regular expressions.**

The syntax tree of a regular expression, with the tests that it makes of single characters and places.
Case, line and class options have been worked into the tests, so a tree means the same wherever it stands.

* `CharTest.accepts` — the characters that a test passes;
* `Place.holds` — the places between characters that a test passes;
* `Pattern.width` — how many characters an expression can match.
-/

import XPathAnnotator.Text.Blank
import XPathAnnotator.Text.Case
import XPathAnnotator.Text.Word

namespace XPathAnnotator

/-- The classes of characters that have names. -/
inductive CharClass where
  | digit
  | space
  | word
deriving DecidableEq

/-- Whether a character is in a class, which may be cut down to ASCII. -/
def CharClass.contains (class? : CharClass) (ascii : Bool) (c : Char) : Bool :=
  (!ascii || c.val < 128) && match class? with
    | digit => Text.isDigit c
    | space => Text.isSpace c && !(ascii && 28 ≤ c.val && c.val < 32)
    | word => Text.isWord c

/-- What a set of characters lists. -/
inductive SetItem where
  | code (value : Nat)
  | range (low high : Nat)
  | named (name : CharClass) (negated : Bool)
deriving DecidableEq

/-- Options of a part of an expression. -/
structure PatternFlags where
  ignoreCase : Bool := false
  multiline : Bool := false
  dotAll : Bool := false
  verbose : Bool := false
  ascii : Bool := false
deriving DecidableEq

/-- A test of a character: any, any but a line feed, or a set. -/
inductive CharTest where
  | any
  | notLineFeed
  | set (negated : Bool) (items : List SetItem) (ignoreCase ascii : Bool)

/-- The lower case of a letter, for ASCII letters only or for all. -/
def foldCase (ascii : Bool) (c : Char) : Char :=
  if ascii then c.toLower else Text.lowerLetter c

/-- Whether two lower-case letters stand for each other: they are equal or have one upper case. -/
def isSameLetter (ascii : Bool) (a b : Char) : Bool :=
  a == b || (!ascii && Text.upperLetter a == Text.upperLetter b)

/-- Whether a code point is a character that a letter stands for without regard to case. -/
def isAlike (ascii : Bool) (folded : Char) (code : Nat) : Bool :=
  code.isValidChar && isSameLetter ascii folded (foldCase ascii (Char.ofNat code))

namespace SetItem

/-- Whether an item lists a character. -/
def lists (ascii : Bool) (c : Char) : SetItem → Bool
  | .code value => c.toNat == value
  | range low high => low ≤ c.toNat && c.toNat ≤ high
  | named name negated => name.contains ascii c != negated

/-- Whether an item lists a character that a lower-case letter stands for. -/
def listsLetter (ascii : Bool) (folded : Char) : SetItem → Bool
  | .code value => isAlike ascii folded value
  | range low high =>
    (low ≤ folded.toNat && folded.toNat ≤ high) ||
      (List.range (high + 1 - low)).any fun k => isAlike ascii folded (low + k)
  | named name negated => name.contains ascii folded != negated

end SetItem

/-- Whether a test passes a character. -/
def CharTest.accepts : CharTest → Char → Bool
  | any, _ => true
  | notLineFeed, c => c != '\n'
  | set negated items ignoreCase ascii, c =>
    let listed :=
      if ignoreCase then items.any fun item => item.listsLetter ascii (foldCase ascii c)
      else items.any fun item => item.lists ascii c
    listed != negated

/-- A test of a place between characters. -/
inductive Place where
  | textStart
  | lineStart
  | textEnd
  /-- The end of the text, or the line feed that ends it. -/
  | lastLineEnd
  | lineEnd
  | wordEdge (ascii : Bool)
  | noWordEdge (ascii : Bool)
deriving DecidableEq

/-- Whether a word and something else meet at a place. -/
def isWordEdge (ascii : Bool) (text : Array Char) (at? : Nat) : Bool :=
  let before := match at? with
    | 0 => false
    | k + 1 => (text[k]?.map (CharClass.word.contains ascii)).getD false
  let after := (text[at?]?.map (CharClass.word.contains ascii)).getD false
  before != after

/-- Whether a place of a text passes a test; nothing passes that asks for words in an empty text. -/
def Place.holds (place : Place) (text : Array Char) (at? : Nat) : Bool :=
  match place with
  | textStart => at? == 0
  | lineStart => at? == 0 || text[at? - 1]? == some '\n'
  | textEnd => at? == text.size
  | lastLineEnd => at? == text.size || (at? + 1 == text.size && text[at?]? == some '\n')
  | lineEnd => at? == text.size || text[at?]? == some '\n'
  | wordEdge ascii => !text.isEmpty && isWordEdge ascii text at?
  | noWordEdge ascii => !text.isEmpty && !isWordEdge ascii text at?

/-- How a repetition goes on: as long as possible, as short as possible, or without coming back. -/
inductive Greed where
  | greedy
  | lazy
  | possessive
deriving DecidableEq

/-- A regular expression. -/
inductive Pattern where
  | char (test : CharTest)
  | place (place : Place)
  | sequence (items : List Pattern)
  | choice (options : List Pattern)
  | capture (group : Nat) (body : Pattern)
  | repeated (body : Pattern) (least : Nat) (most : Option Nat) (greed : Greed)
  /-- The text that a group has matched. -/
  | again (group : Nat) (ignoreCase ascii : Bool)
  /-- The text that follows matches, or does not. -/
  | ahead (negated : Bool) (body : Pattern)
  /-- The text of a width that precedes matches, or does not. -/
  | behind (negated : Bool) (width : Nat) (body : Pattern)
  /-- The first match of a body, without coming back to it. -/
  | atomic (body : Pattern)
  /-- One of two bodies, by whether a group has matched. -/
  | conditional (group : Nat) (yes no : Pattern)

instance : Inhabited Pattern := ⟨.sequence []⟩

/-- Why a text is no regular expression that can be used. -/
inductive PatternError where
  | malformed
  /-- A number of rounds is beyond what can be counted. -/
  | tooManyRounds
  /-- The options of the whole expression exclude each other. -/
  | conflictingFlags
deriving DecidableEq

/-- The least and the greatest number of characters that something matches; the greatest may be missing. -/
structure Width where
  least : Nat
  most : Option Nat
deriving DecidableEq

namespace Width

/-- The width of nothing. -/
def zero : Width := ⟨0, some 0⟩

/-- The width of two things after each other. -/
def add (a b : Width) : Width :=
  ⟨a.least + b.least, match a.most, b.most with
    | some m, some n => some (m + n)
    | _, _ => none⟩

/-- The width of one of two things. -/
def either (a b : Width) : Width :=
  ⟨min a.least b.least, match a.most, b.most with
    | some m, some n => some (max m n)
    | _, _ => none⟩

/-- The width of a repetition. -/
def times (a : Width) (least : Nat) (most : Option Nat) : Width :=
  ⟨a.least * least, match a.most, most with
    | some 0, _ => some 0
    | some m, some n => some (m * n)
    | none, some 0 => some 0
    | _, _ => none⟩

/-- The number of characters, if there is only one. -/
def fixed? (a : Width) : Option Nat := if a.most = some a.least then some a.least else none

end Width

namespace Pattern

mutual

/-- The width of an expression, where the widths of groups are known. -/
def width (groups : Nat → Width) : Pattern → Width
  | char _ => ⟨1, some 1⟩
  | place _ => .zero
  | sequence items => widthOfAll groups items
  | choice options => widthOfAny groups options
  | capture _ body => width groups body
  | repeated body least most _ => (width groups body).times least most
  | again group _ _ => groups group
  | ahead _ _ => .zero
  | behind _ _ _ => .zero
  | atomic body => width groups body
  | conditional _ yes no => (width groups yes).either (width groups no)

/-- The width of expressions after each other. -/
def widthOfAll (groups : Nat → Width) : List Pattern → Width
  | [] => .zero
  | p :: ps => (width groups p).add (widthOfAll groups ps)

/-- The width of one of several expressions. -/
def widthOfAny (groups : Nat → Width) : List Pattern → Width
  | [] => .zero
  | [p] => width groups p
  | p :: ps => (width groups p).either (widthOfAny groups ps)

end

end Pattern

end XPathAnnotator
