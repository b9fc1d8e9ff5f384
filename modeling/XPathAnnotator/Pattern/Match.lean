/-
**Matching regular expressions.**

Alternatives are tried in their order and repetitions by their greed; the first way that lets the rest of
the expression match is taken. A matcher is given the rest as a function of the place and the groups
reached. An unbounded repetition goes on only from a place that its last round has moved away from.

* `Pattern.search` — the first match in a text;
* `Match` — the matched part with its groups.
-/

import XPathAnnotator.Pattern.Basic

namespace XPathAnnotator

/-- The parts of a text that groups have matched, by the numbers of the groups. -/
abbrev Captures := Array (Option (Nat × Nat))

/-- The part of a text that an expression has matched, with its groups. -/
structure Match where
  text : Array Char
  start : Nat
  finish : Nat
  captures : Captures

/-- What follows from a place with the groups matched so far, if anything does. -/
abbrev Continuation := Nat → Captures → Option (Nat × Captures)

/-- What an expression matches from a place, going on with the rest. -/
abbrev MatchStep := Nat → Captures → Continuation → Option (Nat × Captures)

namespace MatchStep

/-- Whether a number of rounds may grow. -/
def mayGrow (most : Option Nat) (rounds : Nat) : Bool :=
  match most with
  | some most => rounds < most
  | none => true

/-- Repeats a body as often as possible, where `last` is the place of the last round that was not asked
for. -/
def greedy (body : MatchStep) (least : Nat) (most : Option Nat) :
    Nat → Nat → Option Nat → Nat → Captures → Continuation → Option (Nat × Captures)
  | 0, _, _, _, _, _ => none
  | fuel + 1, rounds, last, place, captures, rest =>
    if rounds < least then
      body place captures fun next captures =>
        greedy body least most fuel (rounds + 1) last next captures rest
    else if mayGrow most rounds && last != some place then
      match body place captures fun next captures =>
          greedy body least most fuel (rounds + 1) (some place) next captures rest with
      | some found => some found
      | none => rest place captures
    else rest place captures

/-- Repeats a body as seldom as possible. -/
def lazy (body : MatchStep) (least : Nat) (most : Option Nat) :
    Nat → Nat → Option Nat → Nat → Captures → Continuation → Option (Nat × Captures)
  | 0, _, _, _, _, _ => none
  | fuel + 1, rounds, last, place, captures, rest =>
    if rounds < least then
      body place captures fun next captures =>
        lazy body least most fuel (rounds + 1) last next captures rest
    else match rest place captures with
      | some found => some found
      | none =>
        if mayGrow most rounds && last != some place then
          body place captures fun next captures =>
            lazy body least most fuel (rounds + 1) (some place) next captures rest
        else none

/-- The end of as many rounds as possible, each by its first match. -/
def possessive (body : MatchStep) (least : Nat) (most : Option Nat) :
    Nat → Nat → Option Nat → Nat → Captures → Option (Nat × Captures)
  | 0, _, _, _, _ => none
  | fuel + 1, rounds, last, place, captures =>
    if rounds < least then
      match body place captures fun next captures => some (next, captures) with
      | some (next, captures) => possessive body least most fuel (rounds + 1) last next captures
      | none => none
    else if mayGrow most rounds && last != some place then
      match body place captures fun next captures => some (next, captures) with
      | some (next, captures) =>
        possessive body least most fuel (rounds + 1) (some place) next captures
      | none => some (place, captures)
    else some (place, captures)

/-- The number of characters from a place on that pass a test, up to a bound. -/
def countFrom (accepts : Char → Bool) (text : Array Char) (place : Nat) : Nat → Nat
  | 0 => 0
  | bound + 1 =>
    if (text[place]?.map accepts).getD false then countFrom accepts text (place + 1) bound + 1 else 0

/-- Goes on after the greatest number of characters that lets the rest match, from a number down to the
least. -/
def downTo (least place : Nat) (captures : Captures) (rest : Continuation) :
    Nat → Option (Nat × Captures)
  | 0 => if least = 0 then rest place captures else none
  | count + 1 =>
    if count + 1 < least then none
    else match rest (place + (count + 1)) captures with
      | some found => some found
      | none => downTo least place captures rest count

/-- Goes on after the least number of characters that lets the rest match, from a number up by as many
as there are. -/
def upFrom (place : Nat) (captures : Captures) (rest : Continuation) :
    Nat → Nat → Option (Nat × Captures)
  | count, 0 => rest (place + count) captures
  | count, more + 1 =>
    match rest (place + count) captures with
    | some found => some found
    | none => upFrom place captures rest (count + 1) more

/-- Repeats a test of single characters. -/
def characters (accepts : Char → Bool) (text : Array Char) (least : Nat) (most : Option Nat)
    (greed : Greed) : MatchStep := fun place captures rest =>
  let count := countFrom accepts text place (min (text.size - place) (most.getD text.size))
  if count < least then none
  else match greed with
    | .greedy => downTo least place captures rest count
    | .lazy => upFrom place captures rest least (count - least)
    | .possessive => rest (place + count) captures

/-- Repeats a body. -/
def rounds (body : MatchStep) (text : Array Char) (least : Nat) (most : Option Nat) (greed : Greed) :
    MatchStep := fun place captures rest =>
  let fuel := least + text.size + 3
  match greed with
  | .greedy => greedy body least most fuel 0 none place captures rest
  | .lazy => lazy body least most fuel 0 none place captures rest
  | .possessive =>
    match possessive body least most fuel 0 none place captures with
    | some (next, captures) => rest next captures
    | none => none

end MatchStep

/-- The place after a row of characters, if a text has it at a place. -/
def matchChars (isSame : Char → Char → Bool) (text : Array Char) (place : Nat) :
    List Char → Option Nat
  | [] => some place
  | c :: cs =>
    if (text[place]?.map (isSame c)).getD false then matchChars isSame text (place + 1) cs else none

/-- The part of a text between two places. -/
def partBetween (text : Array Char) (start finish : Nat) : List Char :=
  (text.toList.drop start).take (finish - start)

namespace Pattern

mutual

/-- What an expression matches in a text. -/
def run (text : Array Char) : Pattern → MatchStep
  | char test => fun place captures rest =>
    if (text[place]?.map test.accepts).getD false then rest (place + 1) captures else none
  | .place test => fun place captures rest =>
    if test.holds text place then rest place captures else none
  | sequence items => runAll text items
  | choice options => runAny text options
  | capture group body => fun place captures rest =>
    run text body place captures fun next captures =>
      rest next (captures.setIfInBounds group (some (place, next)))
  | repeated (char test) least most greed => MatchStep.characters test.accepts text least most greed
  | repeated body least most greed => MatchStep.rounds (run text body) text least most greed
  | again group ignoreCase ascii => fun place captures rest =>
    match captures[group]? with
    | some (some (start, finish)) =>
      let isSame := fun a b : Char =>
        if ignoreCase then foldCase ascii a == foldCase ascii b else a == b
      match matchChars isSame text place (partBetween text start finish) with
      | some next => rest next captures
      | none => none
    | _ => none
  | ahead negated body => fun place captures rest =>
    match run text body place captures fun next captures => some (next, captures) with
    | some (_, found) => if negated then none else rest place found
    | none => if negated then rest place captures else none
  | behind negated width body => fun place captures rest =>
    let found :=
      if place < width then none
      else run text body (place - width) captures fun next captures => some (next, captures)
    match found with
    | some (_, found) => if negated then none else rest place found
    | none => if negated then rest place captures else none
  | atomic body => fun place captures rest =>
    match run text body place captures fun next captures => some (next, captures) with
    | some (next, captures) => rest next captures
    | none => none
  | conditional group yes no => fun place captures rest =>
    match captures[group]? with
    | some (some _) => run text yes place captures rest
    | _ => run text no place captures rest

/-- What expressions match one after the other. -/
def runAll (text : Array Char) : List Pattern → MatchStep
  | [] => fun place captures rest => rest place captures
  | p :: ps => fun place captures rest =>
    run text p place captures fun next captures => runAll text ps next captures rest

/-- What the first of several expressions matches that lets the rest match. -/
def runAny (text : Array Char) : List Pattern → MatchStep
  | [] => fun _ _ _ => none
  | p :: ps => fun place captures rest =>
    match run text p place captures rest with
    | some found => some found
    | none => runAny text ps place captures rest

end

/-- The first match from a place on, where the fuel bounds the number of places. -/
def searchFrom (groups : Nat) (pattern : Pattern) (text : Array Char) : Nat → Nat → Option Match
  | 0, _ => none
  | fuel + 1, start =>
    match run text pattern start (Array.replicate (groups + 1) none)
        fun finish captures => some (finish, captures) with
    | some (finish, captures) => some ⟨text, start, finish, captures⟩
    | none => searchFrom groups pattern text fuel (start + 1)

/-- The first match in a text of an expression with a number of groups. -/
def search (groups : Nat) (pattern : Pattern) (text : String) : Option Match :=
  let text := text.toList.toArray
  searchFrom groups pattern text (text.size + 1) 0

end Pattern

namespace Match

/-- The matched text. -/
def whole (m : Match) : String := String.ofList (partBetween m.text m.start m.finish)

/-- The text before the match. -/
def before (m : Match) : String := String.ofList (partBetween m.text 0 m.start)

/-- The text after the match. -/
def after (m : Match) : String := String.ofList (partBetween m.text m.finish m.text.size)

/-- The text of a group, empty if the group has not matched. -/
def group (m : Match) (number : Nat) : String :=
  match m.captures[number]? with
  | some (some (start, finish)) => String.ofList (partBetween m.text start finish)
  | _ => ""

end Match

end XPathAnnotator
