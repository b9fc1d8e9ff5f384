/-
**Reading regular expressions.**

`Pattern.parse` reads the written form of an expression: alternatives, quantifiers with their greed,
groups (numbered, named, atomic, conditional, with options of their own), looks ahead and behind, sets of
characters, escapes and comments. What a look behind can match must have one width.

Matchers write a named group as `(?<name>…)`, where the reader wants `(?P<name>…)`. `spellGroups` writes the
one as the other; what follows a backslash is passed over, and looks behind are left alone.
-/

import XPathAnnotator.Pattern.Basic
import XPathAnnotator.Text.Integer

namespace XPathAnnotator

namespace Pattern

/-- A character of the written form, or a character after a backslash. -/
inductive Sign where
  | plain (c : Char)
  | escaped (c : Char)
deriving DecidableEq

/-- The signs of a written form; a backslash may not end it. -/
def signs : List Char → Option (List Sign)
  | [] => some []
  | ['\\'] => none
  | '\\' :: c :: rest => (signs rest).map (.escaped c :: ·)
  | c :: rest => (signs rest).map (.plain c :: ·)

/-- What has been read so far: the signs that are left, the groups with their names and, once they are
closed, their widths, the number of groups at the start of the outermost look behind, the groups that
conditions ask for, and the options of the whole expression. -/
structure Reading where
  rest : List Sign
  groups : Nat := 0
  names : List (String × Nat) := []
  widths : List (Nat × Width) := []
  behindFrom : Option Nat := none
  asked : List Nat := []
  flags : PatternFlags := {}
  unicode : Bool := false

/-- A step of reading. -/
abbrev Reader (α : Type) := StateT Reading (Except PatternError) α

/-- Gives up on the text. -/
def refuse {α : Type} : Reader α := throw .malformed

/-- Gives up unless a condition holds. -/
def require (condition : Bool) : Reader Unit := if condition then pure () else refuse

/-- The next sign. -/
def peek : Reader (Option Sign) := do return (← get).rest.head?

/-- Passes over the next sign. -/
def skip : Reader Unit := modify fun r => { r with rest := r.rest.tail }

/-- The next sign, which is passed over. -/
def next : Reader (Option Sign) := do
  let sign ← peek
  skip
  return sign

/-- Passes over a character if it is next. -/
def accept (c : Char) : Reader Bool := do
  if (← peek) == some (.plain c) then
    skip
    return true
  else return false

/-- Passes over a character that must be next. -/
def expect (c : Char) : Reader Unit := do require (← accept c)

/-- The next plain characters of a class, up to a number of them. -/
def takeWhile (class? : Char → Bool) (bound : Nat) : Reader (List Char) := do
  let r ← get
  let taken := (r.rest.take bound).takeWhile fun
    | .plain c => class? c
    | .escaped _ => false
  set { r with rest := r.rest.drop taken.length }
  return taken.filterMap fun
    | .plain c => some c
    | .escaped _ => none

/-- The characters that signs are written with. -/
def written : Sign → List Char
  | .plain c => [c]
  | .escaped c => ['\\', c]

/-- The text up to a character, which is passed over; it must have something in it. -/
def takeUntil (mark : Char) : Reader String := do
  let r ← get
  let taken := r.rest.takeWhile (· != .plain mark)
  require (taken.length < r.rest.length && !taken.isEmpty)
  set { r with rest := r.rest.drop (taken.length + 1) }
  return String.ofList (taken.flatMap written)

/-- Whether a text can be the name of a group. -/
def isGroupName (name : String) : Bool :=
  match name.toList with
  | [] => false
  | c :: cs => Text.isWord c && !Text.isDigit c && cs.all Text.isWord

/-! ### Characters -/

/-- An ASCII digit. -/
def isDecimal (c : Char) : Bool := '0' ≤ c && c ≤ '9'

/-- An octal digit. -/
def isOctal (c : Char) : Bool := '0' ≤ c && c ≤ '7'

/-- A hexadecimal digit. -/
def isHex (c : Char) : Bool := isDecimal c || ('a' ≤ c && c ≤ 'f') || ('A' ≤ c && c ≤ 'F')

/-- The value of digits in a base. -/
def valueIn (base : Nat) (digits : List Char) : Nat :=
  digits.foldl (fun value c => value * base + (Text.hexValue? c).getD 0) 0

/-- The control character that a letter stands for after a backslash. -/
def control? : Char → Option Nat
  | 'a' => some 7
  | 'b' => some 8
  | 'f' => some 12
  | 'n' => some 10
  | 'r' => some 13
  | 't' => some 9
  | 'v' => some 11
  | '\\' => some 92
  | _ => none

/-- The class of characters that a letter stands for after a backslash. -/
def class? : Char → Option SetItem
  | 'd' => some (.named .digit false)
  | 'D' => some (.named .digit true)
  | 's' => some (.named .space false)
  | 'S' => some (.named .space true)
  | 'w' => some (.named .word false)
  | 'W' => some (.named .word true)
  | _ => none

/-- A number of hexadecimal digits, all of which must be there. -/
def hexCode (count : Nat) : Reader Nat := do
  let digits ← takeWhile isHex count
  require (digits.length == count)
  return valueIn 16 digits

/-- The code that a letter introduces after a backslash, if it does. -/
def hexEscape? (c : Char) : Reader (Option Nat) := do
  match c with
  | 'x' => return some (← hexCode 2)
  | 'u' => return some (← hexCode 4)
  | 'U' =>
    let code ← hexCode 8
    require (code < 0x110000)
    return some code
  | _ => return none

/-- A character that stands for itself after a backslash: any but ASCII letters and digits. -/
def standsForItself (c : Char) : Bool := !(c.isAlpha || isDecimal c)

/-- What a character after a backslash means in a set. -/
def setEscape (c : Char) : Reader SetItem := do
  match control? c, class? c with
  | some code, _ => return .code code
  | none, some item => return item
  | none, none =>
    match ← hexEscape? c with
    | some code => return .code code
    | none =>
      if isOctal c then
        let code := valueIn 8 (c :: (← takeWhile isOctal 2))
        require (code ≤ 255)
        return .code code
      else
        require (standsForItself c)
        return .code c.toNat

/-- What a sign means in a set. -/
def setSign : Sign → Reader SetItem
  | .plain c => pure (.code c.toNat)
  | .escaped c => setEscape c

/-- The range between two items, which must be single characters in their order. -/
def rangeOf : SetItem → SetItem → Reader SetItem
  | .code low, .code high => do
    require (low ≤ high)
    return .range low high
  | _, _ => refuse

/-- The items of a set up to the bracket that closes it, where the fuel bounds their number. -/
def setItems : Nat → List SetItem → Reader (List SetItem)
  | 0, _ => refuse
  | fuel + 1, items => do
    match ← next with
    | none => refuse
    | some sign =>
      if sign == .plain ']' && !items.isEmpty then return items.reverse
      else
        let first ← setSign sign
        if ← accept '-' then
          match ← next with
          | none => refuse
          | some (.plain ']') => return (SetItem.code 45 :: first :: items).reverse
          | some sign => setItems fuel ((← rangeOf first (← setSign sign)) :: items)
        else setItems fuel (first :: items)

/-- The test of a single code point. -/
def literal (flags : PatternFlags) (code : Nat) : Pattern :=
  char (.set false [.code code] flags.ignoreCase flags.ascii)

/-- A set of characters after its opening bracket. -/
def readSet (flags : PatternFlags) : Reader Pattern := do
  let negated ← accept '^'
  let items ← setItems ((← get).rest.length + 1) []
  return char (.set negated items flags.ignoreCase flags.ascii)

/-! ### Groups that are referred to -/

/-- Fails where a look behind asks for a group that is open or that stands in it. -/
def checkBehind (group : Nat) : Reader Unit := do
  let r ← get
  match r.behindFrom with
  | none => pure ()
  | some known => require ((r.widths.lookup group).isSome && group ≤ known)

/-- The text of a group that is closed. -/
def readAgain (flags : PatternFlags) (group : Nat) : Reader Pattern := do
  let r ← get
  require (0 < group && group ≤ r.groups && (r.widths.lookup group).isSome)
  checkBehind group
  return again group flags.ignoreCase flags.ascii

/-- What digits after a backslash mean: a code of three octal digits, or the text of a group. -/
def readNumber (flags : PatternFlags) (c : Char) : Reader Pattern := do
  match ← takeWhile isDecimal 1 with
  | [d] =>
    match (← get).rest with
    | .plain e :: _ =>
      if isOctal c && isOctal d && isOctal e then
        skip
        let code := valueIn 8 [c, d, e]
        require (code ≤ 255)
        return literal flags code
      else readAgain flags (valueIn 10 [c, d])
    | _ => readAgain flags (valueIn 10 [c, d])
  | _ => readAgain flags (valueIn 10 [c])

/-- What a character after a backslash means. -/
def readEscape (flags : PatternFlags) (c : Char) : Reader Pattern := do
  match c with
  | 'A' => return .place .textStart
  | 'Z' => return .place .textEnd
  | 'b' => return .place (.wordEdge flags.ascii)
  | 'B' => return .place (.noWordEdge flags.ascii)
  | '0' => return literal flags (valueIn 8 ('0' :: (← takeWhile isOctal 2)))
  | c =>
    match class? c, control? c with
    | some item, _ => return char (.set false [item] flags.ignoreCase flags.ascii)
    | none, some code => return literal flags code
    | none, none =>
      match ← hexEscape? c with
      | some code => return literal flags code
      | none =>
        if isDecimal c then readNumber flags c
        else
          require (standsForItself c)
          return literal flags c.toNat

/-! ### Options -/

/-- The letters of options. -/
def isFlag (c : Char) : Bool := "iLmsxatu".toList.contains c

/-- Options turned on by letters. -/
def PatternFlags.on (flags : PatternFlags) (letters : List Char) : PatternFlags :=
  { ignoreCase := flags.ignoreCase || letters.contains 'i'
    multiline := flags.multiline || letters.contains 'm'
    dotAll := flags.dotAll || letters.contains 's'
    verbose := flags.verbose || letters.contains 'x'
    ascii := (flags.ascii && !letters.contains 'u') || letters.contains 'a' }

/-- What has been read, with letters of options of the whole expression. -/
def Reading.withFlags (r : Reading) (letters : List Char) : Reading :=
  let flags := PatternFlags.on r.flags letters
  { r with
    flags := { flags with ascii := r.flags.ascii || letters.contains 'a' }
    unicode := r.unicode || letters.contains 'u' }

/-- Options turned off by letters. -/
def PatternFlags.off (flags : PatternFlags) (letters : List Char) : PatternFlags :=
  { flags with
    ignoreCase := flags.ignoreCase && !letters.contains 'i'
    multiline := flags.multiline && !letters.contains 'm'
    dotAll := flags.dotAll && !letters.contains 's'
    verbose := flags.verbose && !letters.contains 'x' }

/-- The letters of options up to a character that is none. -/
def readLetters : Reader (List Char) := do takeWhile isFlag (← get).rest.length

/-- Options after the question mark of a group: the letters turned on, and those turned off in a group of
their own, none if the options are those of the whole expression. -/
def readFlags : Reader (List Char × Option (List Char)) := do
  let on ← readLetters
  require (!on.contains 'L' && !(on.contains 'a' && on.contains 'u'))
  if !on.isEmpty && (← accept ')') then return (on, none)
  require (!on.contains 't')
  if !on.isEmpty && (← accept ':') then return (on, some [])
  expect '-'
  let off ← readLetters
  require (!off.isEmpty && off.all fun c => !"aLut".toList.contains c && !on.contains c)
  expect ':'
  return (on, some off)

/-! ### Quantifiers -/

/-- The numbers of rounds that a text cannot ask for. -/
def roundsLimit : Nat := 4294967295

/-- The number that digits ask for, if there are digits. -/
def roundsOf (digits : List Char) : Reader (Option Nat) := do
  if digits.isEmpty then return none
  let count := valueIn 10 digits
  if roundsLimit ≤ count then throw .tooManyRounds
  return some count

/-- The bounds of rounds in braces, after the opening one; none if the brace stands for itself. -/
def readBounds : Reader (Option (Nat × Option Nat)) := do
  let r ← get
  if (← peek) == some (.plain '}') then return none
  let low ← takeWhile isDecimal r.rest.length
  let high ← if ← accept ',' then takeWhile isDecimal r.rest.length else pure low
  if ← accept '}' then
    let least := (← roundsOf low).getD 0
    let most ← roundsOf high
    require ((most.map fun most => decide (least ≤ most)).getD true)
    return some (least, most)
  else
    set r
    return none

/-- The bounds of rounds that a quantifier means, after its first character; none if that stands for
itself. -/
def readQuantifier (c : Char) : Reader (Option (Nat × Option Nat)) :=
  match c with
  | '?' => pure (some (0, some 1))
  | '*' => pure (some (0, none))
  | '+' => pure (some (1, none))
  | _ => readBounds

/-- Whether an item can be repeated: places and repetitions cannot. -/
def isRepeatable : Pattern → Bool
  | .place _ => false
  | repeated _ _ _ _ => false
  | _ => true

/-- The greed of a repetition, by the character that follows its quantifier. -/
def readGreed : Reader Greed := do
  if ← accept '?' then return .lazy
  if ← accept '+' then return .possessive
  return .greedy

/-- The items read so far, the last one repeated. -/
def repeatLast (bounds : Nat × Option Nat) (items : List Pattern) : Reader (List Pattern) := do
  match items with
  | [] => refuse
  | item :: items =>
    require (isRepeatable item)
    return repeated item bounds.1 bounds.2 (← readGreed) :: items

/-! ### Expressions -/

/-- Opens a group, with a name if it has one, and gives its number. -/
def openGroup (name : Option String) : Reader Nat := do
  let r ← get
  let group := r.groups + 1
  match name with
  | none => set { r with groups := group }
  | some name =>
    require (isGroupName name && (r.names.lookup name).isNone)
    set { r with groups := group, names := r.names ++ [(name, group)] }
  return group

/-- The widths of the groups that are closed. -/
def groupWidth (r : Reading) (group : Nat) : Width := (r.widths.lookup group).getD .zero

/-- Closes a group. -/
def closeGroup (group : Nat) (body : Pattern) : Reader Unit :=
  modify fun r => { r with widths := (group, width (groupWidth r) body) :: r.widths }

/-- The number of the group that a condition asks for. -/
def readCondition : Reader Nat := do
  let name ← takeUntil ')'
  let r ← get
  if isGroupName name then
    match r.names.lookup name with
    | some group => return group
    | none => refuse
  else match Text.parseInteger? name with
    | some number =>
      require (0 < number)
      set { r with asked := number.toNat :: r.asked }
      return number.toNat
    | none => refuse

/-- Passes over a comment up to the end of its line. -/
def skipLine : Reader Unit :=
  modify fun r => { r with rest := (r.rest.dropWhile (· != .plain '\n')).tail }

/-- Whether a character is passed over where blanks have no meaning. -/
def isIgnorable (c : Char) : Bool := " \t\n\r\x0b\x0c".toList.contains c

/-- Passes over a comment up to the parenthesis that ends it. -/
def skipComment : Reader Unit := do
  modify fun r => { r with rest := r.rest.dropWhile (· != .plain ')') }
  expect ')'

/-- What an opening parenthesis begins. -/
inductive Opened where
  | item (item : Pattern)
  | comment
  /-- Letters of options of the whole expression. -/
  | flags (letters : List Char)

/-- Alternatives as one expression. -/
def oneOf : List Pattern → Pattern
  | [p] => p
  | ps => choice ps

mutual

/-- Reads alternatives. The outermost ones have the options of the whole expression. -/
def readChoice : Nat → Bool → PatternFlags → List Pattern → Reader Pattern
  | 0, _, _, _ => refuse
  | fuel + 1, outermost, flags, options => do
    let r ← get
    let flags := if outermost then r.flags else flags
    let items ← readItems fuel (outermost && options.isEmpty) flags []
    let options := options ++ [sequence items]
    if ← accept '|' then readChoice fuel outermost flags options
    else return oneOf options

/-- Reads items one after the other, with those read so far in reverse. Options of the whole expression may
only stand before all items. -/
def readItems : Nat → Bool → PatternFlags → List Pattern → Reader (List Pattern)
  | 0, _, _, _ => refuse
  | fuel + 1, first, flags, items => do
    match ← peek with
    | none | some (.plain '|') | some (.plain ')') => return items.reverse
    | some (.escaped c) =>
      skip
      readItems fuel first flags ((← readEscape flags c) :: items)
    | some (.plain c) =>
      skip
      if flags.verbose && isIgnorable c then readItems fuel first flags items
      else if flags.verbose && c == '#' then
        skipLine
        readItems fuel first flags items
      else match c with
      | '[' => readItems fuel first flags ((← readSet flags) :: items)
      | '.' =>
        let test := if flags.dotAll then CharTest.any else .notLineFeed
        readItems fuel first flags (char test :: items)
      | '^' =>
        let test := if flags.multiline then Place.lineStart else .textStart
        readItems fuel first flags (.place test :: items)
      | '$' =>
        let test := if flags.multiline then Place.lineEnd else .lastLineEnd
        readItems fuel first flags (.place test :: items)
      | '(' =>
        match ← readGroup fuel flags with
        | .item item => readItems fuel first flags (item :: items)
        | .comment => readItems fuel first flags items
        | .flags letters =>
          require (first && items.isEmpty)
          modify fun r => r.withFlags letters
          let r ← get
          readItems fuel first r.flags items
      | c =>
        if c == '*' || c == '+' || c == '?' || c == '\x7b' then
          match ← readQuantifier c with
          | some bounds => readItems fuel first flags (← repeatLast bounds items)
          | none => readItems fuel first flags (literal flags c.toNat :: items)
        else readItems fuel first flags (literal flags c.toNat :: items)

/-- Reads what an opening parenthesis begins. -/
def readGroup : Nat → PatternFlags → Reader Opened
  | 0, _ => refuse
  | fuel + 1, flags => do
    if ← accept '?' then
      match ← peek with
      | some (.plain 'P') =>
        skip
        if ← accept '<' then
          let name ← takeUntil '>'
          require (isGroupName name)
          readCapture fuel flags (some name)
        else
          expect '='
          let name ← takeUntil ')'
          match (← get).names.lookup name with
          | some group => return .item (← readAgain flags group)
          | none => refuse
      | some (.plain ':') =>
        skip
        let body ← readChoice fuel false flags []
        expect ')'
        return .item (sequence [body])
      | some (.plain '#') =>
        skipComment
        return .comment
      | some (.plain '>') =>
        skip
        let body ← readChoice fuel false flags []
        expect ')'
        return .item (atomic body)
      | some (.plain '=') =>
        skip
        return .item (← readAhead fuel flags false)
      | some (.plain '!') =>
        skip
        return .item (← readAhead fuel flags true)
      | some (.plain '<') =>
        skip
        match ← next with
        | some (.plain '=') => return .item (← readBehind fuel flags false)
        | some (.plain '!') => return .item (← readBehind fuel flags true)
        | _ => refuse
      | some (.plain '(') =>
        skip
        return .item (← readConditional fuel flags)
      | some (.plain c) =>
        require (isFlag c || c == '-')
        match ← readFlags with
        | (letters, none) => return .flags letters
        | (on, some off) =>
          let body ← readChoice fuel false (PatternFlags.off (PatternFlags.on flags on) off) []
          expect ')'
          return .item (sequence [body])
      | _ => refuse
    else readCapture fuel flags none

/-- Reads a group that is captured, up to its end. -/
def readCapture : Nat → PatternFlags → Option String → Reader Opened
  | 0, _, _ => refuse
  | fuel + 1, flags, name => do
    let group ← openGroup name
    let body ← readChoice fuel false flags []
    expect ')'
    closeGroup group body
    return .item (capture group body)

/-- Reads a look ahead up to its end. -/
def readAhead : Nat → PatternFlags → Bool → Reader Pattern
  | 0, _, _ => refuse
  | fuel + 1, flags, negated => do
    let body ← readChoice fuel false flags []
    expect ')'
    return ahead negated body

/-- Reads a look behind up to its end. -/
def readBehind : Nat → PatternFlags → Bool → Reader Pattern
  | 0, _, _ => refuse
  | fuel + 1, flags, negated => do
    let outer := (← get).behindFrom
    if outer.isNone then modify fun r => { r with behindFrom := some r.groups }
    let body ← readChoice fuel false flags []
    if outer.isNone then modify fun r => { r with behindFrom := none }
    expect ')'
    let r ← get
    match (width (groupWidth r) body).fixed? with
    | some width => return behind negated width body
    | none => refuse

/-- Reads a condition and its two expressions up to the end. -/
def readConditional : Nat → PatternFlags → Reader Pattern
  | 0, _ => refuse
  | fuel + 1, flags => do
    let group ← readCondition
    checkBehind group
    let yes ← readItems fuel false flags []
    let no ← if ← accept '|' then readItems fuel false flags [] else pure []
    expect ')'
    return conditional group (sequence yes) (sequence no)

end

/-- The expression of a written form, with the number of its groups and their names. -/
structure Compiled where
  pattern : Pattern
  groups : Nat
  names : List (String × Nat)

/-- Reads a whole expression. -/
def readWhole (length : Nat) : Reader Compiled := do
  let pattern ← readChoice (4 * length + 4) true {} []
  let r ← get
  require (r.rest.isEmpty && r.asked.all (· ≤ r.groups))
  if r.flags.ascii && r.unicode then throw .conflictingFlags
  return ⟨pattern, r.groups, r.names⟩

/-- The expression that a text is written for. -/
def parse (text : String) : Except PatternError Compiled :=
  match signs text.toList with
  | none => .error .malformed
  | some signs => ((readWhole signs.length).run { rest := signs }).map Prod.fst

/-! ### The written form that matchers use -/

/-- Writes the beginnings of named groups in the form that is read. -/
def spellGroupsIn : List Char → List Char
  | [] => []
  | c :: rest =>
    match c, rest with
    | '\\', d :: after =>
      if d = '\n' then '\\' :: spellGroupsIn (d :: after) else '\\' :: d :: spellGroupsIn after
    | '(', '?' :: '<' :: after =>
      if after.head? = some '=' ∨ after.head? = some '!' then
        '(' :: spellGroupsIn ('?' :: '<' :: after)
      else '(' :: '?' :: 'P' :: '<' :: spellGroupsIn after
    | c, rest => c :: spellGroupsIn rest
termination_by cs => cs.length

/-- The form of an expression that is read. -/
def spellGroups (text : String) : String := String.ofList (spellGroupsIn text.toList)

/-- The expression that a text of a matcher is written for. -/
def compile (text : String) : Except PatternError Compiled := parse (spellGroups text)

end Pattern

end XPathAnnotator
