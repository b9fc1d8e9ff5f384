/-
**Commands are single lines, and are read back.**

A command escapes the ends of lines in its message and in the values of its properties. So the line that it is written
as holds none, as long as its name and the names of its properties do not.

A runner cuts the line of a command at its marks and then reads the escapes in its parts. The marks are found where
they were written, because none of them is left in an escaped value; so a command tells its name, its properties with
a value and its message, and no text in it can add anything to them.

A record is written as such a command if its level is below that of what is being done, or from that of warnings on.
The other records are written as their messages, and nothing in these is escaped. So such a record is one line only if
its message is one, and a message that begins as a command does is a command for the runner.

* `OneLine` — texts without an end of line; `oneLine_escapeMessage`, `oneLine_escapeProperty` — escaped texts;
* `Command.oneLine` — the line of a command; `Finding.oneLine` — that of a finding, whatever it says;
* `Plain` — names that hold no marks and no escapes;
* `Command.unescape` — escapes read in one pass, with `unescaped_escapeMessage`, `unescaped_escapeProperty`;
* `Command.Reading`, `Command.read?` — what a runner takes from a line, and `Command.told`, what was put into it;
* `Command.line_reads_back` — a line is read back; `Command.told_eq_of_line_eq` — lines tell commands apart;
* `Record.IsCommand`, `Record.commandName` — the levels whose records are written as commands, and their names;
* `Record.text_tells` — when a record is one line, when it begins as a command, and what a runner reads from it;
* `Record.not_oneLine_info` — a record on what is being done that is more than one line.
-/

import Mathlib
import XPathAnnotator.Proofs.Text.Words
import XPathAnnotator.Report.Finding

namespace XPathAnnotator

/-! ### Single lines -/

/-- Whether a text has no end of line. -/
def OneLine (text : String) : Prop := ∀ c ∈ text.toList, c ≠ '\n' ∧ c ≠ '\r'

theorem OneLine.append {a b : String} (first : OneLine a) (second : OneLine b) : OneLine (a ++ b) := by
  intro c met
  rw [String.toList_append, List.mem_append] at met
  exact met.elim (first c) (second c)

theorem OneLine.intercalate {separator : String} {texts : List String} (between : OneLine separator)
    (each : ∀ text ∈ texts, OneLine text) : OneLine (separator.intercalate texts) :=
  Text.forall_mem_intercalate between each

namespace Workflow.Command

theorem escapedInMessage_ne (d : Char) : ∀ c ∈ escapedInMessage d, c ≠ '\n' ∧ c ≠ '\r' := by
  unfold escapedInMessage
  split
  · simp
  · simp
  · simp
  next notReturn notFeed =>
    intro c met
    rw [List.mem_singleton.mp met]
    exact ⟨notFeed, notReturn⟩

theorem escapedInProperty_ne (d : Char) : ∀ c ∈ escapedInProperty d, c ≠ '\n' ∧ c ≠ '\r' := by
  unfold escapedInProperty
  split
  · simp
  · simp
  · exact escapedInMessage_ne d

theorem oneLine_escapeMessage (text : String) : OneLine (escapeMessage text) := by
  intro c met
  rw [escapeMessage, String.toList_ofList, List.mem_flatMap] at met
  obtain ⟨d, -, met⟩ := met
  exact escapedInMessage_ne d c met

theorem oneLine_escapeProperty (text : String) : OneLine (escapeProperty text) := by
  intro c met
  rw [escapeProperty, String.toList_ofList, List.mem_flatMap] at met
  obtain ⟨d, -, met⟩ := met
  exact escapedInProperty_ne d c met

theorem oneLine_propertyText {property : String × Data.Setting} (key : OneLine property.1) {text : String}
    (written : propertyText property = some text) : OneLine text := by
  unfold propertyText at written
  split at written
  · cases written
  · rw [← Option.some.inj written]
    exact (key.append (by simp [OneLine])).append (oneLine_escapeProperty _)

/-- **A command is one line**, whatever its message and the values of its properties are. -/
theorem oneLine {c : Command} (name : OneLine c.name) (keys : ∀ property ∈ c.properties, OneLine property.1) :
    OneLine c.line := by
  have properties : ∀ text ∈ c.properties.filterMap propertyText, OneLine text := by
    intro text met
    obtain ⟨property, member, written⟩ := List.mem_filterMap.mp met
    exact oneLine_propertyText (keys property member) written
  have start : OneLine ("::" ++ c.name) := OneLine.append (by simp [OneLine]) name
  have finish : OneLine ("::" ++ escapeMessage c.message) :=
    OneLine.append (by simp [OneLine]) (oneLine_escapeMessage _)
  have between : OneLine (" " ++ String.intercalate "," (c.properties.filterMap propertyText)) :=
    OneLine.append (by simp [OneLine]) (OneLine.intercalate (by simp [OneLine]) properties)
  unfold line
  extract_lets written
  rw [String.append_assoc]
  split
  · exact (start.append (by simp [OneLine])).append finish
  · exact (start.append between).append finish

end Workflow.Command

namespace Report.Finding

/-- **A finding is shown in one line.** -/
theorem oneLine (a : Finding) : OneLine a.command.line := by
  refine Workflow.Command.oneLine ?_ fun property met => ?_
  · change OneLine a.severity.title
    cases a.severity <;> simp [OneLine, Severity.title]
  · change property ∈ commandProperties a.properties at met
    obtain ⟨p, -, given⟩ := List.mem_filterMap.mp met
    split at given
    · cases given
    · cases given
    · rw [← Option.some.inj given]
      change OneLine p.commandKey
      cases p <;> simp [OneLine, Property.commandKey]

end Report.Finding

end XPathAnnotator

namespace XPathAnnotator.Workflow

open XPathAnnotator.Data

/-! ### Marks -/

/-- The characters that divide a command, begin its escapes or end its line. -/
def commandMarks : List Char := [':', ',', '=', '%', ' ', '\r', '\n']

/-- Whether a text holds no mark of a command. -/
def Plain (text : String) : Prop := ∀ c ∈ text.toList, c ∉ commandMarks

theorem Plain.not_mem {text : String} (plain : Plain text) {mark : Char} (listed : mark ∈ commandMarks) :
    mark ∉ text.toList := fun member => plain mark member listed

theorem Plain.oneLine {text : String} (plain : Plain text) : OneLine text := by
  refine fun c member => ⟨?_, ?_⟩
  · rintro rfl
    exact plain.not_mem (by decide) member
  · rintro rfl
    exact plain.not_mem (by decide) member

namespace Command

/-! ### Escapes -/

/-- A character in a text where a mark is replaced. -/
def replacing (mark : Char) (replacement : List Char) (c : Char) : List Char := if c = mark then replacement else [c]

theorem replacing_of_ne {mark c : Char} (other : c ≠ mark) (replacement : List Char) :
    replacing mark replacement c = [c] := if_neg other

/-- A message is escaped by three replacements, that of the percent sign first. -/
theorem flatMap_escapedInMessage (cs : List Char) :
    cs.flatMap escapedInMessage = ((cs.flatMap (replacing '%' ['%', '2', '5'])).flatMap
      (replacing '\r' ['%', '0', 'D'])).flatMap (replacing '\n' ['%', '0', 'A']) := by
  rw [List.flatMap_assoc, List.flatMap_assoc]
  refine congrArg (cs.flatMap ·) (funext fun c => ?_)
  unfold escapedInMessage
  split
  · decide
  · decide
  · decide
  next notPercent notReturn notFeed =>
    simp only [replacing_of_ne notPercent, replacing_of_ne notReturn, replacing_of_ne notFeed, List.flatMap_singleton]

/-- The value of a property is escaped as a message is, and then by two more replacements. -/
theorem flatMap_escapedInProperty (cs : List Char) :
    cs.flatMap escapedInProperty = ((cs.flatMap escapedInMessage).flatMap
      (replacing ':' ['%', '3', 'A'])).flatMap (replacing ',' ['%', '2', 'C']) := by
  rw [List.flatMap_assoc, List.flatMap_assoc]
  refine congrArg (cs.flatMap ·) (funext fun c => ?_)
  unfold escapedInProperty
  split
  · decide
  · decide
  next notColon notComma =>
    unfold escapedInMessage
    split
    · decide
    · decide
    · decide
    · simp only [replacing_of_ne notColon, replacing_of_ne notComma, List.flatMap_singleton]

/-- A row of characters with its escapes read, in one pass. -/
def unescape : List Char → List Char
  | '%' :: '2' :: '5' :: rest => '%' :: unescape rest
  | '%' :: '0' :: 'D' :: rest => '\r' :: unescape rest
  | '%' :: '0' :: 'A' :: rest => '\n' :: unescape rest
  | '%' :: '3' :: 'A' :: rest => ':' :: unescape rest
  | '%' :: '2' :: 'C' :: rest => ',' :: unescape rest
  | c :: rest => c :: unescape rest
  | [] => []

theorem unescape_cons_of_ne {c : Char} (other : c ≠ '%') (rest : List Char) :
    unescape (c :: rest) = c :: unescape rest := by
  rw [unescape.eq_def]
  split <;> simp_all

theorem unescape_escapedInMessage_append (c : Char) (rest : List Char) :
    unescape (escapedInMessage c ++ rest) = c :: unescape rest := by
  unfold escapedInMessage
  split
  · simp [unescape]
  · simp [unescape]
  · simp [unescape]
  next other _ _ => exact unescape_cons_of_ne other rest

theorem unescape_escapedInProperty_append (c : Char) (rest : List Char) :
    unescape (escapedInProperty c ++ rest) = c :: unescape rest := by
  unfold escapedInProperty
  split
  · simp [unescape]
  · simp [unescape]
  · exact unescape_escapedInMessage_append c rest

/-- Characters that are each read back are read back one after the other. -/
theorem unescape_flatMap {escaped : Char → List Char}
    (readBack : ∀ c rest, unescape (escaped c ++ rest) = c :: unescape rest) (cs : List Char) :
    unescape (cs.flatMap escaped) = cs := by
  induction cs with
  | nil => rfl
  | cons c cs ih => rw [List.flatMap_cons, readBack, ih]

/-- A text with its escapes read. -/
def unescaped (text : String) : String := String.ofList (unescape text.toList)

theorem unescaped_escapeMessage (text : String) : unescaped (escapeMessage text) = text := by
  rw [unescaped, escapeMessage, String.toList_ofList, unescape_flatMap unescape_escapedInMessage_append,
    String.ofList_toList]

theorem unescaped_escapeProperty (text : String) : unescaped (escapeProperty text) = text := by
  rw [unescaped, escapeProperty, String.toList_ofList, unescape_flatMap unescape_escapedInProperty_append,
    String.ofList_toList]

theorem not_mem_escapedInProperty (d : Char) : ':' ∉ escapedInProperty d ∧ ',' ∉ escapedInProperty d := by
  unfold escapedInProperty escapedInMessage
  split
  · decide
  · decide
  next notColon notComma =>
    split
    · decide
    · decide
    · decide
    · exact ⟨fun member => notColon (List.mem_singleton.mp member).symm,
        fun member => notComma (List.mem_singleton.mp member).symm⟩

theorem not_mem_escapeProperty (text : String) :
    ':' ∉ (escapeProperty text).toList ∧ ',' ∉ (escapeProperty text).toList := by
  simp only [escapeProperty, String.toList_ofList, List.mem_flatMap, not_exists, not_and]
  exact ⟨fun d _ => (not_mem_escapedInProperty d).1, fun d _ => (not_mem_escapedInProperty d).2⟩

/-! ### Readings -/

/-- What a line tells: the name of a command, its properties with their texts, and its message. -/
structure Reading where
  name : String
  properties : List (String × String)
  message : String
deriving DecidableEq

/-- A property that has a value, with the text of the value. -/
def propertyTold (property : String × Setting) : Option (String × String) :=
  match property.2 with
  | .null => none
  | value => some (property.1, valueText value)

/-- What a command is to tell. -/
def told (c : Command) : Reading := ⟨c.name, c.properties.filterMap propertyTold, c.message⟩

/-- Reads a property, which is cut at its first equality sign. -/
def readProperty? (item : String) : Option (String × String) :=
  (Text.cutAt? '=' item).map fun (key, value) => (key, unescaped value)

/-- Reads what stands before the message: the name up to the first space, and the properties between commas. -/
def readHead? (head : String) : Option (String × List (String × String)) :=
  match Text.cutAt? ' ' head with
  | none => some (head, [])
  | some (name, items) => ((Text.pieces ',' items).mapM readProperty?).map fun properties => (name, properties)

/-- Reads what stands behind the two colons that begin a line: the message stands behind the next two. -/
def readRest? (rest : List Char) : Option Reading := do
  let (head, message) ← Text.splitAtFirst? [':', ':'] rest
  let (name, properties) ← readHead? (String.ofList head)
  return ⟨name, properties, unescaped (String.ofList message)⟩

/-- Reads a line. -/
def read? (line : String) : Option Reading :=
  if Text.startsWith line "::" then readRest? (line.toList.drop 2) else none

/-! ### Properties -/

/-- A property as it is written, from what it tells. -/
def item (property : String × String) : String := property.1 ++ "=" ++ escapeProperty property.2

theorem propertyText_eq (property : String × Setting) : propertyText property = (propertyTold property).map item := by
  obtain ⟨key, value⟩ := property
  cases value <;> rfl

theorem filterMap_propertyText (properties : List (String × Setting)) :
    properties.filterMap propertyText = (properties.filterMap propertyTold).map item := by
  rw [List.map_filterMap]
  exact congrArg (properties.filterMap ·) (funext propertyText_eq)

theorem exists_of_mem_told {properties : List (String × Setting)} {property : String × String}
    (member : property ∈ properties.filterMap propertyTold) : ∃ value, (property.1, value) ∈ properties := by
  obtain ⟨⟨key, value⟩, given, told⟩ := List.mem_filterMap.mp member
  refine ⟨value, ?_⟩
  cases value <;> cases told <;> exact given

theorem not_mem_item {property : String × String} (plain : Plain property.1) {mark : Char}
    (divides : mark = ':' ∨ mark = ',') : mark ∉ (item property).toList := by
  have listed : mark ∈ commandMarks ∧ mark ≠ '=' ∧ mark ∉ (escapeProperty property.2).toList := by
    rcases divides with rfl | rfl
    · exact ⟨by decide, by decide, (not_mem_escapeProperty _).1⟩
    · exact ⟨by decide, by decide, (not_mem_escapeProperty _).2⟩
  simp only [item, String.toList_append, List.mem_append, not_or]
  exact ⟨⟨plain.not_mem listed.1, fun member => listed.2.1 (List.mem_singleton.mp member)⟩, listed.2.2⟩

theorem readProperty?_item {property : String × String} (plain : Plain property.1) :
    readProperty? (item property) = some property := by
  have cut : Text.cutAt? '=' (item property) = some (property.1, escapeProperty property.2) :=
    Text.cutAt?_append (plain.not_mem (by decide))
  rw [readProperty?, cut]
  exact congrArg (fun text => some (property.1, text)) (unescaped_escapeProperty _)

theorem mapM_readProperty? {properties : List (String × String)} (plain : ∀ property ∈ properties, Plain property.1) :
    (properties.map item).mapM readProperty? = some properties := by
  induction properties with
  | nil => rfl
  | cons property properties ih =>
    obtain ⟨here, later⟩ := List.forall_mem_cons.mp plain
    rw [List.map_cons, List.mapM_cons, readProperty?_item here, ih later]
    rfl

/-! ### Lines -/

/-- What stands before the message of a command. -/
def head (name : String) (properties : List (String × String)) : String :=
  name ++ if properties.isEmpty then "" else " " ++ String.intercalate "," (properties.map item)

theorem line_eq (c : Command) :
    c.line = "::" ++ head c.told.name c.told.properties ++ "::" ++ escapeMessage c.told.message := by
  rw [line, filterMap_propertyText]
  simp only [head, told, List.isEmpty_map, String.append_assoc]
  rfl

section Head

variable {name : String} {properties : List (String × String)}

theorem colon_not_mem_head (plain : Plain name) (keys : ∀ property ∈ properties, Plain property.1) :
    ':' ∉ (head name properties).toList := by
  have named : ':' ∉ name.toList := plain.not_mem (by decide)
  unfold head
  split
  · rwa [String.append_empty]
  · have between : ':' ∉ (String.intercalate "," (properties.map item)).toList := by
      refine fun member => Text.forall_mem_intercalate (P := (· ≠ ':')) (by simp) ?_ _ member rfl
      rintro _ written c met rfl
      obtain ⟨property, listed, rfl⟩ := List.mem_map.mp written
      exact not_mem_item (keys property listed) (.inl rfl) met
    simp only [String.toList_append, List.mem_append, not_or]
    exact ⟨named, by simp, between⟩

/-- The head of a command is cut at its marks. -/
theorem readHead?_head (plain : Plain name) (keys : ∀ property ∈ properties, Plain property.1) :
    readHead? (head name properties) = some (name, properties) := by
  have space : ' ' ∉ name.toList := plain.not_mem (by decide)
  cases properties with
  | nil =>
    have whole : head name [] = name := String.append_empty
    rw [whole, readHead?, Text.cutAt?_of_not_mem space]
  | cons property rest =>
    have cut : Text.cutAt? ' ' (head name (property :: rest)) =
        some (name, String.intercalate "," ((property :: rest).map item)) := by
      rw [head, List.isEmpty_cons, if_neg Bool.false_ne_true, ← String.append_assoc]
      exact Text.cutAt?_append space
    have divided : Text.pieces ',' (String.intercalate "," ((property :: rest).map item)) =
        (property :: rest).map item := by
      refine Text.pieces_intercalate (List.cons_ne_nil _ _) fun text member => ?_
      obtain ⟨told, listed, rfl⟩ := List.mem_map.mp member
      exact not_mem_item (keys told listed) (.inr rfl)
    rw [readHead?, cut]
    dsimp only
    rw [divided, mapM_readProperty? keys, Option.map_some]

end Head

/-- A line is read back. -/
theorem read?_line {c : Command} (name : Plain c.name) (keys : ∀ property ∈ c.properties, Plain property.1) :
    read? c.line = some c.told := by
  have told : ∀ property ∈ c.told.properties, Plain property.1 := by
    intro property member
    obtain ⟨value, given⟩ := exists_of_mem_told member
    exact keys _ given
  have characters : c.line.toList = "::".toList ++ ((head c.told.name c.told.properties).toList ++ [':', ':'] ++
      (escapeMessage c.told.message).toList) := by
    simp only [line_eq, String.toList_append, List.append_assoc]
    rfl
  have opened : Text.startsWith c.line "::" = true := by
    rw [Text.startsWith, characters, List.isPrefixOf_iff_prefix]
    exact List.prefix_append _ _
  have cut : Text.splitAtFirst? [':', ':'] (c.line.toList.drop 2) =
      some ((head c.told.name c.told.properties).toList, (escapeMessage c.told.message).toList) := by
    rw [characters]
    exact Text.splitAtFirst?_append _ (colon_not_mem_head name told)
  have parts : readHead? (head c.told.name c.told.properties) = some (c.told.name, c.told.properties) :=
    readHead?_head name told
  rw [read?, if_pos opened, readRest?, cut]
  simp only [Option.bind_eq_bind, Option.bind_some, String.ofList_toList, parts, unescaped_escapeMessage]
  rfl

/-- **Commands are read back as they were given**, each from one line: the name, the properties with a value in order,
and the message, whatever the values and the message are. -/
theorem line_reads_back {c : Command} (name : Plain c.name) (keys : ∀ property ∈ c.properties, Plain property.1) :
    OneLine c.line ∧ read? c.line = some c.told :=
  ⟨oneLine name.oneLine fun property member => (keys property member).oneLine, read?_line name keys⟩

/-- A command whose texts hold marks, escapes and ends of lines. -/
theorem line_reads_back_marked :
    let c : Command := ⟨"error", [("file", .text "a:b,%3A\n"), ("title", .null), ("line", .integer 3)], "50%25\r\n::x"⟩
    Plain c.name ∧ (∀ property ∈ c.properties, Plain property.1) ∧ OneLine c.line ∧
      read? c.line = some ⟨"error", [("file", "a:b,%3A\n"), ("line", "3")], "50%25\r\n::x"⟩ := by
  intro c
  have name : Plain c.name := by simp [c, Plain, commandMarks]
  have keys : ∀ property ∈ c.properties, Plain property.1 := by simp [c, Plain, commandMarks]
  have three : valueText (.integer 3) = "3" := by decide
  have properties : c.told.properties = [("file", "a:b,%3A\n"), ("line", valueText (.integer 3))] := rfl
  rw [three] at properties
  have tells : c.told = ⟨"error", [("file", "a:b,%3A\n"), ("line", "3")], "50%25\r\n::x"⟩ :=
    congrArg (Reading.mk c.name · c.message) properties
  exact ⟨name, keys, tells ▸ line_reads_back name keys⟩

/-- Lines tell commands apart. -/
theorem told_eq_of_line_eq {c d : Command} (name : Plain c.name) (keys : ∀ property ∈ c.properties, Plain property.1)
    (name' : Plain d.name) (keys' : ∀ property ∈ d.properties, Plain property.1) (same : c.line = d.line) :
    c.told = d.told := by
  have read := congrArg read? same
  rw [read?_line name keys, read?_line name' keys'] at read
  exact Option.some.inj read

end Command

/-! ### Records -/

namespace Command

theorem startsWith_line (c : Command) : Text.startsWith c.line "::" = true := by
  rw [Text.startsWith, List.isPrefixOf_iff_prefix, line_eq, String.append_assoc, String.append_assoc,
    String.toList_append]
  exact List.prefix_append _ _

end Command

namespace Record

/-- Whether records of a level are written as commands. -/
def IsCommand (level : Int) : Prop := level < infoLevel ∨ warningLevel ≤ level

/-- The name of the command that a record of such a level is written as. -/
def commandName (level : Int) : String :=
  if level < infoLevel then "debug" else if level < errorLevel then "warning" else "error"

theorem plain_commandName (level : Int) : Plain (commandName level) := by
  unfold commandName
  split
  · simp [Plain, commandMarks]
  · split
    · simp [Plain, commandMarks]
    · simp [Plain, commandMarks]

/-- A record of such a level is written as a command. -/
theorem text_of_isCommand {r : Record} (command : IsCommand r.level) :
    r.text = (Command.mk (commandName r.level) [] r.message).line := by
  have info : infoLevel < warningLevel := by decide
  have warnings : warningLevel < errorLevel := by decide
  rw [text, commandName]
  rcases lt_or_ge r.level infoLevel with low | notLow
  · have notWarning : ¬ warningLevel ≤ r.level := not_le.mpr (low.trans info)
    have notError : ¬ errorLevel ≤ r.level := fun grave => notWarning (warnings.le.trans grave)
    rw [if_neg notError, if_neg notWarning, if_neg (not_le.mpr low), if_pos low]
  · rw [if_neg (not_lt.mpr notLow)]
    rcases lt_or_ge r.level errorLevel with mild | grave
    · have warning : warningLevel ≤ r.level := command.resolve_left (not_lt.mpr notLow)
      rw [if_neg (not_le.mpr mild), if_pos warning, if_pos mild]
    · rw [if_pos grave, if_neg (not_lt.mpr grave)]

/-- A record on what is being done is written as its message. -/
theorem text_of_not_isCommand {r : Record} (other : ¬ IsCommand r.level) : r.text = r.message := by
  obtain ⟨notLow, mild⟩ := not_or.mp other
  rw [not_lt] at notLow
  rw [not_le] at mild
  have notGrave : ¬ errorLevel ≤ r.level := not_le.mpr (mild.trans (by decide))
  rw [text, if_neg notGrave, if_neg (not_le.mpr mild), if_pos notLow]

/-- The line of a record that is written as a command is read back. -/
theorem read?_text {r : Record} (command : IsCommand r.level) :
    OneLine r.text ∧ Text.startsWith r.text "::" = true ∧
      Command.read? r.text = some ⟨commandName r.level, [], r.message⟩ := by
  rw [text_of_isCommand command]
  have noKeys : ∀ property ∈ ([] : List (String × Data.Setting)), Plain property.1 := List.forall_mem_nil _
  have name := plain_commandName r.level
  exact ⟨Command.oneLine name.oneLine (List.forall_mem_nil _), Command.startsWith_line _,
    Command.read?_line name noKeys⟩

/-- **What a record is written as.** It is one line if it is written as a command, and otherwise only if its message is
one line. It begins as a command if it is written as one, and otherwise only if its message does. Where it is written
as a command, a runner reads the name for its level and the whole message from it; where it is not, it is the message
as it is. -/
theorem text_tells (r : Record) :
    (OneLine r.text ↔ IsCommand r.level ∨ OneLine r.message) ∧
      (Text.startsWith r.text "::" = true ↔ IsCommand r.level ∨ Text.startsWith r.message "::" = true) ∧
      if r.level < infoLevel then Command.read? r.text = some ⟨"debug", [], r.message⟩
      else if r.level < warningLevel then r.text = r.message
      else if r.level < errorLevel then Command.read? r.text = some ⟨"warning", [], r.message⟩
      else Command.read? r.text = some ⟨"error", [], r.message⟩ := by
  by_cases command : IsCommand r.level
  · obtain ⟨oneLine, opened, read⟩ := read?_text command
    refine ⟨iff_of_true oneLine (.inl command), iff_of_true opened (.inl command), ?_⟩
    rw [read, commandName]
    by_cases low : r.level < infoLevel
    · rw [if_pos low, if_pos low]
    · have fromWarnings : ¬ r.level < warningLevel := not_lt.mpr (command.resolve_left low)
      rw [if_neg low, if_neg low, if_neg fromWarnings]
      split
      · rfl
      · rfl
  · have same := text_of_not_isCommand command
    rw [same]
    refine ⟨(or_iff_right command).symm, (or_iff_right command).symm, ?_⟩
    obtain ⟨notLow, mild⟩ := not_or.mp command
    rw [if_neg notLow, if_pos (not_le.mp mild)]

/-- **A record on what is being done can end its line**, and what stands behind the end is read as a command: such
records are neither single lines nor without commands. -/
theorem not_oneLine_info : ¬ ((∀ r : Record, OneLine r.text) ∨
    ∀ r : Record, Text.startsWith r.text "::" = true → r.level < infoLevel ∨ warningLevel ≤ r.level) := by
  rintro (oneLine | commands)
  · -- the name of a matcher in the settings may hold the end of a line
    have broken := oneLine ⟨infoLevel, "Found 1 report(s) for a\n::error::b"⟩ '\n' (by decide)
    exact broken.1 rfl
  · exact absurd (commands ⟨infoLevel, "::error::b"⟩ (by decide)) (by decide)

end Record

end XPathAnnotator.Workflow
