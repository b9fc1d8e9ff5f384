/-
**Prologs.**

What may precede the root element: the XML declaration, comments, processing instructions and a document
type declaration. The internal subset of the latter is read for the entities that it declares, since
documents with entities are refused (`Prolog.forbidden?`). Reading goes as far as the prolog is
well-formed.
-/

import XPathAnnotator.Xml.Lexeme

namespace XPathAnnotator.Xml

open XPathAnnotator.Text

/-- A declared entity: its name, and whether its data are not parsed. -/
structure Entity where
  name : String
  unparsed : Bool

/-- A prolog: its remarks, the first entity that it declares, and the rest if it is well-formed. -/
structure Prolog where
  remarks : List Remark
  entity : Option Entity
  rest : Option (List Char)

/-- The names of the entities that need no declaration. -/
def predefinedEntities : List String := ["lt", "gt", "amp", "quot", "apos"]

/-- The rest after blanks of which there must be one. -/
def needBlanks? (cs : List Char) : Option (List Char) :=
  match cs with
  | c :: rest => if isBlank c then some (skipBlanks rest) else none
  | [] => none

/-- A blank or an angle bracket must follow a literal. -/
def endsLiteral (cs : List Char) : Bool :=
  match cs with
  | c :: _ => isBlank c || c == '>'
  | [] => true

/-- The rest after the closing bracket of a declaration. -/
def closeDeclaration? (cs : List Char) : Option (List Char) :=
  expect? ">" (skipBlanks cs)

/-- The end of the declaration of an external entity, after its system identifier. -/
def readExternalEnd (name : String) (parameter : Bool) (cs : List Char) :
    Option Entity × Option (List Char) :=
  match closeDeclaration? cs with
  | some rest => (some ⟨name, false⟩, some rest)
  | none =>
    if parameter then (none, none)
    else match (needBlanks? cs).bind (expect? "NDATA") with
      | none => (none, none)
      | some rest =>
        match (needBlanks? rest).bind readAnyName? with
        | some (_, rest) => (some ⟨name, true⟩, closeDeclaration? rest)
        | none => (none, none)

/-- The declaration of an entity, after its keyword: the entity as soon as it is known, and the rest. -/
def readEntity (cs : List Char) : Option Entity × Option (List Char) :=
  match needBlanks? cs with
  | none => (none, none)
  | some cs =>
    let parameter := cs.head? == some '%'
    match (if parameter then needBlanks? cs.tail else some cs).bind readAnyName? with
    | none => (none, none)
    | some (name, cs) =>
      match needBlanks? cs with
      | none => (none, none)
      | some cs =>
        match readLiteral? cs with
        | some (_, rest) =>
          if endsLiteral rest then (some ⟨name, false⟩, closeDeclaration? rest) else (none, none)
        | none =>
          let system := match expect? "SYSTEM" cs with
            | some rest => (needBlanks? rest).bind readLiteral?
            | none =>
              match (expect? "PUBLIC" cs).bind fun rest => (needBlanks? rest).bind readLiteral? with
              | some (_, rest) => (needBlanks? rest).bind readLiteral?
              | none => none
          match system with
          | none => (none, none)
          | some (_, rest) => readExternalEnd name parameter rest

/-- The rest after a declaration that is passed over, where brackets in quotes do not count. -/
def skipDeclaration? : Nat → List Char → Option (List Char)
  | 0, _ => none
  | fuel + 1, cs =>
    match cs with
    | [] => none
    | '>' :: rest => some rest
    | '"' :: rest => (readUntil? ['"'] rest).bind fun (_, rest) => skipDeclaration? fuel rest
    | '\'' :: rest => (readUntil? ['\''] rest).bind fun (_, rest) => skipDeclaration? fuel rest
    | '<' :: _ => none
    | _ :: rest => skipDeclaration? fuel rest

/-- The internal subset up to its closing bracket: the first entity that it declares, and the rest.
Declarations after a reference to a parameter entity do not count. -/
def readSubset (counting : Bool) : Nat → List Char → Option Entity × Option (List Char)
  | 0, _ => (none, none)
  | fuel + 1, cs =>
    match skipBlanks cs with
    | ']' :: rest => (none, some rest)
    | '%' :: rest =>
      match readAnyName? rest with
      | some (_, ';' :: rest) => readSubset false fuel rest
      | _ => (none, none)
    | '<' :: '!' :: '-' :: '-' :: rest =>
      match readComment? rest with
      | some (_, rest) => readSubset counting fuel rest
      | none => (none, none)
    | '<' :: '?' :: rest =>
      match readInstruction? rest with
      | some (_, rest) => readSubset counting fuel rest
      | none => (none, none)
    | '<' :: '!' :: rest =>
      match expect? "ENTITY" rest with
      | some rest =>
        let (entity, rest) := readEntity rest
        let entity := entity.filter fun e => counting && !predefinedEntities.contains e.name
        match entity, rest with
        | some e, some rest => (some e, (readSubset counting fuel rest).2)
        | some e, none => (some e, none)
        | none, some rest => readSubset counting fuel rest
        | none, none => (none, none)
      | none =>
        match ["ELEMENT", "ATTLIST", "NOTATION"].findSome? fun word => expect? word rest with
        | some rest =>
          match (needBlanks? rest).bind (skipDeclaration? (rest.length + 1)) with
          | some rest => readSubset counting fuel rest
          | none => (none, none)
        | none => (none, none)
    | _ => (none, none)

/-- The identifiers of an external subset, if there are any. -/
def skipExternalId? (cs : List Char) : Option (List Char) :=
  match expect? "SYSTEM" cs with
  | some rest => ((needBlanks? rest).bind readLiteral?).map (·.2)
  | none =>
    match expect? "PUBLIC" cs with
    | some rest =>
      match (needBlanks? rest).bind readLiteral? with
      | some (_, rest) => ((needBlanks? rest).bind readLiteral?).map (·.2)
      | none => none
    | none => some cs

/-- A document type declaration, after its keyword. -/
def readDoctype (cs : List Char) : Option Entity × Option (List Char) :=
  match (needBlanks? cs).bind readAnyName? with
  | none => (none, none)
  | some (_, rest) =>
    let external := match needBlanks? rest with
      | some blank => skipExternalId? blank
      | none => some rest
    match external.map skipBlanks with
    | some ('[' :: rest) =>
      let (entity, rest) := readSubset true (rest.length + 1) rest
      (entity, rest.bind closeDeclaration?)
    | some ('>' :: rest) => (none, some rest)
    | _ => (none, none)

/-- Whether a character may stand in the value of a pseudo attribute of the XML declaration. -/
def isDeclarationChar (c : Char) : Bool :=
  c.isAlphanum || c == '.' || c == '-' || c == '_'

/-- A pseudo attribute of the XML declaration: its value. -/
def readPseudo? (name : String) (cs : List Char) : Reading String :=
  match ((needBlanks? cs).bind (expect? name)).map skipBlanks with
  | some ('=' :: rest) =>
    match readLiteral? (skipBlanks rest) with
    | some (value, rest) => if value.toList.all isDeclarationChar then some (value, rest) else none
    | none => none
  | _ => none

/-- The rest after the XML declaration, which may be missing. -/
def skipXmlDeclaration? (cs : List Char) : Option (List Char) :=
  match expect? "<?xml" cs with
  | none => some cs
  | some rest =>
    match rest with
    | c :: _ =>
      if isNameChar c || c == ':' then some cs
      else match readPseudo? "version" rest with
        | none => none
        | some (_, rest) =>
          let rest := match readPseudo? "encoding" rest with
            | some (name, after) => if (name.toList.head?.any Char.isAlpha) then after else rest
            | none => rest
          match readPseudo? "standalone" rest with
          | some (value, rest) =>
            if value == "yes" || value == "no" then expect? "?>" (skipBlanks rest) else none
          | none => expect? "?>" (skipBlanks rest)
    | [] => none

/-- The comments and processing instructions before a row of characters that starts with neither. -/
def readRemarks : Nat → List Char → List Remark × Option (List Char)
  | 0, _ => ([], none)
  | fuel + 1, cs =>
    match skipBlanks cs with
    | '<' :: '!' :: '-' :: '-' :: rest =>
      match readComment? rest with
      | some (remark, rest) =>
        let (remarks, rest) := readRemarks fuel rest
        (remark :: remarks, rest)
      | none => ([], none)
    | '<' :: '?' :: rest =>
      match readInstruction? rest with
      | some (remark, rest) =>
        let (remarks, rest) := readRemarks fuel rest
        (remark :: remarks, rest)
      | none => ([], none)
    | cs => ([], some cs)

/-- The prolog of a document. -/
def Prolog.read (cs : List Char) : Prolog :=
  match skipXmlDeclaration? cs with
  | none => ⟨[], none, none⟩
  | some cs =>
    let (before, rest) := readRemarks (cs.length + 1) cs
    match rest with
    | none => ⟨before, none, none⟩
    | some rest =>
      match expect? "<!DOCTYPE" rest with
      | none => ⟨before, none, some rest⟩
      | some rest =>
        let (entity, rest) := readDoctype rest
        match rest with
        | none => ⟨before, entity, none⟩
        | some rest =>
          let (after, rest) := readRemarks (rest.length + 1) rest
          ⟨before ++ after, entity, rest⟩

/-- The characters of a text with uniform line ends, without a byte order mark, up to the first one that
no document may hold; and whether that is all. -/
def documentChars (text : String) : List Char × Bool :=
  let cs := normalizeLineEnds text.toList
  let cs := if cs.head? == some '\uFEFF' then cs.tail else cs
  (cs.takeWhile isXmlChar, cs.all isXmlChar)

/-- The refusal of a text whose prolog declares an entity. -/
def Prolog.forbidden? (text : String) : Option XmlError :=
  (Prolog.read (documentChars text).1).entity.map fun entity =>
    if entity.unparsed then .unparsedEntityForbidden entity.name else .entityForbidden entity.name

end XPathAnnotator.Xml
