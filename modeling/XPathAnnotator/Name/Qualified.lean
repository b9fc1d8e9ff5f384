/-
**Qualified and expanded names.**

A name is written with an optional qualifier before a colon (`QName`), and identified by the URI of its
namespace with its local part. The expanded form puts the URI in braces before the local part. A
namespace map resolves qualifiers; the empty qualifier stands for the default namespace.
-/

import XPathAnnotator.Text.Pieces
import XPathAnnotator.Text.Quoted

namespace XPathAnnotator.Name

/-- The namespace of the `xml` qualifier. -/
def xmlUri : String := "http://www.w3.org/XML/1998/namespace"

/-- The namespace of the `xmlns` qualifier. -/
def xmlnsUri : String := "http://www.w3.org/2000/xmlns/"

/-- The namespace of XHTML. -/
def xhtmlUri : String := "http://www.w3.org/1999/xhtml"

/-- A name as written. -/
structure QName where
  qualifier : Option String
  localPart : String
deriving DecidableEq, Inhabited

namespace QName

/-- The name that a text is written for: the first colon divides its parts. -/
def ofText (text : String) : QName :=
  match Text.cutAtMark? ':' text.toList with
  | none => ⟨none, text⟩
  | some (qualifier, localPart) => ⟨some (String.ofList qualifier), String.ofList localPart⟩

/-- The written form of a name. -/
def text (name : QName) : String :=
  match name.qualifier with
  | none => name.localPart
  | some qualifier => qualifier ++ ":" ++ name.localPart

end QName

/-- Why a name could not be taken apart or resolved. -/
inductive NameError where
  | notExpanded (name : String)
  | unknownQualifier (qualifier : String)

/-- The wording of an error. -/
def NameError.message : NameError → String
  | notExpanded name => Text.quoted name ++ " is not an expanded name"
  | unknownQualifier qualifier => "prefix " ++ Text.quoted qualifier ++ " not found in namespace map"

/-- The expanded form of a name: the URI, if any, in braces before the local part. -/
def expanded (uri localPart : String) : String :=
  if uri.isEmpty then localPart else "\x7b" ++ uri ++ "\x7d" ++ localPart

/-- The URI of an expanded name, which ends at the last closing brace; empty if there is none. -/
def uriOf (name : String) : String :=
  match name.toList with
  | '{' :: rest =>
    match rest.reverse.dropWhile (· != '}') with
    | [] => ""
    | _ :: uri => String.ofList uri.reverse
  | _ => ""

/-- The URI and the local part of an expanded name, which has one closing brace. -/
def splitExpanded (name : String) : Except NameError (String × String) :=
  match name.toList with
  | '{' :: rest =>
    match Text.cutAtMark? '}' rest with
    | some (uri, localPart) =>
      if localPart.contains '}' then .error (.notExpanded name)
      else .ok (String.ofList uri, String.ofList localPart)
    | none => .error (.notExpanded name)
  | _ => .ok ("", name)

/-- The expanded form of a qualified name under a namespace map. -/
def expand (qname : String) (namespaces : List (String × String)) : Except NameError String :=
  let name := QName.ofText qname
  match name.qualifier with
  | none => .ok (expanded ((namespaces.lookup "").getD "") name.localPart)
  | some qualifier =>
    match namespaces.lookup qualifier with
    | some uri => .ok (expanded uri name.localPart)
    | none => .error (.unknownQualifier qualifier)

end XPathAnnotator.Name
