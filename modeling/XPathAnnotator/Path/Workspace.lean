/-
**The files that a step works on.**

A workspace is a folder with files and folders below it. A path is a text with slashes between its parts;
`Workspace.follow` finds the place that the parts lead to, where `.` and empty parts lead nowhere else
and `..` leads back. What lies outside the workspace is not seen.
-/

import XPathAnnotator.Data.Datum
import XPathAnnotator.Text.Pieces

namespace XPathAnnotator

open XPathAnnotator.Data

/-- Why a file cannot be used. -/
inductive FileError where
  | missing (path : String)
  | notFolder (path : String)
  | isFolder (path : String)

/-- The wording of an error on a file. -/
def FileError.message : FileError → String
  | missing path => "[Errno 2] No such file or directory: " ++ Text.quoted path
  | notFolder path => "[Errno 20] Not a directory: " ++ Text.quoted path
  | isFolder path => "[Errno 21] Is a directory: " ++ Text.quoted path

/-- A place in a workspace: the names that lead to it. -/
abbrev FilePlace := List String

/-- The files of a workspace with their contents, and the folders that need not hold files. -/
structure Workspace where
  files : List (FilePlace × String)
  folders : List FilePlace

namespace Workspace

/-- The workspace without files. -/
def empty : Workspace := ⟨[], []⟩

/-- The parts of a path. -/
def parts (path : String) : List String := Text.pieces '/' path

/-- The place of a path that leads straight down. -/
def placeBelow (path : String) : FilePlace := (parts path).filter fun part => part != "" && part != "."

/-- The workspace with some files; a path that ends with a slash makes a folder. -/
def ofFiles (files : List (String × String)) : Workspace where
  files := (files.filter fun file => (parts file.1).getLast? != some "").map fun file =>
    (placeBelow file.1, file.2)
  folders := (files.filter fun file => (parts file.1).getLast? == some "").map fun file =>
    placeBelow file.1

/-- The places of a workspace: files, folders, and the folders above them. -/
def places (w : Workspace) : List FilePlace :=
  ((w.files.map Prod.fst ++ w.folders).flatMap fun place =>
    (List.range (place.length + 1)).map place.take).eraseDups

/-- The contents of the file at a place. -/
def contentAt? (w : Workspace) (place : FilePlace) : Option String := w.files.lookup place

/-- Whether there is a folder at a place. -/
def isFolderAt (w : Workspace) (place : FilePlace) : Bool :=
  place.isEmpty || ((w.contentAt? place).isNone && w.places.contains place)

/-- The place that parts of a path lead to. -/
def followFrom (w : Workspace) (path : String) (place : FilePlace) : List String → Except FileError FilePlace
  | [] => .ok place
  | part :: rest =>
    if !w.isFolderAt place then .error (.notFolder path)
    else if part = "" ∨ part = "." then w.followFrom path place rest
    else if part = ".." then
      if place.isEmpty then .error (.missing path) else w.followFrom path place.dropLast rest
    else
      let next := place ++ [part]
      if w.places.contains next then w.followFrom path next rest else .error (.missing path)

/-- The place that the parts of a path lead to. No path without a first part does. -/
def follow (w : Workspace) (parts : List String) : Except FileError FilePlace :=
  let path := String.intercalate "/" parts
  if parts.head? = some "" then .error (.missing path) else w.followFrom path [] parts

/-- Whether a path leads to a place. -/
def leads (w : Workspace) (parts : List String) : Bool :=
  match w.follow parts with
  | .ok _ => true
  | .error _ => false

/-- The contents of the file that a path leads to. -/
def read (w : Workspace) (path : String) : Except FileError String := do
  let place ← w.follow (parts path)
  match w.contentAt? place with
  | some content => return content
  | none => throw (.isFolder path)

/-- Whether a path leads to a file. -/
def isFile (w : Workspace) (path : String) : Bool :=
  match w.read path with
  | .ok _ => true
  | .error _ => false

/-- Adds to the end of a file, which is made if it is not there. -/
def append (w : Workspace) (path text : String) : Except FileError Workspace := do
  let parts := parts path
  match w.follow parts with
  | .ok place =>
    match w.contentAt? place with
    | some content => return { w with files := Datum.put place (content ++ text) w.files }
    | none => throw (.isFolder path)
  | .error (.missing _) =>
    match parts.getLast? with
    | some name =>
      let above := if parts.length = 1 then ["."] else parts.dropLast
      match w.follow above with
      | .ok place =>
        if name = "" then throw (.isFolder path)
        else if w.isFolderAt place then
          return { w with files := w.files ++ [(place ++ [name], text)] }
        else throw (.notFolder path)
      | .error (.notFolder _) => throw (.notFolder path)
      | .error _ => throw (.missing path)
    | none => throw (.missing path)
  | .error e => throw e

end Workspace

end XPathAnnotator
