/-
**Finding files by patterns.**

`normalize` gives the shortest form of a path: it drops empty parts and those that stay where they are, and
lets `..` cancel the part before it. At most two leading slashes are kept, three or more are one.

A pattern for paths has a pattern for each part; the part `**` stands for any number of folders. Names
that begin with a dot are found only by patterns that do. `findFiles` collects the files of several
patterns in the order of discovery, without those that are to be ignored.
-/

import XPathAnnotator.Path.Wildcard
import XPathAnnotator.Path.Workspace
import XPathAnnotator.Text.Pieces

namespace XPathAnnotator.Path

/-! ### The shortest form of a path -/

/-- Adds a part to parts that are kept with the last one first. -/
def pushPart (rooted : Bool) (kept : List String) (part : String) : List String :=
  if part = "" ∨ part = "." then kept
  else if part = ".." then
    match kept with
    | [] => if rooted then [] else [part]
    | last :: before => if last = ".." then part :: kept else before
  else part :: kept

/-- The slashes that a path begins with in its shortest form. -/
def rootOf (path : String) : String :=
  match (path.toList.takeWhile (· == '/')).length with
  | 0 => ""
  | 2 => "//"
  | _ => "/"

/-- The shortest form of a path, a dot for the folder itself. -/
def normalize (path : String) : String :=
  let root := rootOf path
  let kept := (Text.pieces '/' path).foldl (pushPart (root != "")) []
  let shortest := root ++ String.intercalate "/" kept.reverse
  if shortest = "" then "." else shortest

/-! ### Patterns for paths -/

/-- The part of a pattern that stands for any number of folders. -/
def anyFolders : String := "**"

/-- Whether a name is hidden. -/
def isHidden (name : String) : Bool := name.toList.head? == some '.'

/-- The rest of a place below a folder. -/
def below? (folder place : FilePlace) : Option FilePlace :=
  if folder.isPrefixOf place && folder.length < place.length then some (place.drop folder.length)
  else none

/-- Whether a name in a folder fits a part of a pattern. -/
def fitsName (part name : String) : Bool :=
  (isHidden part || !isHidden name) && Wildcard.isMatch part name

/-- The ways that a part of a pattern leads on from a folder. -/
def waysOn (w : Workspace) (folder : FilePlace) (part : String) : List FilePlace :=
  let under := w.places.filterMap (below? folder)
  if part = anyFolders then [] :: under.filter fun names => !names.any isHidden
  else under.filter fun
    | [name] => fitsName part name
    | _ => false

/-- The paths that a part of a pattern leads to from a path. Only folders are wanted if more parts
follow. -/
def pathsOn (w : Workspace) (last : Bool) (part : String) (path : List String) : List (List String) :=
  if !Wildcard.isPattern part then if w.leads (path ++ [part]) then [path ++ [part]] else []
  else
    match if path.isEmpty then .ok [] else w.follow path with
    | .error _ => []
    | .ok folder =>
      if !w.isFolderAt folder then []
      else ((waysOn w folder part).filter fun way => last || w.isFolderAt (folder ++ way)).map
        fun way => path ++ way

/-- The paths that the parts of a pattern lead to from paths. -/
def pathsFrom (w : Workspace) (paths : List (List String)) : List String → List (List String)
  | [] => paths
  | part :: rest => pathsFrom w (paths.flatMap (pathsOn w rest.isEmpty part)).eraseDups rest

/-- The paths of the files that a pattern finds, in order. -/
def filesOf (w : Workspace) (pattern : String) : List String :=
  let parts := Workspace.parts pattern
  let start := parts.takeWhile fun part => !Wildcard.isPattern part
  let rest := parts.drop start.length
  if rest.getLast? = some "" then []
  else
    let rest := rest.filter (· != "")
    let found := (pathsFrom w [start] rest).map (String.intercalate "/")
    (found.filter w.isFile).mergeSort (· ≤ ·)

/-- A pattern without the folders that it allows before it, one after the other. -/
def withoutAnyFolders : List Char → List (List Char)
  | '*' :: '*' :: '/' :: rest => rest :: withoutAnyFolders rest
  | _ => []

/-- Whether a path is to be ignored. A pattern that allows any folders before it allows none too. -/
def isIgnored (path : String) (patterns : List String) : Bool :=
  patterns.any fun pattern =>
    let shortest := normalize pattern
    Wildcard.isMatch shortest path ||
      (withoutAnyFolders shortest.toList).any fun rest =>
        Wildcard.isMatch (String.ofList rest) path

/-- The files that patterns find and that are not ignored, each once, in the order of discovery. -/
def findFiles (w : Workspace) (patterns ignored : List String) : List String :=
  (((patterns.flatMap (filesOf w)).map normalize).filter fun path => !isIgnored path ignored).eraseDups

end XPathAnnotator.Path
