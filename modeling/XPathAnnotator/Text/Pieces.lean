/-
**Pieces of texts, and searching in them.**

`pieces` cuts a text at every occurrence of a mark, and keeps the empty pieces; `cutAt?` cuts it at the
first one only. `splitAtFirst?` cuts a text around the first place where another text stands in it.
-/

namespace XPathAnnotator.Text

/-- The rows of characters between the occurrences of a mark. -/
def piecesOf (mark : Char) : List Char → List (List Char)
  | [] => [[]]
  | c :: cs =>
    if c = mark then [] :: piecesOf mark cs
    else match piecesOf mark cs with
      | [] => [[c]]
      | piece :: pieces => (c :: piece) :: pieces

/-- The pieces of a text between the occurrences of a mark. -/
def pieces (mark : Char) (text : String) : List String :=
  (piecesOf mark text.toList).map String.ofList

/-- The characters before and after the first occurrence of a mark. -/
def cutAtMark? (mark : Char) (cs : List Char) : Option (List Char × List Char) :=
  match cs.dropWhile (· != mark) with
  | [] => none
  | _ :: after => some (cs.takeWhile (· != mark), after)

/-- What stands before and after the first occurrence of a mark in a text. -/
def cutAt? (mark : Char) (text : String) : Option (String × String) :=
  (cutAtMark? mark text.toList).map fun (before, after) =>
    (String.ofList before, String.ofList after)

/-- There is always a piece. -/
theorem piecesOf_ne_nil (mark : Char) (cs : List Char) : piecesOf mark cs ≠ [] := by
  cases cs with
  | nil => simp [piecesOf]
  | cons c cs =>
    by_cases h : c = mark
    · simp [piecesOf, h]
    · simp only [piecesOf, h, if_false]
      split <;> simp

/-- The pieces with the mark between them are the text. -/
theorem intercalate_piecesOf (mark : Char) (cs : List Char) :
    [mark].intercalate (piecesOf mark cs) = cs := by
  induction cs with
  | nil => rfl
  | cons c cs ih =>
    cases hp : piecesOf mark cs with
    | nil => exact absurd hp (piecesOf_ne_nil mark cs)
    | cons piece rest =>
      rw [hp] at ih
      by_cases h : c = mark
      · simp only [piecesOf, h, if_true, hp, List.intercalate_cons_cons, ih]
        rfl
      · simp only [piecesOf, h, if_false, hp]
        cases rest with
        | nil => simpa using ih
        | cons next rest => simpa [List.intercalate_cons_cons] using ih

/-! ### Searching -/

/-- What stands before and after the first place of a pattern in a row of characters. -/
def splitAtFirst? (pattern : List Char) : List Char → Option (List Char × List Char)
  | [] => if pattern.isEmpty then some ([], []) else none
  | c :: cs =>
    if pattern.isPrefixOf (c :: cs) then some ([], (c :: cs).drop pattern.length)
    else (splitAtFirst? pattern cs).map fun (before, after) => (c :: before, after)

/-- Whether a text has another one in it. -/
def containsText (text pattern : String) : Bool :=
  (splitAtFirst? pattern.toList text.toList).isSome

/-- Whether a text begins with another one. -/
def startsWith (text start : String) : Bool := start.toList.isPrefixOf text.toList

end XPathAnnotator.Text
