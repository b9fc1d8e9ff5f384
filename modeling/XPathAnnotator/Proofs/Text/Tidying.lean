/-
**Tidy lines.**

`normalize` drops the spaces before and after every line in one pass over the characters of a text, and then the white
space at both ends of the whole. Told by lines it is simpler: line feeds alone divide a text, each line is trimmed, and
the blank lines at both ends go.

* `strip` — a list without the items of a class at both ends;
* `trimmedLines`, `tidyLines` — the lines of a text, trimmed, with all blank lines and without those at both ends;
* `dropLineSpaces_eq` — **the pass over the characters** trims every line;
* `strip_intercalate` — white space at the ends of a text whose lines are trimmed is made of blank lines;
* `normalizeLines_eq`, `tidyLines_normalizeLines` — a tidied text is its tidy lines, and has no others;
* `normalize_tidies` — **what `normalize` gives**.
-/

import Mathlib
import XPathAnnotator.Proofs.Text.Words
import XPathAnnotator.Report.Function

namespace XPathAnnotator

namespace Text

/-! ### Both ends of a list -/

/-- A list without the items of a class at both ends. -/
def strip {α : Type} (class? : α → Bool) (items : List α) : List α := (items.dropWhile class?).rdropWhile class?

section Strip

variable {α β : Type} {class? : α → Bool} {a : α} {items : List α}

theorem rdropWhile_cons (class? : α → Bool) (a : α) (items : List α) :
    (a :: items).rdropWhile class? =
      if items.rdropWhile class? = [] ∧ class? a = true then [] else a :: items.rdropWhile class? := by
  simp only [List.rdropWhile, List.reverse_cons, List.dropWhile_append, List.isEmpty_iff, List.reverse_eq_nil_iff]
  by_cases all : List.dropWhile class? items.reverse = []
  · by_cases here : class? a = true <;> simp [all, here]
  · simp [all]

theorem rdropWhile_cons_of_neg (other : ¬ class? a = true) :
    (a :: items).rdropWhile class? = a :: items.rdropWhile class? := by
  rw [rdropWhile_cons, if_neg fun both => other both.2]

theorem strip_cons_of_pos (here : class? a = true) : strip class? (a :: items) = strip class? items := by
  rw [strip, List.dropWhile_cons_of_pos here, strip]

theorem strip_cons_of_neg (other : ¬ class? a = true) :
    strip class? (a :: items) = a :: items.rdropWhile class? := by
  rw [strip, List.dropWhile_cons_of_neg other, rdropWhile_cons_of_neg other]

theorem not_of_dropWhile_eq_self (kept : (a :: items).dropWhile class? = a :: items) : ¬ class? a = true := by
  intro here
  rw [List.dropWhile_cons_of_pos here] at kept
  have shorter := (List.dropWhile_sublist class? (l := items)).length_le
  rw [kept, List.length_cons] at shorter
  omega

theorem rdropWhile_strip : (strip class? items).rdropWhile class? = strip class? items :=
  List.rdropWhile_idempotent _ _

theorem dropWhile_strip : (strip class? items).dropWhile class? = strip class? items := by
  rw [strip]
  rcases first : items.dropWhile class? with _ | ⟨a, rest⟩
  · rfl
  · have other : ¬ class? a = true := by
      have head := List.head_dropWhile_not (p := class?) (l := items) (by rw [first]; exact List.cons_ne_nil _ _)
      simpa [first] using head
    rw [rdropWhile_cons_of_neg other, List.dropWhile_cons_of_neg other]

theorem strip_strip : strip class? (strip class? items) = strip class? items := by
  rw [strip, dropWhile_strip, rdropWhile_strip]

theorem strip_sublist : (strip class? items).Sublist items :=
  (List.rdropWhile_prefix _ _).sublist.trans (List.dropWhile_sublist _)

theorem strip_map (class? : β → Bool) (f : α → β) (items : List α) :
    strip class? (items.map f) = (strip (class? ∘ f) items).map f := by
  simp only [strip, List.rdropWhile, List.dropWhile_map, ← List.map_reverse]

/-- What is stripped off is of the class. -/
theorem exists_strip (class? : α → Bool) (items : List α) :
    ∃ before after, items = before ++ strip class? items ++ after ∧ (∀ a ∈ before, class? a = true) ∧
      ∀ a ∈ after, class? a = true := by
  refine ⟨items.takeWhile class?, (items.dropWhile class?).rtakeWhile class?, ?_, fun a => List.mem_takeWhile_imp,
    fun a => List.mem_rtakeWhile_imp⟩
  rw [strip, List.append_assoc, List.rdropWhile_append_rtakeWhile, List.takeWhile_append_dropWhile]

end Strip

theorem toList_trimBy (class? : Char → Bool) (text : String) :
    (trimBy class? text).toList = strip class? text.toList := by
  simp only [trimBy, trimEndBy, trimStartBy, String.toList_ofList]
  rfl

/-! ### Lines -/

/-- The lines of a text, which line feeds divide, without white space at their ends. -/
def trimmedLines (text : String) : List String := (pieces '\n' text).map trimSpaces

/-- The trimmed lines of a text without the blank ones at both ends. -/
def tidyLines (text : String) : List String := strip (· == "") (trimmedLines text)

/-- The lines of a text, which line feeds divide; an empty text has none. -/
def linesOf (text : String) : List String := if text = "" then [] else pieces '\n' text

/-! ### The pass over the characters -/

theorem intercalate_head_cons (mark c : Char) (line : List Char) (lines : List (List Char)) :
    [mark].intercalate ((c :: line) :: lines) = c :: [mark].intercalate (line :: lines) := by
  cases lines with
  | nil => rw [List.intercalate_singleton, List.intercalate_singleton]
  | cons next lines => rw [List.intercalate_cons_cons, List.intercalate_cons_cons]; rfl

theorem intercalate_nil_cons (mark : Char) {lines : List (List Char)} (some : lines ≠ []) :
    [mark].intercalate ([] :: lines) = mark :: [mark].intercalate lines := by
  cases lines with
  | nil => exact absurd rfl some
  | cons next lines => rw [List.intercalate_cons_cons]; rfl

theorem isLineSpace_eq {c : Char} (inside : c ≠ '\n') : isLineSpace c = isSpace c := by
  rw [isLineSpace, bne_iff_ne.mpr inside, Bool.and_true]

/-- Nothing but spaces comes before the end of a line exactly if nothing of the line is left without them. -/
theorem endsLine_iff {cs piece : List Char} {pieces : List (List Char)} (cut : piecesOf '\n' cs = piece :: pieces) :
    endsLine cs = true ↔ piece.rdropWhile isSpace = [] := by
  induction cs generalizing piece pieces with
  | nil =>
    obtain ⟨rfl, -⟩ := List.cons.inj cut
    simp [endsLine]
  | cons c cs ih =>
    rw [piecesOf] at cut
    by_cases lineEnd : c = '\n'
    · rw [if_pos lineEnd] at cut
      obtain ⟨rfl, -⟩ := List.cons.inj cut
      simp [endsLine, lineEnd, isLineSpace]
    · rw [if_neg lineEnd] at cut
      obtain ⟨line, rest, further⟩ := List.exists_cons_of_ne_nil (piecesOf_ne_nil '\n' cs)
      rw [further] at cut
      obtain ⟨rfl, -⟩ := List.cons.inj cut
      by_cases space : isSpace c = true
      · have same : endsLine (c :: cs) = endsLine cs := by
          rw [endsLine, List.dropWhile_cons_of_pos (by rwa [isLineSpace_eq lineEnd]), endsLine]
        rw [same, ih further, rdropWhile_cons]
        simp [space]
      · rw [endsLine, List.dropWhile_cons_of_neg (by rwa [isLineSpace_eq lineEnd]), rdropWhile_cons_of_neg space]
        simp [lineEnd]

/-- **The pass over the characters** trims every line; of a line that has begun before, it trims the end. -/
theorem dropLineSpaces_eq {cs piece : List Char} {pieces : List (List Char)}
    (cut : piecesOf '\n' cs = piece :: pieces) :
    dropLineSpaces true cs = ['\n'].intercalate (strip isSpace piece :: pieces.map (strip isSpace)) ∧
      dropLineSpaces false cs = ['\n'].intercalate (piece.rdropWhile isSpace :: pieces.map (strip isSpace)) := by
  induction cs generalizing piece pieces with
  | nil =>
    obtain ⟨rfl, rfl⟩ := List.cons.inj cut
    exact ⟨rfl, rfl⟩
  | cons c cs ih =>
    obtain ⟨line, rest, further⟩ := List.exists_cons_of_ne_nil (piecesOf_ne_nil '\n' cs)
    obtain ⟨fresh, begun⟩ := ih further
    have ends := endsLine_iff further
    rw [piecesOf, further] at cut
    by_cases lineEnd : c = '\n'
    · subst lineEnd
      rw [if_pos rfl] at cut
      obtain ⟨rfl, rfl⟩ := List.cons.inj cut
      have goesOn (lineStart : Bool) : dropLineSpaces lineStart ('\n' :: cs) =
          ['\n'].intercalate ([] :: (line :: rest).map (strip isSpace)) := by
        rw [dropLineSpaces, if_neg (by simp [isLineSpace]), intercalate_nil_cons _ (by simp), List.map_cons, ← fresh]
        rfl
      exact ⟨goesOn true, goesOn false⟩
    · rw [if_neg lineEnd] at cut
      obtain ⟨rfl, rfl⟩ := List.cons.inj cut
      have inLine : (c == '\n') = false := beq_false_of_ne lineEnd
      by_cases space : isSpace c = true
      · constructor
        · rw [dropLineSpaces, if_pos (by simp [isLineSpace_eq lineEnd, space]), fresh, strip_cons_of_pos space]
        · rw [dropLineSpaces, rdropWhile_cons]
          by_cases last : endsLine cs = true
          · rw [if_pos (by simp [isLineSpace_eq lineEnd, space, last]), begun, if_pos ⟨ends.mp last, space⟩,
              ends.mp last]
          · rw [if_neg (by simp [last]), if_neg fun both => last (ends.mpr both.1), inLine, begun,
              intercalate_head_cons]
      · have kept (lineStart : Bool) : dropLineSpaces lineStart (c :: cs) =
            ['\n'].intercalate ((c :: line.rdropWhile isSpace) :: rest.map (strip isSpace)) := by
          rw [dropLineSpaces, if_neg (by simp [isLineSpace_eq lineEnd, space]), inLine, begun, intercalate_head_cons]
        rw [kept, kept, strip_cons_of_neg space, rdropWhile_cons_of_neg space]
        exact ⟨rfl, rfl⟩

/-! ### White space at the ends of the whole -/

theorem dropWhile_intercalate {lines : List (List Char)} (trimmed : ∀ line ∈ lines, line.dropWhile isSpace = line) :
    (['\n'].intercalate lines).dropWhile isSpace = ['\n'].intercalate (lines.dropWhile List.isEmpty) := by
  induction lines with
  | nil => rfl
  | cons line lines ih =>
    obtain ⟨here, later⟩ := List.forall_mem_cons.mp trimmed
    cases line with
    | nil =>
      rw [List.dropWhile_cons_of_pos rfl, ← ih later]
      cases lines with
      | nil => rfl
      | cons next lines => rw [intercalate_nil_cons _ (by simp), List.dropWhile_cons_of_pos (by decide)]
    | cons c line =>
      rw [List.dropWhile_cons_of_neg (by simp), intercalate_head_cons,
        List.dropWhile_cons_of_neg (not_of_dropWhile_eq_self here)]

theorem intercalate_concat (mark : Char) {lines : List (List Char)} (some : lines ≠ []) (line : List Char) :
    [mark].intercalate (lines ++ [line]) = [mark].intercalate lines ++ mark :: line := by
  induction lines with
  | nil => exact absurd rfl some
  | cons first lines ih =>
    cases lines with
    | nil => simp [List.intercalate_cons_cons]
    | cons next lines =>
      rw [List.cons_append, List.cons_append, List.intercalate_cons_cons, List.intercalate_cons_cons,
        ← List.cons_append, ih (List.cons_ne_nil _ _), List.append_assoc, List.append_assoc, List.append_assoc]

theorem rdropWhile_intercalate {lines : List (List Char)} (trimmed : ∀ line ∈ lines, line.rdropWhile isSpace = line) :
    (['\n'].intercalate lines).rdropWhile isSpace = ['\n'].intercalate (lines.rdropWhile List.isEmpty) := by
  induction lines using List.reverseRecOn with
  | nil => rfl
  | append_singleton lines line ih =>
    have earlier : ∀ line ∈ lines, line.rdropWhile isSpace = line :=
      fun other member => trimmed other (List.mem_append_left _ member)
    have here : line.rdropWhile isSpace = line := trimmed line (by simp)
    rw [List.rdropWhile_concat]
    by_cases none : lines = []
    · subst none
      by_cases blank : line = []
      · subst blank
        rfl
      · rw [List.nil_append, List.intercalate_singleton, here, if_neg (by simpa using blank),
          List.intercalate_singleton]
    · rw [intercalate_concat _ none]
      by_cases blank : line = []
      · subst blank
        rw [List.rdropWhile_concat_pos _ _ _ (by decide), ih earlier, List.isEmpty_nil, if_pos rfl]
      · have ink := List.rdropWhile_eq_self_iff.mp here blank
        rw [if_neg (by simpa using blank), intercalate_concat _ none, List.rdropWhile_eq_self_iff]
        intro _
        rwa [List.getLast_append_of_ne_nil _ (List.cons_ne_nil _ _), List.getLast_cons blank]

/-- White space at the ends of a text whose lines are trimmed is made of blank lines. -/
theorem strip_intercalate {lines : List (List Char)} (trimmed : ∀ line ∈ lines, strip isSpace line = line) :
    strip isSpace (['\n'].intercalate lines) = ['\n'].intercalate (strip List.isEmpty lines) := by
  rw [strip, dropWhile_intercalate fun line member => trimmed line member ▸ dropWhile_strip, rdropWhile_intercalate,
    strip]
  intro line member
  exact trimmed line ((List.dropWhile_sublist _).subset member) ▸ rdropWhile_strip

/-! ### Tidy lines -/

theorem map_toList_trimmedLines (text : String) :
    (trimmedLines text).map String.toList = (piecesOf '\n' text.toList).map (strip isSpace) := by
  simp only [trimmedLines, pieces, List.map_map]
  refine List.map_congr_left fun piece _ => ?_
  simp only [Function.comp_apply, trimSpaces, toList_trimBy, String.toList_ofList]

theorem map_toList_tidyLines (text : String) :
    (tidyLines text).map String.toList = strip List.isEmpty ((piecesOf '\n' text.toList).map (strip isSpace)) := by
  have blank : (List.isEmpty ∘ String.toList : String → Bool) = (· == "") := by
    funext line
    rw [Function.comp_apply, Bool.eq_iff_iff, List.isEmpty_iff, beq_iff_eq, ← String.toList_eq_nil_iff]
  rw [← map_toList_trimmedLines, strip_map, blank, tidyLines]

/-- **A tidied text** is its tidy lines. -/
theorem normalizeLines_eq (text : String) : normalizeLines text = "\n".intercalate (tidyLines text) := by
  obtain ⟨line, rest, cut⟩ := List.exists_cons_of_ne_nil (piecesOf_ne_nil '\n' text.toList)
  have trimmed : ∀ line ∈ (piecesOf '\n' text.toList).map (strip isSpace), strip isSpace line = line := by
    intro line member
    obtain ⟨piece, -, rfl⟩ := List.mem_map.mp member
    exact strip_strip
  have passed : dropLineSpaces true text.toList = ['\n'].intercalate ((piecesOf '\n' text.toList).map (strip isSpace)) := by
    rw [(dropLineSpaces_eq cut).1, cut, List.map_cons]
  apply String.toList_inj.mp
  rw [normalizeLines, trimSpaces, toList_trimBy, String.toList_ofList, passed, strip_intercalate trimmed,
    String.toList_intercalate, map_toList_tidyLines]
  rfl

theorem not_mem_of_mem_piecesOf {mark : Char} {cs piece : List Char} (member : piece ∈ piecesOf mark cs) :
    mark ∉ piece := by
  induction cs generalizing piece with
  | nil =>
    rw [List.mem_singleton.mp member]
    exact List.not_mem_nil
  | cons c cs ih =>
    obtain ⟨line, rest, further⟩ := List.exists_cons_of_ne_nil (piecesOf_ne_nil mark cs)
    rw [further] at ih
    rw [piecesOf, further] at member
    split at member
    · rcases List.mem_cons.mp member with rfl | later
      · exact List.not_mem_nil
      · exact ih later
    next other =>
      rcases List.mem_cons.mp member with rfl | later
      · exact fun inLine => (List.mem_cons.mp inLine).elim (fun same => other same.symm) (ih List.mem_cons_self)
      · exact ih (List.mem_cons_of_mem _ later)

theorem tidyLine_of_mem {text line : String} (member : line ∈ tidyLines text) :
    trimSpaces line = line ∧ '\n' ∉ line.toList := by
  obtain ⟨piece, fromText, rfl⟩ := List.mem_map.mp (strip_sublist.subset member)
  obtain ⟨cs, cut, rfl⟩ := List.mem_map.mp fromText
  refine ⟨String.toList_inj.mp ?_, ?_⟩
  · simp only [trimSpaces, toList_trimBy, strip_strip]
  · rw [trimSpaces, toList_trimBy, String.toList_ofList]
    exact fun inLine => not_mem_of_mem_piecesOf cut (strip_sublist.subset inLine)

/-- The lines of a tidied text are tidy. -/
theorem linesOf_normalizeLines (text : String) : linesOf (normalizeLines text) = tidyLines text := by
  rw [linesOf, normalizeLines_eq]
  rcases tidy : tidyLines text with _ | ⟨line, lines⟩
  · rfl
  · have ink : line ≠ "" := by
      have kept : (tidyLines text).dropWhile (· == "") = tidyLines text := dropWhile_strip
      rw [tidy] at kept
      exact fun blank => not_of_dropWhile_eq_self kept (beq_iff_eq.mpr blank)
    have some : "\n".intercalate (line :: lines) ≠ "" := by
      intro none
      have first : ("\n".intercalate (line :: lines)).toList = [] := by rw [none]; rfl
      cases lines with
      | nil => exact ink (by simpa using none)
      | cons next lines =>
        rw [String.intercalate_cons_cons, String.toList_append, String.toList_append] at first
        simp at first
    rw [if_neg some]
    exact pieces_intercalate (List.cons_ne_nil _ _) fun line member => (tidyLine_of_mem (tidy ▸ member)).2

/-- **A tidied text is tidy already.** -/
theorem tidyLines_normalizeLines (text : String) : tidyLines (normalizeLines text) = tidyLines text := by
  have lines := linesOf_normalizeLines text
  by_cases none : normalizeLines text = ""
  · rw [linesOf, if_pos none] at lines
    rw [← lines, none]
    decide
  · rw [linesOf, if_neg none] at lines
    have trimmed : trimmedLines (normalizeLines text) = tidyLines text := by
      rw [trimmedLines, lines]
      exact (List.map_congr_left fun line member => (tidyLine_of_mem member).1).trans (List.map_id _)
    rw [tidyLines, trimmed, tidyLines, strip_strip]

/-- What is between the blank lines at both ends of a text stays as it is, but for white space at the ends of lines. -/
theorem exists_trimmedLines (text : String) :
    ∃ before after, trimmedLines text =
      List.replicate before "" ++ linesOf (normalizeLines text) ++ List.replicate after "" := by
  obtain ⟨before, after, parts, blankBefore, blankAfter⟩ := exists_strip (· == "") (trimmedLines text)
  refine ⟨before.length, after.length, ?_⟩
  rw [linesOf_normalizeLines, tidyLines,
    ← List.eq_replicate_length.mpr fun line member => eq_of_beq (blankBefore line member),
    ← List.eq_replicate_length.mpr fun line member => eq_of_beq (blankAfter line member)]
  exact parts

/-! ### Characters that are no white space -/

theorem filter_strip (cs : List Char) : (strip isSpace cs).filter (!isSpace ·) = cs.filter (!isSpace ·) := by
  obtain ⟨before, after, parts, blankBefore, blankAfter⟩ := exists_strip isSpace cs
  have none {blank : List Char} (all : ∀ c ∈ blank, isSpace c = true) : blank.filter (!isSpace ·) = [] :=
    List.filter_eq_nil_iff.mpr fun c member => by simp [all c member]
  conv_rhs => rw [parts, List.filter_append, List.filter_append, none blankBefore, none blankAfter, List.nil_append,
    List.append_nil]

theorem filter_dropLineSpaces (lineStart : Bool) (cs : List Char) :
    (dropLineSpaces lineStart cs).filter (!isSpace ·) = cs.filter (!isSpace ·) := by
  induction cs generalizing lineStart with
  | nil => rfl
  | cons c cs ih =>
    rw [dropLineSpaces]
    split
    next dropped =>
      have space : isSpace c = true := by
        rw [Bool.and_eq_true, isLineSpace, Bool.and_eq_true] at dropped
        exact dropped.1.1
      rw [ih, List.filter_cons_of_neg (by simp [space])]
    next => rw [List.filter_cons, List.filter_cons, ih]

theorem filter_normalizeLines (text : String) :
    (normalizeLines text).toList.filter (!isSpace ·) = text.toList.filter (!isSpace ·) := by
  rw [normalizeLines, trimSpaces, toList_trimBy, filter_strip, String.toList_ofList, filter_dropLineSpaces]

end Text

/-! ### The function -/

open Text in
/-- **What `normalize` gives**: of the text that its argument gives, the lines between line feeds, each without white
space at both ends, without the blank ones at both ends, and with line feeds between them. So a second call changes
nothing, the lines from the first that is not blank to the last one are all there in their order, and so are all
characters that are no white space. -/
theorem normalize_tidies (f : Forest) (focus : Focus) (argument : Argument (Except EvalError)) :
    ReportFunction.normalize.call f focus [argument] =
        (argument.value focus).map (fun value => .text (normalizeLines (value.toText f))) ∧
      ∀ text, normalizeLines text = "\n".intercalate (tidyLines text) ∧
        normalizeLines (normalizeLines text) = normalizeLines text ∧
        (∃ before after, trimmedLines text =
          List.replicate before "" ++ linesOf (normalizeLines text) ++ List.replicate after "") ∧
        (normalizeLines text).toList.filter (!isSpace ·) = text.toList.filter (!isSpace ·) := by
  refine ⟨?_, fun text => ⟨normalizeLines_eq text, ?_, exists_trimmedLines text, filter_normalizeLines text⟩⟩
  · cases given : argument.value focus <;>
      simp [ReportFunction.call, ReportFunction.values, given, bind, Except.bind, pure, Except.pure, Except.map]
  · rw [normalizeLines_eq, tidyLines_normalizeLines, ← normalizeLines_eq]

/-- White space alone makes a blank line, and a carriage return is white space. -/
example : Text.tidyLines "\n a\tb \r\n \t \n c\n\n" = ["a\tb", "", "c"] := by decide

end XPathAnnotator
