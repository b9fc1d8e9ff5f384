/-
**Words of texts.**

The words of texts joined by spaces are the words of the texts, and an unbroken text is its only word.

* `words_intercalate` — words of joined texts;
* `words_intercalate_of_unbroken` — unbroken texts are the words of their join;
* `run_injective`, `append_mark_injective` — a run of a class, or what comes before a mark, and what comes after it;
* `splitAtFirst?_append` — a pattern is found after what it does not begin in;
* `cutAtMark?_append`, `pieces_intercalate` — texts without a mark, joined by marks, are cut where they were joined.
-/

import Mathlib
import XPathAnnotator.Text.Blank
import XPathAnnotator.Text.Pieces

namespace XPathAnnotator.Text

/-! ### Pieces -/

section Pieces

variable {separator : Char → Bool} {c d : Char} {cs : List Char}

theorem piecesBetween_separator (apart : separator c = true) :
    piecesBetween separator (c :: cs) = piecesBetween separator cs := by
  rw [piecesBetween.eq_def]
  exact if_pos apart

theorem piecesBetween_single (inside : ¬ separator c = true) : piecesBetween separator [c] = [[c]] := by
  rw [piecesBetween.eq_def]
  exact if_neg inside

theorem piecesBetween_last (inside : ¬ separator c = true) (apart : separator d = true) :
    piecesBetween separator (c :: d :: cs) = [c] :: piecesBetween separator (d :: cs) := by
  rw [piecesBetween.eq_def]
  dsimp only
  rw [if_neg inside]
  cases piecesBetween separator (d :: cs) with
  | nil => rfl
  | cons piece pieces => exact if_pos apart

theorem piecesBetween_next (inside : ¬ separator c = true) (further : ¬ separator d = true)
    {piece : List Char} {pieces : List (List Char)} (rest : piecesBetween separator (d :: cs) = piece :: pieces) :
    piecesBetween separator (c :: d :: cs) = (c :: piece) :: pieces := by
  rw [piecesBetween.eq_def]
  dsimp only
  rw [if_neg inside, rest]
  exact if_neg further

theorem exists_piecesBetween (inside : ¬ separator c = true) :
    ∃ piece pieces, piecesBetween separator (c :: cs) = piece :: pieces := by
  induction cs generalizing c with
  | nil => exact ⟨_, _, piecesBetween_single inside⟩
  | cons d cs ih =>
    by_cases apart : separator d = true
    · exact ⟨_, _, piecesBetween_last inside apart⟩
    · obtain ⟨piece, pieces, rest⟩ := ih apart
      exact ⟨_, _, piecesBetween_next inside apart rest⟩

/-- The pieces on both sides of a separator. -/
theorem piecesBetween_append (apart : separator c = true) (xs ys : List Char) :
    piecesBetween separator (xs ++ c :: ys) = piecesBetween separator xs ++ piecesBetween separator ys := by
  induction xs with
  | nil => exact piecesBetween_separator apart
  | cons x xs ih =>
    by_cases here : separator x = true
    · rw [List.cons_append, piecesBetween_separator here, piecesBetween_separator here, ih]
    cases xs with
    | nil =>
      rw [piecesBetween_single here, List.singleton_append, piecesBetween_last here apart,
        piecesBetween_separator apart]
      rfl
    | cons y xs =>
      rw [List.cons_append, List.cons_append] at *
      by_cases blank : separator y = true
      · rw [piecesBetween_last here blank, piecesBetween_last here blank, ih]
        rfl
      · obtain ⟨piece, pieces, rest⟩ : ∃ piece pieces, piecesBetween separator (y :: xs) = piece :: pieces :=
          exists_piecesBetween blank
        rw [rest] at ih
        rw [piecesBetween_next here blank rest, piecesBetween_next here blank ih]
        rfl

end Pieces

/-! ### Joined texts -/

/-- What holds of the characters of texts and of what is put between them holds of all characters. -/
theorem forall_mem_intercalate {P : Char → Prop} {separator : String} {texts : List String}
    (between : ∀ c ∈ separator.toList, P c) (each : ∀ text ∈ texts, ∀ c ∈ text.toList, P c) :
    ∀ c ∈ (separator.intercalate texts).toList, P c := by
  induction texts with
  | nil => exact fun c met => absurd met List.not_mem_nil
  | cons text texts ih =>
    obtain ⟨here, later⟩ := List.forall_mem_cons.mp each
    cases texts with
    | nil => rwa [String.intercalate_singleton]
    | cons next texts =>
      intro c met
      rw [String.intercalate_cons_cons, String.toList_append, String.toList_append, List.mem_append,
        List.mem_append] at met
      rcases met with (met | met) | met
      · exact here c met
      · exact between c met
      · exact ih later c met

/-- The words of texts joined with a space between them. -/
theorem words_intercalate (texts : List String) : words (String.intercalate " " texts) = texts.flatMap words := by
  induction texts with
  | nil => rfl
  | cons text texts ih =>
    cases texts with
    | nil => simp
    | cons next rest =>
      rw [String.intercalate_cons_cons, List.flatMap_cons, ← ih, words, String.toList_append, String.toList_append,
        List.append_assoc]
      have space : " ".toList = [' '] := rfl
      rw [space, List.singleton_append, piecesBetween_append (by decide), List.map_append]
      rfl

/-! ### Unbroken texts -/

/-- A text that has characters, none of them white space. -/
def Unbroken (text : String) : Prop := text.toList ≠ [] ∧ ∀ c ∈ text.toList, isSpace c = false

instance (text : String) : Decidable (Unbroken text) :=
  decidable_of_iff (text.toList ≠ [] ∧ (text.toList.all fun c => !isSpace c) = true) (by simp [Unbroken])

theorem piecesBetween_of_inside {separator : Char → Bool} {cs : List Char} (nonempty : cs ≠ [])
    (inside : ∀ c ∈ cs, separator c = false) : piecesBetween separator cs = [cs] := by
  induction cs with
  | nil => exact absurd rfl nonempty
  | cons c cs ih =>
    have here : ¬ separator c = true := by simp [inside c List.mem_cons_self]
    cases cs with
    | nil => exact piecesBetween_single here
    | cons d cs =>
      refine piecesBetween_next here ?_ (ih (List.cons_ne_nil _ _) fun e member =>
        inside e (List.mem_cons_of_mem _ member))
      simp [inside d (List.mem_cons_of_mem _ List.mem_cons_self)]

theorem Unbroken.words_eq {text : String} (unbroken : Unbroken text) : words text = [text] := by
  rw [words, piecesBetween_of_inside unbroken.1 unbroken.2]
  exact congrArg (· :: []) String.ofList_toList

theorem words_intercalate_of_unbroken {texts : List String} (unbroken : ∀ text ∈ texts, Unbroken text) :
    words (String.intercalate " " texts) = texts := by
  rw [words_intercalate]
  induction texts with
  | nil => rfl
  | cons text texts ih =>
    rw [List.flatMap_cons, (unbroken text List.mem_cons_self).words_eq,
      ih fun other member => unbroken other (List.mem_cons_of_mem _ member)]
    rfl

/-! ### Runs of a class -/

section Run

variable {α : Type} {class? : α → Bool} {cs ds rest others : List α}

theorem takeWhile_append_apart (all : ∀ c ∈ cs, class? c = true) (apart : ∀ c ∈ rest.head?, class? c = false) :
    (cs ++ rest).takeWhile class? = cs := by
  have none : rest.takeWhile class? = [] := by
    cases rest with
    | nil => rfl
    | cons c rest => simp [apart c rfl]
  rw [List.takeWhile_append_of_pos all, none, List.append_nil]

theorem dropWhile_append_apart (all : ∀ c ∈ cs, class? c = true) (apart : ∀ c ∈ rest.head?, class? c = false) :
    (cs ++ rest).dropWhile class? = rest := by
  rw [List.dropWhile_append_of_pos all]
  cases rest with
  | nil => rfl
  | cons c rest => rw [List.dropWhile_cons, if_neg (by simp [apart c rfl])]

/-- A run can be told from what comes after it. -/
theorem run_injective (all : ∀ c ∈ cs, class? c = true) (all' : ∀ c ∈ ds, class? c = true)
    (apart : ∀ c ∈ rest.head?, class? c = false) (apart' : ∀ c ∈ others.head?, class? c = false)
    (same : cs ++ rest = ds ++ others) : cs = ds ∧ rest = others := by
  have taken := congrArg (List.takeWhile class?) same
  have dropped := congrArg (List.dropWhile class?) same
  rw [takeWhile_append_apart all apart, takeWhile_append_apart all' apart'] at taken
  rw [dropWhile_append_apart all apart, dropWhile_append_apart all' apart'] at dropped
  exact ⟨taken, dropped⟩

/-- What comes before a mark can be told from what comes after it. -/
theorem append_mark_injective [DecidableEq α] {mark : α} (absent : mark ∉ cs) (absent' : mark ∉ ds)
    (same : cs ++ mark :: rest = ds ++ mark :: others) : cs = ds ∧ rest = others := by
  have apart {xs : List α} (absent : mark ∉ xs) : ∀ x ∈ xs, decide (x ≠ mark) = true :=
    fun x member => decide_eq_true fun isMark => absent (isMark ▸ member)
  have ends (xs : List α) : ∀ x ∈ (mark :: xs).head?, decide (x ≠ mark) = false := by
    rintro x ⟨rfl⟩
    exact decide_eq_false fun other => other rfl
  obtain ⟨sameBefore, sameAfter⟩ := run_injective (apart absent) (apart absent') (ends rest) (ends others) same
  exact ⟨sameBefore, (List.cons.inj sameAfter).2⟩

end Run

theorem dropWhile_eq_self_of_forall {α : Type} {class? : α → Bool} {cs : List α}
    (none : ∀ c ∈ cs, class? c = false) : cs.dropWhile class? = cs := by
  cases cs with
  | nil => rfl
  | cons c cs => rw [List.dropWhile_cons, if_neg (by simp [none c List.mem_cons_self])]

theorem trimBy_eq_self_of_forall {class? : Char → Bool} {text : String}
    (none : ∀ c ∈ text.toList, class? c = false) : trimBy class? text = text := by
  have reversed : ∀ c ∈ text.toList.reverse, class? c = false :=
    fun c member => none c (List.mem_reverse.mp member)
  rw [trimBy, trimStartBy, dropWhile_eq_self_of_forall none, String.ofList_toList, trimEndBy,
    dropWhile_eq_self_of_forall reversed, List.reverse_reverse, String.ofList_toList]

theorem Unbroken.trimSpaces_eq {text : String} (unbroken : Unbroken text) : trimSpaces text = text :=
  trimBy_eq_self_of_forall unbroken.2

/-! ### Patterns -/

/-- A pattern is found after characters that differ from its first one. -/
theorem splitAtFirst?_append {first : Char} {pattern before : List Char} (after : List Char)
    (absent : first ∉ before) : splitAtFirst? (first :: pattern) (before ++ (first :: pattern) ++ after) =
      some (before, after) := by
  induction before with
  | nil =>
    rw [List.nil_append, List.cons_append, splitAtFirst?]
    simp
  | cons c before ih =>
    have other : first ≠ c := fun same => absent (same ▸ List.mem_cons_self)
    rw [List.cons_append, List.cons_append, splitAtFirst?,
      ih fun member => absent (List.mem_cons_of_mem _ member)]
    simp [List.isPrefixOf, other]

/-! ### Marks -/

section Marks

variable {mark : Char} {before after : List Char}

theorem cutAtMark?_of_not_mem (absent : mark ∉ before) : cutAtMark? mark before = none := by
  have dropped : before.dropWhile (· != mark) = [] := by
    rw [List.dropWhile_eq_nil_iff]
    exact fun c member => bne_iff_ne.mpr fun same => absent (same ▸ member)
  rw [cutAtMark?, dropped]

theorem cutAtMark?_append (absent : mark ∉ before) :
    cutAtMark? mark (before ++ mark :: after) = some (before, after) := by
  have others : ∀ c ∈ before, (c != mark) = true :=
    fun c member => bne_iff_ne.mpr fun same => absent (same ▸ member)
  have ends : ∀ c ∈ (mark :: after).head?, (c != mark) = false := by
    rintro c ⟨rfl⟩
    exact bne_self_eq_false _
  rw [cutAtMark?, dropWhile_append_apart others ends]
  dsimp only
  rw [takeWhile_append_apart others ends]

theorem cutAt?_of_not_mem {text : String} (absent : mark ∉ text.toList) : cutAt? mark text = none := by
  rw [cutAt?, cutAtMark?_of_not_mem absent, Option.map_none]

theorem cutAt?_append {text rest : String} (absent : mark ∉ text.toList) :
    cutAt? mark (text ++ String.singleton mark ++ rest) = some (text, rest) := by
  have characters : (text ++ String.singleton mark ++ rest).toList = text.toList ++ mark :: rest.toList := by
    rw [String.toList_append, String.toList_append, String.toList_singleton, List.append_assoc,
      List.singleton_append]
  rw [cutAt?, characters, cutAtMark?_append absent]
  simp only [Option.map_some, String.ofList_toList]

theorem piecesOf_of_not_mem (absent : mark ∉ before) : piecesOf mark before = [before] := by
  induction before with
  | nil => rfl
  | cons c before ih =>
    have other : c ≠ mark := fun same => absent (same ▸ List.mem_cons_self)
    rw [piecesOf, if_neg other, ih fun member => absent (List.mem_cons_of_mem _ member)]

theorem piecesOf_append (absent : mark ∉ before) :
    piecesOf mark (before ++ mark :: after) = before :: piecesOf mark after := by
  induction before with
  | nil => rw [List.nil_append, piecesOf, if_pos rfl]
  | cons c before ih =>
    have other : c ≠ mark := fun same => absent (same ▸ List.mem_cons_self)
    rw [List.cons_append, piecesOf, if_neg other, ih fun member => absent (List.mem_cons_of_mem _ member)]

/-- Texts without a mark are the pieces of the text that they are joined to by marks. -/
theorem pieces_intercalate {texts : List String} (some : texts ≠ [])
    (absent : ∀ text ∈ texts, mark ∉ text.toList) :
    pieces mark ((String.singleton mark).intercalate texts) = texts := by
  induction texts with
  | nil => exact absurd rfl some
  | cons text texts ih =>
    obtain ⟨here, later⟩ := List.forall_mem_cons.mp absent
    cases texts with
    | nil =>
      rw [String.intercalate_singleton, pieces, piecesOf_of_not_mem here]
      exact congrArg (· :: []) String.ofList_toList
    | cons next texts =>
      have rest := ih (List.cons_ne_nil _ _) later
      rw [pieces] at rest
      rw [String.intercalate_cons_cons, pieces, String.toList_append, String.toList_append,
        String.toList_singleton, List.append_assoc, List.singleton_append, piecesOf_append here, List.map_cons,
        rest, String.ofList_toList]

end Marks

end XPathAnnotator.Text
