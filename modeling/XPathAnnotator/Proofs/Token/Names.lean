/-
**Names in a row of characters.**

A name goes on as long as its characters allow, so it is cut off where another character follows. A qualified
name takes in what follows its colon if that is a name or a star.

* `QName.Proper`, `QName.Starred` — names whose parts are names, and a star with a qualifier;
* `QName.ofText_text` — such names are read back from their written form;
* `qualifiedLength_text` — and are cut off at their ends;
* `exists_name` — conversely, whatever is cut off is such a name.
-/

import Mathlib
import XPathAnnotator.Name.Qualified
import XPathAnnotator.Proofs.Text.Words
import XPathAnnotator.Token.Lexer

namespace XPathAnnotator

open XPathAnnotator.Text

namespace Token

/-! ### Characters -/

theorem take_length_takeWhile {α : Type} (class? : α → Bool) (cs : List α) :
    cs.take (cs.takeWhile class?).length = cs.takeWhile class? :=
  (List.prefix_iff_eq_take.mp (List.takeWhile_prefix class?)).symm

theorem drop_length_takeWhile {α : Type} (class? : α → Bool) (cs : List α) :
    cs.drop (cs.takeWhile class?).length = cs.dropWhile class? :=
  calc cs.drop (cs.takeWhile class?).length
      = (cs.takeWhile class? ++ cs.dropWhile class?).drop (cs.takeWhile class?).length := by
        rw [List.takeWhile_append_dropWhile]
    _ = cs.dropWhile class? := List.drop_left

/-- The characters of symbols, blanks and quotes. -/
def marks : List Char :=
  [' ', '\t', '\r', '\n', '"', '\'', '(', ')', '[', ']', '@', ',', '/', '|', '+', '=', '<', '>', '*', '$', ':', '!']

theorem isNameChar_of_mem_marks {c : Char} (mark : c ∈ marks) : isNameChar c = false := by
  have all : marks.all (fun c => !isNameChar c) = true := by decide
  simpa using List.all_eq_true.mp all c mark

theorem isNameChar_of_isNameStart {c : Char} (start : isNameStart c = true) : isNameChar c = true := by
  unfold isNameStart at start
  unfold isNameChar
  simp [(Bool.and_eq_true_iff.mp start).1]

theorem not_mem_marks_of_isNameChar {c : Char} (char : isNameChar c = true) : c ∉ marks :=
  fun mark => absurd char (by simp [isNameChar_of_mem_marks mark])

/-- No name begins with a point or a minus sign, which may stand within names. -/
theorem not_mem_of_isNameStart {c : Char} (start : isNameStart c = true) : c ∉ '.' :: '-' :: marks := by
  have all : ('.' :: '-' :: marks).all (fun c => !isNameStart c) = true := by decide
  exact fun mark => absurd start (by simpa using List.all_eq_true.mp all c mark)

theorem ne_of_isNameStart {c d : Char} (start : isNameStart c = true) (other : isNameStart d = false) : c ≠ d := by
  rintro rfl
  exact absurd start (by simp [other])

/-! ### Names without colon -/

theorem isNCName_iff {text : String} : isNCName text = true ↔
    ∃ c rest, text.toList = c :: rest ∧ isNameStart c = true ∧ ∀ d ∈ rest, isNameChar d = true := by
  unfold isNCName
  cases text.toList with
  | nil => simp
  | cons c rest =>
    by_cases start : isNameStart c = true
    · have whole : 1 + (rest.takeWhile isNameChar).length = rest.length + 1 ↔ rest.takeWhile isNameChar = rest := by
        rw [Nat.add_comm, Nat.add_right_cancel_iff]
        exact ⟨(List.takeWhile_prefix isNameChar).eq_of_length, congrArg List.length⟩
      simp [nameLength, start, whole, List.takeWhile_eq_self_iff]
    · simp [nameLength, start]

theorem isNCName_ofList {c : Char} {cs : List Char} (start : isNameStart c = true)
    (chars : ∀ d ∈ cs, isNameChar d = true) : isNCName (String.ofList (c :: cs)) = true :=
  isNCName_iff.mpr ⟨c, cs, String.toList_ofList, start, chars⟩

section Name

variable {text : String} {rest : List Char}

theorem isNameChar_of_isNCName (name : isNCName text = true) {c : Char} (member : c ∈ text.toList) :
    isNameChar c = true := by
  obtain ⟨first, others, written, start, chars⟩ := isNCName_iff.mp name
  rw [written] at member
  rcases List.mem_cons.mp member with rfl | member
  · exact isNameChar_of_isNameStart start
  · exact chars c member

theorem not_mem_of_isNCName (name : isNCName text = true) {c : Char} (mark : c ∈ marks) : c ∉ text.toList :=
  fun member => not_mem_marks_of_isNameChar (isNameChar_of_isNCName name member) mark

/-- A name is cut off before a character that no name has. -/
theorem nameLength_append (name : isNCName text = true) (apart : ∀ c ∈ rest.head?, isNameChar c = false) :
    nameLength (text.toList ++ rest) = text.toList.length := by
  obtain ⟨c, others, written, start, chars⟩ := isNCName_iff.mp name
  rw [written, List.cons_append, nameLength, if_pos start, takeWhile_append_apart chars apart, List.length_cons,
    Nat.add_comm]

end Name

/-- What a row of characters begins with is a name. -/
theorem isNCName_take {c : Char} (rest : List Char) (start : isNameStart c = true) :
    isNCName (String.ofList ((c :: rest).take (nameLength (c :: rest)))) = true := by
  have taken : (c :: rest).take (nameLength (c :: rest)) = c :: rest.takeWhile isNameChar := by
    rw [nameLength, if_pos start, Nat.add_comm, List.take_succ_cons, take_length_takeWhile]
  rw [taken]
  exact isNCName_ofList start fun d member => List.mem_takeWhile_imp member

/-- Where there is a name at all, its first character begins a name. -/
theorem isNameStart_of_nameLength {c : Char} {rest : List Char} (some : nameLength (c :: rest) ≠ 0) :
    isNameStart c = true := by
  by_contra other
  exact some (by rw [nameLength, if_neg other])

end Token

/-! ### Qualified names -/

namespace Name.QName

open Token

/-- A name whose parts are names without colon. -/
structure Proper (name : QName) : Prop where
  qualifier : ∀ qualifier, name.qualifier = some qualifier → isNCName qualifier = true
  localPart : isNCName name.localPart = true

/-- A qualified star, which is read as a name after the sign of a variable. -/
def Starred (name : QName) : Prop := ∃ qualifier, isNCName qualifier = true ∧ name = ⟨some qualifier, "*"⟩

theorem toList_text_qualified (qualifier localPart : String) :
    (text ⟨some qualifier, localPart⟩).toList = qualifier.toList ++ ':' :: localPart.toList := by
  rw [text, String.toList_append, String.toList_append, List.append_assoc]
  rfl

theorem ofText_text_qualified {qualifier localPart : String} (name : isNCName qualifier = true) :
    ofText (text ⟨some qualifier, localPart⟩) = ⟨some qualifier, localPart⟩ := by
  have absent : ':' ∉ qualifier.toList := not_mem_of_isNCName name (by decide)
  rw [ofText, toList_text_qualified, cutAtMark?_append absent]
  simp only [String.ofList_toList]

/-- **Names are read back** from their written form. -/
theorem ofText_text {name : QName} (parts : name.Proper ∨ name.Starred) : ofText name.text = name := by
  rcases parts with proper | ⟨qualifier, isName, rfl⟩
  · obtain ⟨qualifier?, localPart⟩ := name
    cases qualifier? with
    | none =>
      have absent : ':' ∉ localPart.toList := not_mem_of_isNCName proper.localPart (by decide)
      rw [text, ofText, cutAtMark?_of_not_mem absent]
    | some qualifier => exact ofText_text_qualified (proper.qualifier qualifier rfl)
  · exact ofText_text_qualified isName

/-- The written form of a name is some characters that begin as a name does. -/
theorem exists_text_toList {name : QName} (parts : name.Proper ∨ name.Starred) :
    ∃ c rest, name.text.toList = c :: rest ∧ isNameStart c = true := by
  have qualified {qualifier localPart : String} (isName : isNCName qualifier = true) :
      ∃ c rest, (text ⟨some qualifier, localPart⟩).toList = c :: rest ∧ isNameStart c = true := by
    obtain ⟨c, rest, written, start, _⟩ := isNCName_iff.mp isName
    rw [toList_text_qualified, written]
    exact ⟨c, _, rfl, start⟩
  rcases parts with proper | ⟨qualifier, isName, rfl⟩
  · obtain ⟨qualifier?, localPart⟩ := name
    cases qualifier? with
    | none =>
      obtain ⟨c, rest, written, start, _⟩ := isNCName_iff.mp proper.localPart
      exact ⟨c, rest, written, start⟩
    | some qualifier => exact qualified (proper.qualifier qualifier rfl)
  · exact qualified isName

theorem endsWith_star_iff {text : String} : text.endsWith ":*" = true ↔ [':', '*'] <:+ text.toList := by
  rw [String.endsWith_eq_endsWith_toSlice, String.Slice.endsWith_string_iff, String.copy_toSlice]
  rfl

/-- A name whose parts are names has no star. -/
theorem Proper.star_not_mem {name : QName} (proper : name.Proper) : '*' ∉ name.text.toList := by
  have inLocal : '*' ∉ name.localPart.toList := not_mem_of_isNCName proper.localPart (by decide)
  obtain ⟨qualifier?, localPart⟩ := name
  cases qualifier? with
  | none => exact inLocal
  | some qualifier =>
    rw [toList_text_qualified, List.mem_append, List.mem_cons]
    rintro (member | colon | member)
    · exact not_mem_of_isNCName (proper.qualifier qualifier rfl) (by decide) member
    · exact absurd colon (by decide)
    · exact inLocal member

theorem Proper.endsWith_star {name : QName} (proper : name.Proper) : name.text.endsWith ":*" = false := by
  rw [Bool.eq_false_iff, ne_eq, endsWith_star_iff]
  exact fun suffix => proper.star_not_mem (suffix.subset (by decide))

theorem endsWith_star (qualifier : String) : (qualifier ++ ":*").endsWith ":*" = true := by
  rw [endsWith_star_iff, String.toList_append]
  exact List.suffix_append _ _

end Name.QName

/-! ### Where names end -/

namespace Token

open Name (QName)

/-- What follows does not go on with a name: no character of names comes next, and no colon with a name or a
star after it. -/
def EndsName (rest : List Char) : Prop :=
  (∀ c ∈ rest.head?, isNameChar c = false) ∧
    ∀ after, rest = ':' :: after → nameLength after = 0 ∧ after.head? ≠ some '*'

theorem qualifiedLength_ncName {text : String} {rest : List Char} (name : isNCName text = true)
    (ends : EndsName rest) : qualifiedLength (text.toList ++ rest) = text.toList.length := by
  unfold qualifiedLength
  dsimp only
  rw [nameLength_append name ends.1, List.drop_left]
  split
  · rename_i after
    exact absurd rfl (ends.2 _ rfl).2
  · rename_i after _
    rw [(ends.2 _ rfl).1]
    rfl
  · rfl

theorem qualifiedLength_qualified {qualifier localPart : String} {rest : List Char}
    (name : isNCName qualifier = true) (isLocal : isNCName localPart = true)
    (ends : ∀ c ∈ rest.head?, isNameChar c = false) :
    qualifiedLength (qualifier.toList ++ ':' :: (localPart.toList ++ rest)) =
      qualifier.toList.length + 1 + localPart.toList.length := by
  have length : nameLength (localPart.toList ++ rest) = localPart.toList.length := nameLength_append isLocal ends
  have colon : ∀ c ∈ (':' :: (localPart.toList ++ rest)).head?, isNameChar c = false := by
    rintro c ⟨rfl⟩
    exact isNameChar_of_mem_marks (by decide)
  obtain ⟨c, others, written, start, _⟩ := isNCName_iff.mp isLocal
  have noStar : c ≠ '*' := ne_of_isNameStart start (by decide)
  unfold qualifiedLength
  dsimp only
  rw [nameLength_append name colon, List.drop_left]
  have some : ¬ (nameLength (localPart.toList ++ rest) == 0) = true := by
    rw [length, written]
    simp
  split
  · rename_i after begins
    rw [written] at begins
    exact absurd (List.cons.inj (List.cons.inj begins).2).1 noStar
  · rename_i after _ begins
    obtain rfl := (List.cons.inj begins).2
    rw [if_neg some, length]
  · rename_i other
    exact absurd rfl (other _)

theorem qualifiedLength_star {qualifier : String} (rest : List Char) (name : isNCName qualifier = true) :
    qualifiedLength (qualifier.toList ++ ':' :: '*' :: rest) = qualifier.toList.length + 2 := by
  have colon : ∀ c ∈ (':' :: '*' :: rest).head?, isNameChar c = false := by
    rintro c ⟨rfl⟩
    exact isNameChar_of_mem_marks (by decide)
  unfold qualifiedLength
  dsimp only
  rw [nameLength_append name colon, List.drop_left]
  rfl

/-- **A name is cut off at its end.** -/
theorem qualifiedLength_text {name : QName} (parts : name.Proper ∨ name.Starred) {rest : List Char}
    (ends : EndsName rest) : qualifiedLength (name.text.toList ++ rest) = name.text.toList.length := by
  rcases parts with proper | ⟨qualifier, isName, rfl⟩
  · obtain ⟨qualifier?, localPart⟩ := name
    cases qualifier? with
    | none => exact qualifiedLength_ncName proper.localPart ends
    | some qualifier =>
      rw [QName.toList_text_qualified, List.append_assoc, List.cons_append,
        qualifiedLength_qualified (proper.qualifier qualifier rfl) proper.localPart ends.1, List.length_append,
        List.length_cons, Nat.add_right_comm, Nat.add_assoc]
  · rw [QName.toList_text_qualified, List.append_assoc]
    exact (qualifiedLength_star rest isName).trans (by simp)

theorem take_add_one_eq {cs after : List Char} {n : Nat} {c : Char} (rest : cs.drop n = c :: after) (m : Nat) :
    cs.take (n + 1 + m) = cs.take n ++ c :: after.take m := by
  rw [Nat.add_assoc, List.take_add, rest, Nat.add_comm, List.take_succ_cons]

/-- **What is cut off is a name**, or a star with a qualifier. -/
theorem exists_name {c : Char} (rest : List Char) (start : isNameStart c = true) :
    ∃ name : QName, (name.Proper ∨ name.Starred) ∧
      name.text.toList = (c :: rest).take (qualifiedLength (c :: rest)) := by
  have first := isNCName_take rest start
  have alone : ∃ name : QName, (name.Proper ∨ name.Starred) ∧
      name.text.toList = (c :: rest).take (nameLength (c :: rest)) :=
    ⟨⟨none, _⟩, .inl ⟨fun _ none => absurd none (by simp), first⟩, String.toList_ofList⟩
  unfold qualifiedLength
  dsimp only
  split
  · rename_i after begins
    refine ⟨⟨some _, "*"⟩, .inr ⟨_, first, rfl⟩, ?_⟩
    rw [QName.toList_text_qualified, String.toList_ofList]
    exact (take_add_one_eq begins 1).symm
  · rename_i after _ begins
    split
    · exact alone
    · rename_i some
      cases after with
      | nil => exact absurd rfl some
      | cons d after =>
        have second := isNCName_take after
          (isNameStart_of_nameLength fun zero => some (by rw [zero]; rfl))
        have proper : QName.Proper
            ⟨Option.some _, String.ofList ((d :: after).take (nameLength (d :: after)))⟩ :=
          ⟨fun _ same => Option.some.inj same ▸ first, second⟩
        refine ⟨_, .inl proper, ?_⟩
        rw [QName.toList_text_qualified, String.toList_ofList, String.toList_ofList]
        exact (take_add_one_eq begins _).symm
  · exact alone

end Token

end XPathAnnotator
