/-
**The pieces that documents are read in.**

A reader takes a piece off the front of a row of characters and gives what it means and the rest. Here is which
characters the piece consists of, for names, quoted values, the attributes of a start tag, texts, and comments and
processing instructions. No piece goes on where markup begins, and a mark ends a piece where it first occurs.

* `IsSimpleName`, `IsName`, `SpellsAttributes`, `SpellsRemark` — the characters of pieces, with what they mean;
* `EndsAtFirst` — a mark does not occur before the end;
* `append_of_readName?`, `spells_of_readAttributes?`, `append_of_readText?`, `spells_of_readComment?`,
  `spells_of_readInstruction?` — **what is read is such a piece**, before the rest.
-/

import Mathlib
import XPathAnnotator.Xml.Reader

namespace XPathAnnotator.Xml

open XPathAnnotator.Name XPathAnnotator.Text

variable {cs rest : List Char}

/-! ### Marks -/

/-- A mark after a row of characters is the first one there. -/
def EndsAtFirst (mark before : List Char) : Prop :=
  ∀ front back, before ++ mark = front ++ mark ++ back → back = []

/-- **What comes before a mark** goes up to its first occurrence. -/
theorem append_of_readUntil? {mark before : List Char} (read : readUntil? mark cs = some (before, rest)) :
    cs = before ++ mark ++ rest ∧ EndsAtFirst mark before := by
  induction cs generalizing before with
  | nil => cases read
  | cons c cs ih =>
    unfold readUntil? at read
    split at read
    · rename_i here
      obtain ⟨rfl, rfl⟩ := Prod.mk.inj (Option.some.inj read)
      obtain ⟨after, same⟩ := List.isPrefixOf_iff_prefix.mp here
      refine ⟨?_, fun front back again => ?_⟩
      · rw [← same, List.drop_left, List.nil_append]
      · have lengths := congrArg List.length again
        simp only [List.length_append, List.length_nil] at lengths
        exact List.eq_nil_of_length_eq_zero (by omega)
    · rename_i notHere
      rw [List.isPrefixOf_iff_prefix] at notHere
      obtain ⟨⟨later, _⟩, further, same⟩ := Option.map_eq_some_iff.mp read
      obtain ⟨rfl, rfl⟩ := Prod.mk.inj same
      obtain ⟨whole, first⟩ := ih further
      refine ⟨by rw [whole]; rfl, fun front back again => ?_⟩
      cases front with
      | nil =>
        refine absurd ?_ notHere
        have starts : mark <+: c :: later ++ mark := ⟨back, again.symm⟩
        rw [whole, ← List.cons_append, ← List.cons_append]
        exact starts.trans (List.prefix_append _ _)
      | cons d front => exact first front back (List.cons.inj again).2

/-! ### Names -/

/-- A name without colon. -/
def IsSimpleName (text : String) : Prop :=
  ∃ c others, text.toList = c :: others ∧ isNameStart c = true ∧ ∀ d ∈ others, isNameChar d = true

/-- A name of one or two parts that are names without colon. -/
structure IsName (name : QName) : Prop where
  qualifier : ∀ qualifier, name.qualifier = some qualifier → IsSimpleName qualifier
  localPart : IsSimpleName name.localPart

theorem IsSimpleName.ne_empty {text : String} (isName : IsSimpleName text) : text ≠ "" := by
  obtain ⟨c, others, written, -⟩ := isName
  rintro rfl
  exact absurd written (by simp)

theorem append_of_readSimpleName? {name : String} (read : readSimpleName? cs = some (name, rest)) :
    cs = name.toList ++ rest ∧ IsSimpleName name := by
  cases cs with
  | nil => cases read
  | cons c cs =>
    rw [readSimpleName?] at read
    split at read
    · rename_i start
      obtain ⟨rfl, rfl⟩ := Prod.mk.inj (Option.some.inj read)
      refine ⟨?_, c, _, String.toList_ofList, start, fun d => List.mem_takeWhile_imp⟩
      rw [String.toList_ofList, List.cons_append, List.takeWhile_append_dropWhile]
    · cases read

/-- **A name is read as it is written.** -/
theorem append_of_readName? {name : QName} (read : readName? cs = some (name, rest)) :
    cs = name.text.toList ++ rest ∧ IsName name := by
  unfold readName? at read
  split at read
  · cases read
  · rename_i first after first_
    obtain ⟨rfl, isFirst⟩ := append_of_readSimpleName? first_
    split at read
    · rename_i second further second_
      obtain ⟨rfl, isSecond⟩ := append_of_readSimpleName? second_
      split at read
      · cases read
      · obtain ⟨rfl, rfl⟩ := Prod.mk.inj (Option.some.inj read)
        refine ⟨?_, fun _ same => Option.some.inj same ▸ isFirst, isSecond⟩
        simp [QName.text]
    · cases read
  · rename_i first after _ first_
    obtain ⟨rfl, rfl⟩ := Prod.mk.inj (Option.some.inj read)
    obtain ⟨rfl, isFirst⟩ := append_of_readSimpleName? first_
    exact ⟨rfl, by simp, isFirst⟩

/-! ### Blanks -/

theorem append_of_skipBlanks (cs : List Char) : ∃ gap, (∀ c ∈ gap, isBlank c = true) ∧ cs = gap ++ skipBlanks cs :=
  ⟨cs.takeWhile isBlank, fun _ => List.mem_takeWhile_imp, List.takeWhile_append_dropWhile.symm⟩

theorem append_of_needBlanks? (read : needBlanks? cs = some rest) :
    ∃ gap, (∀ c ∈ gap, isBlank c = true) ∧ gap ≠ [] ∧ cs = gap ++ rest := by
  cases cs with
  | nil => cases read
  | cons c cs =>
    rw [needBlanks?] at read
    split at read
    · rename_i blank
      obtain rfl := Option.some.inj read
      obtain ⟨gap, blanks, same⟩ := append_of_skipBlanks cs
      exact ⟨c :: gap, List.forall_mem_cons.mpr ⟨blank, blanks⟩, List.cons_ne_nil _ _, congrArg (c :: ·) same⟩
    · cases read

/-! ### References, texts and values -/

/-- What ends a text or a quoted value. -/
def stops : List Char := ['<', '"', '\'']

theorem not_mem_of_class {ofClass : Char → Bool} (front : List Char) {digits : List Char}
    (apart : stops.all (!ofClass ·) = true) (plain : stops.all (!front.contains ·) = true)
    (all : digits.all ofClass = true) : ∀ stop ∈ stops, stop ∉ front ++ digits ++ [';'] := by
  intro stop isStop member
  have noSemicolon : stops.all (· != ';') = true := by decide
  rw [List.all_eq_true] at apart plain all noSemicolon
  rcases List.mem_append.mp member with member | member
  · rcases List.mem_append.mp member with inFront | inDigits
    · exact absurd inFront (by simpa using plain stop isStop)
    · exact absurd (all stop inDigits) (by simpa using apart stop isStop)
  · exact absurd (List.mem_singleton.mp member) (by simpa using noSemicolon stop isStop)

/-- Neither markup nor a quote is part of a reference. -/
theorem append_of_readReference? {c : Char} (read : readReference? cs = some (c, rest)) :
    ∃ piece, cs = piece ++ rest ∧ ∀ stop ∈ stops, stop ∉ piece := by
  unfold readReference? at read
  split at read
  · cases read
  rename_i name after until_
  obtain ⟨rfl, -⟩ := append_of_readUntil? until_
  obtain ⟨_, known, same⟩ := Option.map_eq_some_iff.mp read
  obtain ⟨-, rfl⟩ := Prod.mk.inj same
  refine ⟨name ++ [';'], rfl, ?_⟩
  split at known
  · rename_i digits
    split at known
    · cases known
    · rename_i digitsOnly
      simp only [Bool.or_eq_true, not_or, Bool.not_eq_true', Bool.not_eq_false] at digitsOnly
      exact not_mem_of_class ['#', 'x'] (by decide) (by decide) digitsOnly.2
  · rename_i digits _
    split at known
    · cases known
    · rename_i digitsOnly
      simp only [Bool.or_eq_true, not_or, Bool.not_eq_true', Bool.not_eq_false] at digitsOnly
      exact not_mem_of_class ['#'] (by decide) (by decide) digitsOnly.2
  · have listed : name ∈ ["lt", "gt", "amp", "quot", "apos"].map String.toList := by
      rw [← String.toList_ofList (l := name)]
      refine List.mem_map_of_mem ?_
      split at known
      case h_6 => cases known
      all_goals rename_i same; rw [same]; decide
    have letters : (["lt", "gt", "amp", "quot", "apos"].map String.toList).all (·.all Char.isAlpha) = true := by decide
    exact not_mem_of_class [] (by decide) rfl (List.all_eq_true.mp letters name listed)

/-- **A text goes up to the next markup.** -/
theorem append_of_readText? {read : List Char} {fuel : Nat} {text : String}
    (done : readText? read fuel cs = some (text, rest)) : ∃ piece, cs = piece ++ rest ∧ '<' ∉ piece := by
  induction fuel generalizing read cs with
  | zero => cases done
  | succ fuel ih =>
    unfold readText? at done
    split at done
    · obtain ⟨-, rfl⟩ := Prod.mk.inj (Option.some.inj done)
      exact ⟨[], rfl, List.not_mem_nil⟩
    · obtain ⟨-, rfl⟩ := Prod.mk.inj (Option.some.inj done)
      exact ⟨[], rfl, List.not_mem_nil⟩
    · split at done
      · cases done
      · rename_i c after reference
        obtain ⟨name, rfl, noStop⟩ := append_of_readReference? reference
        obtain ⟨piece, rfl, noMarkup⟩ := ih done
        refine ⟨'&' :: (name ++ piece), by simp, ?_⟩
        simp [noMarkup, noStop '<' (by decide)]
    · cases done
    · rename_i c after noMarkup _ _
      obtain ⟨piece, rfl, further⟩ := ih done
      refine ⟨c :: piece, rfl, ?_⟩
      rw [List.mem_cons, not_or]
      exact ⟨fun same => noMarkup same.symm, further⟩

theorem append_of_readValue? {quote : Char} (isQuote : quote ∈ ['"', '\'']) {read : List Char} {fuel : Nat}
    {value : String} (done : readValue? quote read fuel cs = some (value, rest)) :
    ∃ piece, cs = piece ++ quote :: rest ∧ quote ∉ piece := by
  induction fuel generalizing read cs with
  | zero => cases done
  | succ fuel ih =>
    unfold readValue? at done
    split at done
    · cases done
    · cases done
    · split at done
      · cases done
      · rename_i c after reference
        obtain ⟨name, rfl, noStop⟩ := append_of_readReference? reference
        obtain ⟨piece, rfl, noQuote⟩ := ih done
        refine ⟨'&' :: (name ++ piece), by simp, ?_⟩
        have other : quote ≠ '&' := fun same => absurd (same ▸ isQuote) (by decide)
        simp [noQuote, other, noStop quote (List.mem_cons_of_mem _ isQuote)]
    · split at done
      · rename_i c after _ _ same
        obtain ⟨-, rfl⟩ := Prod.mk.inj (Option.some.inj done)
        exact ⟨[], by rw [beq_iff_eq.mp same]; rfl, List.not_mem_nil⟩
      · rename_i c after _ _ other
        obtain ⟨piece, rfl, noQuote⟩ := ih done
        refine ⟨c :: piece, rfl, ?_⟩
        rw [List.mem_cons, not_or]
        exact ⟨fun same => other (by simp [same]), noQuote⟩

/-- **A quoted value goes up to the next quote of its kind.** -/
theorem append_of_readQuoted? {value : String} (read : readQuoted? cs = some (value, rest)) :
    ∃ quote piece, quote ∈ ['"', '\''] ∧ quote ∉ piece ∧ cs = quote :: (piece ++ quote :: rest) := by
  unfold readQuoted? at read
  split at read
  · obtain ⟨piece, rfl, noQuote⟩ := append_of_readValue? (by decide) read
    exact ⟨_, piece, by decide, noQuote, rfl⟩
  · obtain ⟨piece, rfl, noQuote⟩ := append_of_readValue? (by decide) read
    exact ⟨_, piece, by decide, noQuote, rfl⟩
  · cases read

/-! ### Attributes -/

/-- The characters of the attributes in a start tag, each after blanks. The value of one is what is read between its
quotes. -/
inductive SpellsAttributes : List Char → List (QName × String) → Prop
  | done {gap : List Char} (blanks : ∀ c ∈ gap, isBlank c = true) : SpellsAttributes gap []
  | more {gap before after piece others further : List Char} {quote : Char} {name : QName} {value : String}
    {attributes : List (QName × String)} (blanks : ∀ c ∈ gap ++ before ++ after, isBlank c = true)
    (apart : gap ≠ []) (isName : IsName name) (isQuote : quote ∈ ['"', '\'']) (noQuote : quote ∉ piece)
    (means : readQuoted? (quote :: (piece ++ quote :: further)) = some (value, further))
    (rest : SpellsAttributes others attributes) :
    SpellsAttributes (gap ++ name.text.toList ++ before ++ '=' :: (after ++ quote :: (piece ++ quote :: others)))
      ((name, value) :: attributes)

/-- **Attributes are read as they are written.** -/
theorem spells_of_readAttributes? {fuel : Nat} {attributes : List (QName × String)}
    (read : readAttributes? fuel cs = some (attributes, rest)) :
    ∃ piece, cs = piece ++ rest ∧ SpellsAttributes piece attributes := by
  induction fuel generalizing cs attributes with
  | zero => cases read
  | succ fuel ih =>
    unfold readAttributes? at read
    split at read
    · obtain ⟨rfl, rfl⟩ := Prod.mk.inj (Option.some.inj read)
      exact ⟨[], rfl, .done (by simp)⟩
    · obtain ⟨rfl, rfl⟩ := Prod.mk.inj (Option.some.inj read)
      exact ⟨[], rfl, .done (by simp)⟩
    split at read
    · cases read
    rename_i after gapRead
    obtain ⟨gap, blanks, apart, rfl⟩ := append_of_needBlanks? gapRead
    split at read
    · obtain ⟨rfl, rfl⟩ := Prod.mk.inj (Option.some.inj read)
      exact ⟨gap, rfl, .done blanks⟩
    · obtain ⟨rfl, rfl⟩ := Prod.mk.inj (Option.some.inj read)
      exact ⟨gap, rfl, .done blanks⟩
    split at read
    · cases read
    rename_i name following nameRead
    obtain ⟨rfl, isName⟩ := append_of_readName? nameRead
    split at read
    · rename_i further equals
      split at read
      · cases read
      · rename_i value others quoted
        obtain ⟨⟨more, _⟩, moreRead, same⟩ := Option.map_eq_some_iff.mp read
        obtain ⟨rfl, rfl⟩ := Prod.mk.inj same
        obtain ⟨before, blanksBefore, sameBefore⟩ := append_of_skipBlanks following
        obtain ⟨after', blanksAfter, sameAfter⟩ := append_of_skipBlanks further
        obtain ⟨quote, piece, isQuote, noQuote, sameQuoted⟩ := append_of_readQuoted? quoted
        obtain ⟨tail, rfl, spells⟩ := ih moreRead
        rw [sameQuoted] at quoted
        have all : ∀ c ∈ gap ++ before ++ after', isBlank c = true := by
          simp only [List.mem_append]
          rintro c ((inGap | inBefore) | inAfter)
          · exact blanks c inGap
          · exact blanksBefore c inBefore
          · exact blanksAfter c inAfter
        refine ⟨_, ?_, .more all apart isName isQuote noQuote quoted spells⟩
        rw [sameBefore, equals, sameAfter, sameQuoted]
        simp
    · cases read

/-! ### Comments and processing instructions -/

/-- The characters of a comment or a processing instruction. Blanks separate the data of an instruction from its
target. -/
inductive SpellsRemark : List Char → Remark → Prop
  | comment {text : List Char} (ends : EndsAtFirst ['-', '-'] text) :
    SpellsRemark ("<!--".toList ++ text ++ "-->".toList) (.comment (String.ofList text))
  | instruction {target : String} {gap data : List Char} (isName : IsSimpleName target)
    (blanks : ∀ c ∈ gap, isBlank c = true) (apart : gap ≠ [] ∨ data = [])
    (starts : ∀ c ∈ data.head?, isBlank c = false) (ends : EndsAtFirst ['?', '>'] data) :
    SpellsRemark ("<?".toList ++ target.toList ++ gap ++ data ++ "?>".toList) (.instruction target (String.ofList data))

theorem spells_of_readComment? {remark : Remark} (read : readComment? cs = some (remark, rest)) :
    ∃ piece, "<!--".toList ++ cs = piece ++ rest ∧ SpellsRemark piece remark := by
  unfold readComment? at read
  split at read
  · rename_i text after until_
    obtain ⟨rfl, rfl⟩ := Prod.mk.inj (Option.some.inj read)
    obtain ⟨rfl, ends⟩ := append_of_readUntil? until_
    exact ⟨_, by simp, .comment ends⟩
  · cases read

theorem spells_of_readInstruction? {remark : Remark} (read : readInstruction? cs = some (remark, rest)) :
    ∃ piece, "<?".toList ++ cs = piece ++ rest ∧ SpellsRemark piece remark := by
  unfold readInstruction? at read
  split at read
  · cases read
  rename_i target following nameRead
  obtain ⟨rfl, isName⟩ := append_of_readSimpleName? nameRead
  split at read
  · cases read
  split at read
  · obtain ⟨rfl, rfl⟩ := Prod.mk.inj (Option.some.inj read)
    have ends : EndsAtFirst ['?', '>'] [] := by
      intro front back again
      have lengths := congrArg List.length again
      simp only [List.length_append, List.length_nil] at lengths
      exact List.eq_nil_of_length_eq_zero (by omega)
    have noGap : ∀ c ∈ ([] : List Char), isBlank c = true := by simp
    exact ⟨_, by simp, .instruction isName noGap (.inr rfl) (by simp) ends⟩
  · rename_i c others _
    split at read
    · rename_i blank
      obtain ⟨⟨data, _⟩, until_, same⟩ := Option.map_eq_some_iff.mp read
      obtain ⟨rfl, rfl⟩ := Prod.mk.inj same
      obtain ⟨whole, ends⟩ := append_of_readUntil? until_
      have split : c :: others = (c :: others).takeWhile isBlank ++ skipBlanks (c :: others) :=
        List.takeWhile_append_dropWhile.symm
      have blanks : ∀ d ∈ (c :: others).takeWhile isBlank, isBlank d = true := fun d => List.mem_takeWhile_imp
      refine ⟨_, ?_, .instruction isName blanks (.inl ?_) ?_ ends⟩
      · rw [List.append_assoc] at whole
        conv_lhs => rw [split, whole]
        simp only [List.append_assoc]
        rfl
      · rw [List.takeWhile_cons, if_pos blank]
        exact List.cons_ne_nil _ _
      · intro d head
        have first : (skipBlanks (c :: others)).head? = some d := by
          rw [whole, List.append_assoc, List.head?_append, head]
          rfl
        have none := List.head?_dropWhile_not isBlank (c :: others)
        rw [skipBlanks] at first
        rw [first] at none
        simpa using none
    · cases read
  · cases read

end XPathAnnotator.Xml
