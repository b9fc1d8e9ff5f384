/-
**References in templates.**

A template is gone through from its start. What begins where the expansion stands is a reference or a single character:
`reference` tells, after the rules of ECMAScript, how many characters it takes up and what they stand for. The expansion
of the library is told by `expandIn`. The two give the same text as long as every reference that is met is a plain one:
its digits are ASCII digits if they make up the number of a group, and its name is one of the names of the expression,
or, where the expression has no names, there is no dollar sign in it.

* `reference`, `substitute` — the rules, one reference after the other;
* `Plain` — the references that are read the same way by both;
* `expandIn_eq_substitute` — **the expansion** of a template all of whose references are plain;
* `expand_references` — **what a template stands for**, with what becomes of references that are not plain;
* `expand_ne_substitute` — templates with such references.
-/

import Mathlib
import XPathAnnotator.Pattern.Parser
import XPathAnnotator.Pattern.Template
import XPathAnnotator.Proofs.Text.Words

namespace XPathAnnotator.NamedMatch

/-! ### The rules -/

/-- The text that a group has matched, none if it took no part in the match. -/
def capture? (m : NamedMatch) (number : Nat) : Option (List Char) :=
  match m.found.captures[number]? with
  | some (some (start, finish)) => some (partBetween m.found.text start finish)
  | _ => none

/-- The number that ASCII digits are written for. -/
def indexOf (digits : List Char) : Nat := digits.foldl (fun number d => 10 * number + (d.toNat - '0'.toNat)) 0

/-- The digits of a reference, where one digit and some characters follow a dollar sign: two if they are the number of a
group, or zero, and one otherwise. -/
def digitsFrom (m : NamedMatch) (d : Char) (after : List Char) : List Char :=
  match after with
  | e :: _ => if e.isDigit = true ∧ indexOf [d, e] ≤ m.groups then [d, e] else [d]
  | [] => [d]

/-- What a dollar sign and digits stand for, with the number of the digits: a group, or themselves if there is no group
of the number. -/
def ofDigits (m : NamedMatch) (digits : List Char) : Nat × List Char :=
  (digits.length,
    if 1 ≤ indexOf digits ∧ indexOf digits ≤ m.groups then (m.capture? (indexOf digits)).getD []
    else '$' :: digits)

/-- What a dollar sign and some of the characters after it stand for, with the number of these characters. -/
def ofDollar (m : NamedMatch) (rest : List Char) : Nat × List Char :=
  match rest with
  | '$' :: _ => (1, ['$'])
  | '&' :: _ => (1, m.found.whole.toList)
  | '`' :: _ => (1, m.found.before.toList)
  | '\'' :: _ => (1, m.found.after.toList)
  | '<' :: after =>
    let name := after.takeWhile (· != '>')
    if m.names = [] ∨ '>' ∉ after then (1, ['$', '<'])
    else (name.length + 2, ((m.names.lookup (String.ofList name)).bind m.capture?).getD [])
  | d :: after => if d.isDigit then m.ofDigits (m.digitsFrom d after) else (0, ['$'])
  | [] => (0, ['$'])

/-- What stands at the start of what is left of a template, a reference or a character, stands for: with the number of
its characters after the first one. -/
def reference (m : NamedMatch) (rest : List Char) : Nat × List Char :=
  match rest with
  | '$' :: after => m.ofDollar after
  | c :: _ => (0, [c])
  | [] => (0, [])

/-- What is left of a template each time that a reference or a character is to be read. -/
def remainders (m : NamedMatch) : List Char → List (List Char)
  | [] => []
  | c :: cs => (c :: cs) :: m.remainders (cs.drop (m.reference (c :: cs)).1)
termination_by cs => cs.length
decreasing_by simp only [List.length_cons, List.length_drop]; omega

/-- A template with its references replaced. -/
def substitute (m : NamedMatch) (template : List Char) : List Char :=
  (m.remainders template).flatMap fun rest => (m.reference rest).2

/-! ### Plain references -/

/-- Whether a group is referred to by ASCII digits only, where one or two characters follow a dollar sign. -/
def PlainDigits (m : NamedMatch) (d : Char) (after : List Char) : Prop :=
  (Text.isDigit d = true → m.hasGroup (Text.digitValue d) = true → d.isDigit = true) ∧
    match after with
    | [] => True
    | e :: _ => Text.isDigit d = true → Text.isDigit e = true →
      m.hasGroup (Text.digitValue d * 10 + Text.digitValue e) = true → d.isDigit = true ∧ e.isDigit = true

/-- Whether a name in angle brackets is one of an expression; in an expression without names, whether it has no dollar
sign. -/
def PlainName (m : NamedMatch) (after : List Char) : Prop :=
  '>' ∈ after →
    if m.names = [] then '$' ∉ after.takeWhile (· != '>')
    else (m.names.lookup (String.ofList (after.takeWhile (· != '>')))).isSome = true

/-- Whether what is left of a template begins with a plain reference, or with none. -/
def Plain (m : NamedMatch) : List Char → Prop
  | c :: d :: after => c = '$' → if d = '<' then m.PlainName after else m.PlainDigits d after
  | _ => True

instance (m : NamedMatch) (d : Char) : (after : List Char) → Decidable (m.PlainDigits d after)
  | [] => inferInstanceAs (Decidable (_ ∧ True))
  | _ :: _ => inferInstanceAs (Decidable (_ ∧ (_ → _ → _ → _ ∧ _)))

instance (m : NamedMatch) (after : List Char) : Decidable (m.PlainName after) :=
  inferInstanceAs (Decidable (_ → _))

instance (m : NamedMatch) : (rest : List Char) → Decidable (m.Plain rest)
  | [] | [_] => inferInstanceAs (Decidable True)
  | _ :: _ :: _ => inferInstanceAs (Decidable (_ → _))

/-- Whether all references that are met in a template are plain. -/
def AllPlain (m : NamedMatch) (template : List Char) : Prop := ∀ rest ∈ m.remainders template, m.Plain rest

/-! ### One reference after the other -/

/-- **A step of the expansion**: the start of a template stands for a text, and it leaves a rest, whose references are
plain if those of the template are. -/
structure Reads (m : NamedMatch) (template text rest : List Char) : Prop where
  substitute_eq : m.substitute template = text ++ m.substitute rest
  allPlain : m.AllPlain template → m.AllPlain rest

instance (m : NamedMatch) (template : List Char) : Decidable (m.AllPlain template) :=
  inferInstanceAs (Decidable (∀ rest ∈ m.remainders template, m.Plain rest))

section Steps

variable {m : NamedMatch} {c d e : Char} {cs after text rest : List Char}

theorem Reads.of_reference {count : Nat} (here : m.reference (c :: cs) = (count, text)) :
    m.Reads (c :: cs) text (cs.drop count) where
  substitute_eq := by
    rw [substitute, remainders, List.flatMap_cons, here]
    rfl
  allPlain all rest met := all rest (by
    rw [remainders, here]
    exact List.mem_cons_of_mem _ met)

theorem Reads.of_dollar {count : Nat} (here : m.ofDollar cs = (count, text)) :
    m.Reads ('$' :: cs) text (cs.drop count) := .of_reference here

theorem reference_plain (plain : c ≠ '$') : m.reference (c :: cs) = (0, [c]) := by
  unfold reference
  split
  next same => exact absurd (List.cons.inj same).1 plain
  next same => rw [(List.cons.inj same).1]
  next same => cases same

theorem Reads.plain (plain : c ≠ '$') : m.Reads (c :: cs) [c] cs := .of_reference (reference_plain plain)

/-- A character that is read by itself may be put back. -/
theorem Reads.back (reads : m.Reads cs (text ++ [c]) after) (plain : c ≠ '$') : m.Reads cs text (c :: after) where
  substitute_eq := by
    rw [reads.substitute_eq, (Reads.plain plain).substitute_eq, List.append_assoc]
  allPlain all rest met := by
    rw [remainders, reference_plain plain] at met
    rcases List.mem_cons.mp met with rfl | met
    · cases after with
      | nil => trivial
      | cons d after => exact fun same => absurd same plain
    · exact reads.allPlain all rest met

theorem Reads.trans {more last : List Char} (first : m.Reads cs text rest) (then_ : m.Reads rest more last) :
    m.Reads cs (text ++ more) last where
  substitute_eq := by rw [first.substitute_eq, then_.substitute_eq, List.append_assoc]
  allPlain all := then_.allPlain (first.allPlain all)

theorem Reads.row {row : List Char} (plain : '$' ∉ row) : m.Reads (row ++ rest) row rest := by
  induction row with
  | nil => exact ⟨rfl, id⟩
  | cons c row ih =>
    obtain ⟨here, later⟩ := not_or.mp (mt List.mem_cons.mpr plain)
    exact (Reads.plain (Ne.symm here)).trans (ih later)

theorem Reads.expandIn_eq (reads : m.Reads cs text rest) (all : m.AllPlain cs)
    (ih : m.AllPlain rest → m.expandIn rest = m.substitute rest) : text ++ m.expandIn rest = m.substitute cs := by
  rw [ih (reads.allPlain all), reads.substitute_eq]

theorem AllPlain.head (all : m.AllPlain ('$' :: d :: after)) :
    if d = '<' then m.PlainName after else m.PlainDigits d after :=
  all ('$' :: d :: after) (by rw [remainders]; exact List.mem_cons_self) rfl

/-! ### Digits -/

/-- The characters that a dollar sign makes a mark with. -/
def IsMark (c : Char) : Prop := c = '$' ∨ c = '&' ∨ c = '`' ∨ c = '\'' ∨ c = '<'

theorem ofDollar_of_not_mark (noMark : ¬ IsMark d) :
    m.ofDollar (d :: after) = if d.isDigit = true then m.ofDigits (m.digitsFrom d after) else (0, ['$']) := by
  unfold IsMark at noMark
  push Not at noMark
  unfold ofDollar
  split
  all_goals
    next same => simp_all

theorem isDigit_of_ascii (ascii : d.isDigit = true) :
    Text.isDigit d = true ∧ Text.digitValue d = d.toNat - '0'.toNat := by
  have small : d.toNat < 128 := by
    have range : 48 ≤ d.val ∧ d.val ≤ 57 := by simpa [Char.isDigit] using ascii
    have upper := UInt32.le_iff_toNat_le.mp range.2
    exact lt_of_le_of_lt upper (by decide)
  rw [Text.isDigit, Text.digitValue, if_pos small, if_pos small, if_pos ascii]
  exact ⟨ascii, rfl⟩

theorem not_isMark (noDollar : d ≠ '$') (noAnd : d ≠ '&') (noBack : d ≠ '`') (noQuote : d ≠ '\'') (noName : d ≠ '<') :
    ¬ IsMark d := by
  rintro (same | same | same | same | same)
  exacts [noDollar same, noAnd same, noBack same, noQuote same, noName same]

theorem not_isMark_of_isDigit (digit : Text.isDigit d = true) : ¬ IsMark d := by
  rintro (rfl | rfl | rfl | rfl | rfl) <;> exact absurd digit (by decide)

theorem ne_dollar_of_isDigit (digit : Text.isDigit d = true) : d ≠ '$' :=
  fun same => not_isMark_of_isDigit digit (.inl same)

theorem indexOf_one (ascii : d.isDigit = true) : indexOf [d] = Text.digitValue d := by
  rw [(isDigit_of_ascii ascii).2]
  simp [indexOf]

theorem indexOf_two (first : d.isDigit = true) (second : e.isDigit = true) :
    indexOf [d, e] = Text.digitValue d * 10 + Text.digitValue e := by
  rw [(isDigit_of_ascii first).2, (isDigit_of_ascii second).2]
  simp [indexOf, Nat.mul_comm]

theorem numbered_eq (m : NamedMatch) (number : Nat) : m.numbered number = (m.capture? number).getD [] := by
  unfold numbered Match.group capture?
  rcases m.found.captures[number]? with _ | _ | ⟨start, finish⟩
  · rfl
  · rfl
  · exact String.toList_ofList

theorem hasGroup_iff {number : Nat} : m.hasGroup number = true ↔ 1 ≤ number ∧ number ≤ m.groups := by
  simp [hasGroup, Nat.succ_le_iff]

theorem ofDigits_eq {digits : List Char} {number : Nat} (written : indexOf digits = number) :
    m.ofDigits digits = (digits.length, if m.hasGroup number = true then m.numbered number else '$' :: digits) := by
  simp only [ofDigits, written, hasGroup_iff, numbered_eq]

theorem twoDigits_of_not_both
    (noBoth : ¬ m.hasGroup (Text.digitValue d * 10 + Text.digitValue e) = true) :
    m.twoDigits d e = m.oneDigit d ++ [e] := by
  simp only [twoDigits, if_neg noBoth, oneDigit]
  split <;> rfl

/-- Two digits that make up the number of a group. -/
theorem Reads.twoDigits (plain : m.PlainDigits d (e :: after)) (first : Text.isDigit d = true)
    (second : Text.isDigit e = true) (both : m.hasGroup (Text.digitValue d * 10 + Text.digitValue e) = true) :
    m.Reads ('$' :: d :: e :: after) (m.twoDigits d e) after := by
  obtain ⟨asciiFirst, asciiSecond⟩ := plain.2 first second both
  have number := indexOf_two asciiFirst asciiSecond
  have digits : m.digitsFrom d (e :: after) = [d, e] :=
    if_pos ⟨asciiSecond, number ▸ (hasGroup_iff.mp both).2⟩
  have here : m.ofDollar (d :: e :: after) = (2, m.twoDigits d e) := by
    rw [ofDollar_of_not_mark (not_isMark_of_isDigit first), if_pos asciiFirst, digits, ofDigits_eq number,
      NamedMatch.twoDigits]
    simp only [if_pos both, List.length_cons, List.length_nil]
  exact .of_dollar here

/-- A digit that makes up no number of a group with the next one. -/
theorem Reads.oneDigit (plain : m.PlainDigits d after) (first : Text.isDigit d = true)
    (noBoth : ∀ e ∈ after.head?, Text.isDigit e = true →
      ¬ m.hasGroup (Text.digitValue d * 10 + Text.digitValue e) = true) :
    m.Reads ('$' :: d :: after) (m.oneDigit d) after := by
  have dollar : m.ofDollar (d :: after) = if d.isDigit = true then m.ofDigits (m.digitsFrom d after) else (0, ['$']) :=
    ofDollar_of_not_mark (not_isMark_of_isDigit first)
  by_cases ascii : d.isDigit = true
  · rw [if_pos ascii] at dollar
    have single (digits : m.digitsFrom d after = [d]) : m.Reads ('$' :: d :: after) (m.oneDigit d) after := by
      rw [digits, ofDigits_eq (indexOf_one ascii)] at dollar
      exact .of_dollar dollar
    cases after with
    | nil => exact single rfl
    | cons e after =>
      by_cases two : e.isDigit = true ∧ indexOf [d, e] ≤ m.groups
      · -- Two digits that do not exceed the number of groups and are no group are two zeros.
        have digits : m.digitsFrom d (e :: after) = [d, e] := if_pos two
        have number := indexOf_two ascii two.1
        have second := (isDigit_of_ascii two.1).1
        have no := noBoth e rfl second
        have zero : Text.digitValue d = 0 := by
          rw [hasGroup_iff, ← number] at no
          omega
        have noGroup : ¬ m.hasGroup (Text.digitValue d) = true := by
          rw [hasGroup_iff, zero]
          omega
        rw [digits, ofDigits_eq number, if_neg no] at dollar
        rw [NamedMatch.oneDigit, if_neg noGroup]
        exact Reads.back (.of_dollar dollar) (ne_dollar_of_isDigit second)
      · exact single (if_neg two)
  · have noGroup : ¬ m.hasGroup (Text.digitValue d) = true := fun group => ascii (plain.1 first group)
    rw [if_neg ascii] at dollar
    rw [NamedMatch.oneDigit, if_neg noGroup]
    exact (Reads.of_dollar dollar).trans (.plain (ne_dollar_of_isDigit first))

theorem AllPlain.digits (all : m.AllPlain ('$' :: d :: after)) (noName : d ≠ '<') : m.PlainDigits d after := by
  simpa [noName] using all.head

/-- A dollar sign that begins nothing. -/
theorem Reads.alone (noMark : ¬ IsMark d) (noDigit : ¬ Text.isDigit d = true) :
    m.Reads ('$' :: d :: after) ['$'] (d :: after) := by
  have dollar : m.ofDollar (d :: after) = (0, ['$']) := by
    rw [ofDollar_of_not_mark noMark, if_neg fun ascii => noDigit (isDigit_of_ascii ascii).1]
  exact .of_dollar dollar

/-! ### Names -/

theorem takeWhile_append_closing {name : List Char} (absent : '>' ∉ name) :
    (name ++ '>' :: rest).takeWhile (· != '>') = name :=
  Text.takeWhile_append_apart (fun c member => bne_iff_ne.mpr fun same => absent (same ▸ member)) (by simp)

theorem drop_closing (name rest : List Char) : (name ++ '>' :: rest).drop (name.length + 1) = rest := by
  rw [← List.drop_drop, List.drop_left]
  rfl

theorem length_takeWhile_lt_iff : (cs.takeWhile (· != '>')).length < cs.length ↔ '>' ∈ cs := by
  constructor
  · intro shorter
    by_contra absent
    have all : cs.takeWhile (· != '>') = cs :=
      List.takeWhile_eq_self_iff.mpr fun c member => bne_iff_ne.mpr fun same => absent (same ▸ member)
    rw [all] at shorter
    exact lt_irrefl _ shorter
  · intro closed
    obtain ⟨name, rest, rfl, absent⟩ := List.eq_append_cons_of_mem closed
    rw [takeWhile_append_closing absent]
    simp

theorem named_of_none {name : List Char} (unknown : m.names.lookup (String.ofList name) = none) :
    m.named name = '$' :: '<' :: name ++ ['>'] := by
  rw [named, unknown]

/-- A name in angle brackets. -/
theorem Reads.named (plain : m.PlainName after) (closed : '>' ∈ after) :
    m.Reads ('$' :: '<' :: after) (m.named (after.takeWhile (· != '>')))
      (after.drop ((after.takeWhile (· != '>')).length + 1)) := by
  have known := plain closed
  have dollar : m.ofDollar ('<' :: after) = if m.names = [] ∨ '>' ∉ after then (1, ['$', '<'])
      else ((after.takeWhile (· != '>')).length + 2,
        ((m.names.lookup (String.ofList (after.takeWhile (· != '>')))).bind m.capture?).getD []) := rfl
  obtain ⟨name, rest, rfl, absent⟩ := List.eq_append_cons_of_mem closed
  rw [takeWhile_append_closing absent] at known dollar ⊢
  by_cases unnamed : m.names = []
  · rw [if_pos unnamed] at known
    rw [if_pos (.inl unnamed)] at dollar
    have row : m.Reads (name ++ ['>'] ++ rest) (name ++ ['>']) rest := .row (by simpa using known)
    rw [List.append_assoc, List.singleton_append] at row
    rw [drop_closing, named_of_none (by rw [unnamed]; rfl)]
    exact (Reads.of_dollar dollar).trans row
  · rw [if_neg unnamed] at known
    obtain ⟨number, found⟩ := Option.isSome_iff_exists.mp known
    rw [if_neg (not_or.mpr ⟨unnamed, not_not.mpr closed⟩), found, Option.bind_some, ← numbered_eq] at dollar
    have here : m.named name = m.numbered number := by rw [NamedMatch.named, found]
    rw [here, drop_closing]
    have reads := Reads.of_dollar dollar
    rwa [List.drop_succ_cons, drop_closing] at reads

end Steps

/-! ### The expansion -/

/-- **The expansion** of a template all of whose references are plain goes by the rules. -/
theorem expandIn_eq_substitute (m : NamedMatch) {template : List Char} (plain : m.AllPlain template) :
    m.expandIn template = m.substitute template := by
  fun_induction expandIn m template with
  | case1 => rw [substitute, remainders, List.flatMap_nil]
  | case2 after ih => exact Reads.expandIn_eq (.of_dollar rfl) plain ih
  | case3 after ih => exact Reads.expandIn_eq (.of_dollar rfl) plain ih
  | case4 after ih => exact Reads.expandIn_eq (.of_dollar rfl) plain ih
  | case5 after ih => exact Reads.expandIn_eq (.of_dollar rfl) plain ih
  | case6 after name closed ih =>
    exact Reads.expandIn_eq (.named plain.head (length_takeWhile_lt_iff.mp closed)) plain ih
  | case7 after name open_ ih =>
    have dollar : m.ofDollar ('<' :: after) = (1, ['$', '<']) :=
      if_pos (.inr fun closed => open_ (length_takeWhile_lt_iff.mpr closed))
    have sign : m.Reads ('$' :: '<' :: after) ['$'] ('<' :: after) := .back (.of_dollar dollar) (by decide)
    exact Reads.expandIn_eq sign plain ih
  | case8 d e after _ _ _ _ noName first second ih =>
    have digits := plain.digits noName
    by_cases both : m.hasGroup (Text.digitValue d * 10 + Text.digitValue e) = true
    · exact Reads.expandIn_eq (.twoDigits digits first second both) plain ih
    · have one : m.Reads ('$' :: d :: e :: after) (m.oneDigit d) (e :: after) :=
        .oneDigit digits first fun other same _ => by
          obtain rfl := Option.some.inj same
          exact both
      rw [twoDigits_of_not_both both]
      exact Reads.expandIn_eq (one.trans (.plain (ne_dollar_of_isDigit second))) plain ih
  | case9 d e after _ _ _ _ noName first noDigit ih =>
    have one : m.Reads ('$' :: d :: e :: after) (m.oneDigit d) (e :: after) :=
      .oneDigit (plain.digits noName) first fun other same digit => by
        obtain rfl := Option.some.inj same
        exact absurd digit noDigit
    exact Reads.expandIn_eq one plain ih
  | case10 d e after noDollar noAnd noBack noQuote noName noDigit ih =>
    have noMark := not_isMark noDollar noAnd noBack noQuote noName
    have sign : m.Reads ('$' :: d :: e :: after) ['$'] (d :: e :: after) := .alone noMark noDigit
    exact Reads.expandIn_eq sign plain ih
  | case11 d _ _ _ _ noName digit =>
    have one : m.Reads ['$', d] (m.oneDigit d) [] :=
      .oneDigit (plain.digits noName) digit fun other same => absurd same (by simp)
    rw [one.substitute_eq, substitute, remainders, List.flatMap_nil, List.append_nil]
  | case12 d noDollar noAnd noBack noQuote noName noDigit ih =>
    have noMark := not_isMark noDollar noAnd noBack noQuote noName
    have sign : m.Reads ['$', d] ['$'] [d] := .alone noMark noDigit
    exact Reads.expandIn_eq sign plain ih
  | case13 =>
    have alone : m.Reads ['$'] ['$'] [] := .of_dollar rfl
    rw [alone.substitute_eq, substitute, remainders, List.flatMap_nil, List.append_nil]
  | case14 c rest noDollar ih => exact Reads.expandIn_eq (.plain noDollar) plain ih

/-- A name in angle brackets that is none of the names of an expression stays as it is. -/
theorem expandIn_unknown (m : NamedMatch) {name : List Char} (after : List Char) (absent : '>' ∉ name)
    (unknown : m.names.lookup (String.ofList name) = none) :
    m.expandIn ('$' :: '<' :: (name ++ '>' :: after)) = '$' :: '<' :: (name ++ '>' :: m.expandIn after) := by
  rw [expandIn, takeWhile_append_closing absent, if_pos (by simp), drop_closing, named_of_none unknown]
  simp

/-- A digit of any script refers to the group of its value. -/
theorem expandIn_digit (m : NamedMatch) {d : Char} {after : List Char} (digit : Text.isDigit d = true)
    (single : ∀ e ∈ after.head?, ¬ Text.isDigit e = true) :
    m.expandIn ('$' :: d :: after) = m.oneDigit d ++ m.expandIn after := by
  have noMark := not_isMark_of_isDigit digit
  unfold IsMark at noMark
  push Not at noMark
  obtain ⟨noDollar, noAnd, noBack, noQuote, noName⟩ := noMark
  cases after with
  | nil =>
    rw [expandIn]
    simp_all [expandIn]
  | cons e after => rw [expandIn] <;> simp_all

/-- **What a template stands for.** If all references that are met in it are plain, they are replaced by the rules of
ECMAScript. A name that the expression does not have stays as it is with its brackets, in an expression with other names
and in one without any, and a digit of any script refers to the group of its value. -/
theorem expand_references (m : NamedMatch) (template : String) :
    (m.AllPlain template.toList → m.expand template = String.ofList (m.substitute template.toList)) ∧
      (∀ name after, '>' ∉ name → m.names.lookup (String.ofList name) = none →
        m.expandIn ('$' :: '<' :: (name ++ '>' :: after)) = '$' :: '<' :: (name ++ '>' :: m.expandIn after)) ∧
      (∀ d after, Text.isDigit d = true → (∀ e ∈ after.head?, ¬ Text.isDigit e = true) →
        m.expandIn ('$' :: d :: after) = m.oneDigit d ++ m.expandIn after) :=
  ⟨fun plain => by rw [expand, m.expandIn_eq_substitute plain],
    fun _ after absent unknown => m.expandIn_unknown after absent unknown,
    fun _ _ digit single => m.expandIn_digit digit single⟩

/-- The first match of an expression in a text. -/
def first? (pattern text : String) : Option NamedMatch := do
  let compiled ← (Pattern.compile pattern).toOption
  let found ← compiled.pattern.search compiled.groups text
  return ⟨found, compiled.groups, compiled.names⟩

/-- What becomes of a template for the first match, and what it stands for by the rules. -/
def expansions (pattern text template : String) : Option (String × String) :=
  (first? pattern text).map fun m => (m.expand template, String.ofList (m.substitute template.toList))

/-- A day that is turned round. -/
theorem expand_references_day :
    ∃ m, first? "(?<year>[0-9]+)-([0-9]+)(-day)?" "on 2024-11." = some m ∧
      m.AllPlain "$02/$<year>$3 [$&$$10$10$9$<]".toList ∧
      m.expand "$02/$<year>$3 [$&$$10$10$9$<]" =
        String.ofList (m.substitute "$02/$<year>$3 [$&$$10$10$9$<]".toList) ∧
      m.expand "$02/$<year>$3 [$&$$10$10$9$<]" = "11/2024 [2024-11$1020240$9$<]" := by
  have checked : ((first? "(?<year>[0-9]+)-([0-9]+)(-day)?" "on 2024-11.").map fun m =>
      (decide (m.AllPlain "$02/$<year>$3 [$&$$10$10$9$<]".toList), m.expand "$02/$<year>$3 [$&$$10$10$9$<]")) =
      some (true, "11/2024 [2024-11$1020240$9$<]") := by decide +kernel
  obtain ⟨m, found, both⟩ := Option.map_eq_some_iff.mp checked
  obtain ⟨plain, expanded⟩ := Prod.mk.inj both
  exact ⟨m, found, of_decide_eq_true plain, (expand_references m _).1 (of_decide_eq_true plain), expanded⟩

/-- **References that are not plain**: a name that the expression does not have, among others; one in angle brackets
where there are no names, with a reference in it; and a digit that is no ASCII digit. -/
theorem expand_ne_substitute :
    expansions "(?<x>b)" "abc" "[$<y>]" = some ("[$<y>]", "[]") ∧
      expansions "b" "abc" "$<$&>" = some ("$<$&>", "$<b>") ∧
      expansions "(b)" "abc" "$١" = some ("b", "$١") := by
  decide +kernel

end XPathAnnotator.NamedMatch
