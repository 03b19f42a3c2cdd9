import CypherGremlin.Text.Basic
import Mathlib.Data.List.Basic

/-!
# Reading what stands in quotes

A literal in single quotes ends at the first quote that is not escaped, and a backslash and the
character behind it stand for one character.  Such a literal has to stand on one line; the form of
the language that may go over several lines is read in the same way.

* `readQuoted? oneLine text` is the text that a literal stands for, and what is left behind it.
* `readQuoted?_quoted` says that a quoted text is read back whole, and that it stands on one line
  unless it has a line break itself: line breaks are written as they are.
-/

namespace CypherGremlin

variable {s t : String} {r r' : List Char}

open List

/-! ## The reader -/

/-- What a backslash and the character stand for.  The escapes that spell a code point are left out.
-/
def unescape? : Char → Option Char
  | 'b' => some '\x08'
  | 't' => some '\t'
  | 'n' => some '\n'
  | 'f' => some '\x0c'
  | 'r' => some '\r'
  | 's' => some ' '
  | '\\' => some '\\'
  | '\'' => some '\''
  | '"' => some '"'
  | _ => none

def isLineBreak (c : Char) : Bool := c == '\n' || c == '\r'

/-- The text up to the quote that closes it, and what is left behind the quote. -/
def readToQuote? (oneLine : Bool) : List Char → Option (List Char × List Char)
  | [] => none
  | '\'' :: rest => some ([], rest)
  | '\\' :: c :: rest => do
    let c ← unescape? c
    let (text, rest) ← readToQuote? oneLine rest
    return (c :: text, rest)
  | c :: rest => do
    if oneLine && isLineBreak c then none
    let (text, rest) ← readToQuote? oneLine rest
    return (c :: text, rest)

/-- The text that a literal in quotes stands for, and what is left behind it. -/
def readQuoted? (oneLine : Bool) : List Char → Option (List Char × List Char)
  | '\'' :: rest => readToQuote? oneLine rest
  | _ => none

/-! ## Quoted texts -/

lemma readToQuote?_escapeQuotes (oneLine : Bool) (text rest : List Char) :
    readToQuote? oneLine (escapeQuotes text ++ '\'' :: rest) =
      if oneLine && text.any isLineBreak then none else some (text, rest) := by
  induction text with
  | nil => simp [escapeQuotes, readToQuote?]
  | cons c text ih =>
    by_cases hescaped : c = '\\' ∨ c = '\''
    · have hbreak : isLineBreak c = false := by rcases hescaped with rfl | rfl <;> rfl
      have hc : unescape? c = some c := by rcases hescaped with rfl | rfl <;> rfl
      rw [escapeQuotes, if_pos hescaped, cons_append, cons_append, readToQuote?, hc, ih, any_cons,
        hbreak, Bool.false_or]
      split <;> rfl
    · obtain ⟨hslash, hquote⟩ := not_or.1 hescaped
      rw [escapeQuotes, if_neg hescaped, cons_append, readToQuote?, ih, any_cons]
      · cases oneLine <;> cases isLineBreak c <;> cases text.any isLineBreak <;> rfl
      · exact hquote
      · exact fun _ _ heq _ => hslash heq

lemma toList_quoted (s : String) :
    (quoted s).toList = '\'' :: (escapeQuotes s.toList ++ ['\'']) := by
  rw [quoted, String.toList_ofList]
  rfl

lemma readQuoted?_append (oneLine : Bool) (s : String) (rest : List Char) :
    readQuoted? oneLine ((quoted s).toList ++ rest) =
      if oneLine && s.toList.any isLineBreak then none else some (s.toList, rest) := by
  rw [toList_quoted, cons_append, append_assoc]
  exact readToQuote?_escapeQuotes oneLine s.toList rest

/-- Where one quoted text ends is told by the text. -/
lemma quoted_append_inj (h : (quoted s).toList ++ r = (quoted t).toList ++ r') :
    s = t ∧ r = r' := by
  have hread := readQuoted?_append false s r
  rw [h, readQuoted?_append] at hread
  obtain ⟨hs, hr⟩ := Prod.mk.inj (Option.some.inj hread)
  exact ⟨String.toList_inj.1 hs.symm, hr.symm⟩

lemma mem_escapeQuotes {c : Char} (hc : isLineBreak c = true) (text : List Char) :
    c ∈ escapeQuotes text ↔ c ∈ text := by
  induction text with
  | nil => rfl
  | cons d text ih =>
    have hslash : c ≠ '\\' := by
      rintro rfl
      cases hc
    rw [escapeQuotes]
    split <;> simp [ih, hslash]

/-- A quoted text is read back whole, whatever it holds and whatever follows.  It stands on one line
if and only if the text does. -/
theorem readQuoted?_quoted (s : String) (rest : List Char) :
    readQuoted? false ((quoted s).toList ++ rest) = some (s.toList, rest) ∧
      (∀ c, isLineBreak c = true → (c ∈ (quoted s).toList ↔ c ∈ s.toList)) ∧
      readQuoted? true ((quoted s).toList ++ rest) =
        if s.toList.any isLineBreak then none else some (s.toList, rest) := by
  refine ⟨readQuoted?_append false s rest, fun c hc => ?_, readQuoted?_append true s rest⟩
  have hquote : c ≠ '\'' := by
    rintro rfl
    cases hc
  simp [toList_quoted, mem_escapeQuotes hc, hquote]

/-- A text of two lines. -/
theorem readQuoted?_twoLines :
    '\n' ∈ (quoted "a\nb").toList ∧ readQuoted? true (quoted "a\nb").toList = none := by
  decide

end CypherGremlin
