import CypherGremlin.Proofs.Number.Text
import CypherGremlin.Proofs.Program.Identified
import CypherGremlin.Proofs.Program.Parts
import CypherGremlin.Proofs.Program.Quoted

/-!
# Groovy text can be read in one way only

The text of a program determines its instructions, up to what the text does not show
(`Program.Identified`).  The proof reads a text from the left.  What comes next is told by its
`lead`: a quote, a bracket, a number, or a word, and for a word by what follows it, since a name is
followed by the end of the argument, a call by a parenthesis and a chain by a dot.

Two kinds of arguments with the same lead can have the same text, as the constant `keys` and a
parameter of that name.  They are arguments of different operators (`Signature.not_clashes`).
-/

namespace CypherGremlin

variable {a b : Argument Int} {c : Char} {as bs : List (Argument Int)} {r r' rest text : List Char}
  {s operator t : String}

open Argument Instruction List

/-! ## Words, numbers and quotes -/

/-- The end of an argument: nothing more, or what separates arguments, keys and values, or what
closes a list. -/
def Ends (text : List Char) : Prop := ∀ c ∈ text.head?, c ∈ [',', ')', ']', ':']

lemma ends_cons (h : c ∈ [',', ')', ']', ':']) (rest : List Char) : Ends (c :: rest) := by
  simpa [Ends] using h

lemma Ends.stops {p : Char → Bool} (h : Ends text)
    (hp : ([',', ')', ']', ':'].all fun c => !p c) = true) : Stops p text := fun c hc => by
  simpa using all_eq_true.1 hp c (h c hc)

lemma Ends.stops_word (h : Ends text) : Stops isIdentifierRest text := h.stops rfl

lemma Ends.stops_number (h : Ends text) : Stops Layout.isNumberChar text := h.stops rfl

/-- The text of an integer. -/
lemma toList_toString_int (i : Int) :
    (toString i).toList = (if i < 0 then ['-'] else []) ++ Nat.toDigits 10 i.natAbs := by
  cases i with
  | ofNat n =>
    rw [Int.ofNat_eq_natCast, if_neg (Int.not_lt.2 (Int.natCast_nonneg n))]
    exact Nat.toList_repr
  | negSucc n =>
    rw [if_pos (Int.negSucc_lt_zero n)]
    exact (String.toList_append).trans (congrArg ('-' :: ·) Nat.toList_repr)

lemma toString_int_injective {i j : Int} (h : toString i = toString j) : i = j := by
  have hlists := congrArg String.toList h
  rw [toList_toString_int, toList_toString_int] at hlists
  have hsign (k : Int) : ∀ c ∈ (if k < 0 then ['-'] else []), (!c.isDigit) = true := by
    split <;> simp
  have hstop (k : Int) : Stops (fun c => !c.isDigit) (Nat.toDigits 10 k.natAbs) := by
    intro c hc
    simp [allDigits_toDigits _ c (mem_of_mem_head? hc)]
  obtain ⟨hsigns, hdigits⟩ := run_append_inj (hsign i) (hsign j) (hstop i) (hstop j) hlists
  have habs : i.natAbs = j.natAbs := by
    rw [← Nat.ofDigitChars_ten_toDigits (n := i.natAbs), hdigits, Nat.ofDigitChars_ten_toDigits]
  split at hsigns <;> split at hsigns <;> first | omega | cases hsigns

lemma isIdentifier_iff : isIdentifier s = true ↔
    ∃ c rest, s.toList = c :: rest ∧ isIdentifierStart c = true ∧ ∀ c ∈ rest, isIdentifierRest c =
      true := by
  unfold isIdentifier
  split <;> simp_all

lemma isDigit_ne_of_start (h : isIdentifierStart c = true) (hdigit : c.isDigit = true) : False := by
  have hletter : (decide ('A'.val ≤ c.val ∧ c.val ≤ 'Z'.val) || decide ('a'.val ≤ c.val) && decide
      (c.val ≤ 'z'.val) || c == '_') = true := h
  have hrange : (decide ('0'.val ≤ c.val) && decide (c.val ≤ '9'.val)) = true := hdigit
  simp only [Bool.and_eq_true, Bool.or_eq_true, decide_eq_true_eq, beq_iff_eq] at hletter hrange
  obtain (⟨hlow, -⟩ | ⟨hlow, -⟩) | rfl := hletter
  · exact absurd (UInt32.le_trans hlow hrange.2) (by decide)
  · exact absurd (UInt32.le_trans hlow hrange.2) (by decide)
  · exact absurd hrange.2 (by decide)

lemma isIdentifierRest_of_start (h : isIdentifierStart c = true) : isIdentifierRest c = true := by
  have hletter : (c.isAlpha || c == '_') = true := h
  have hgoal : (c.isAlpha || c.isDigit || c == '_') = true := by
    simp only [Bool.or_eq_true] at hletter ⊢
    tauto
  exact hgoal

lemma isIdentifierRest_of_mem (h : isIdentifier s = true) :
    ∀ c ∈ s.toList, isIdentifierRest c = true := by
  obtain ⟨c, rest, hs, hc, hrest⟩ := isIdentifier_iff.1 h
  rw [hs]
  exact forall_mem_cons.2 ⟨isIdentifierRest_of_start hc, hrest⟩

lemma word_append_inj (hs : isIdentifier s = true) (ht : isIdentifier t = true)
    (hr : Stops isIdentifierRest r) (hr' : Stops isIdentifierRest r')
    (h : s.toList ++ r = t.toList ++ r') : s = t ∧ r = r' := by
  obtain ⟨hst, hrest⟩ := run_append_inj (isIdentifierRest_of_mem hs) (isIdentifierRest_of_mem ht)
    hr hr' h
  exact ⟨String.toList_inj.1 hst, hrest⟩

lemma stops_word_cons (h : isIdentifierRest c = false) (rest : List Char) :
    Stops isIdentifierRest (c :: rest) := by
  simpa [Stops] using h

/-- A word ends where a character follows that is not part of words. -/
lemma word_cons_inj (hs : isIdentifier s = true) (ht : isIdentifier t = true)
    (hc : isIdentifierRest c = false) (h : s.toList ++ c :: r = t.toList ++ c :: r') :
    s = t ∧ r = r' := by
  obtain ⟨hst, hrest⟩ := word_append_inj hs ht (stops_word_cons hc r) (stops_word_cons hc r') h
  exact ⟨hst, (cons_eq_cons.1 hrest).2⟩

/-! ## Leads -/

/-- How the text of an argument can be recognised. -/
inductive Lead where
  | quote
  | bracket
  | number
  | name
  | call
  | chain
deriving DecidableEq

def wordLead (rest : List Char) : Lead :=
  if rest.head? = some '(' then .call else if rest.head? = some '.' then .chain else .name

/-- The lead of a text that begins with the given character. -/
def charLead? (c : Char) (text : List Char) : Option Lead :=
  if c = '\'' then some .quote
  else if c = '[' then some .bracket
  else if c.isDigit = true ∨ c = '-' then some .number
  else if isIdentifierStart c = true then some (wordLead (text.dropWhile isIdentifierRest))
  else none

def lead? (text : List Char) : Option Lead := text.head?.bind fun c => charLead? c text

def ArgumentKind.lead : ArgumentKind → Lead
  | bool | binding | constant => .name
  | int | float => .number
  | string | token => .quote
  | list | map => .bracket
  | predicate | function => .call
  | traversal => .chain

lemma lead?_number (h : c.isDigit = true ∨ c = '-') : lead? (c :: rest) = some .number := by
  have hne (d : Char) (hd : ¬ (d.isDigit = true ∨ d = '-')) : c ≠ d := by
    rintro rfl
    exact hd h
  rw [lead?, head?_cons, Option.bind_some, charLead?, if_neg (hne _ (by decide)),
    if_neg (hne _ (by decide)), if_pos h]

lemma lead?_word (h : isIdentifier s = true) (hrest : Stops isIdentifierRest rest) :
    lead? (s.toList ++ rest) = some (wordLead rest) := by
  have hdrop := dropWhile_run (isIdentifierRest_of_mem h) hrest
  obtain ⟨c, cs, hs, hc, -⟩ := isIdentifier_iff.1 h
  have hne (d : Char) (hd : isIdentifierStart d = false) : c ≠ d := by
    rintro rfl
    rw [hc] at hd
    cases hd
  have hdigit : ¬ (c.isDigit = true ∨ c = '-') := by
    rintro (hdigit | rfl)
    · exact isDigit_ne_of_start hc hdigit
    · exact absurd hc (by decide)
  rw [hs] at hdrop ⊢
  rw [lead?, cons_append, head?_cons, Option.bind_some, charLead?, if_neg (hne _ (by decide)),
    if_neg (hne _ (by decide)), if_neg hdigit, if_pos hc, ← cons_append, hdrop]

def moreTexts (texts : List String) : List Char :=
  texts.flatMap fun text => ',' :: ' ' :: text.toList

lemma toList_separated_cons (text : String) (texts : List String) :
    (separated ", " (text :: texts)).toList = text.toList ++ moreTexts texts := by
  induction texts generalizing text with
  | nil => simp [separated, moreTexts]
  | cons next rest ih =>
    rw [separated, String.toList_append, String.toList_append, ih]
    · simp [moreTexts]
    · simp

lemma ends_moreTexts (texts : List String) (hc : c ∈ [')', ']']) (rest : List Char) :
    Ends (moreTexts texts ++ c :: rest) := by
  cases texts with
  | nil =>
    refine ends_cons ?_ rest
    simp only [mem_cons, not_mem_nil, or_false] at hc ⊢
    tauto
  | cons text texts => exact ends_cons (by simp) _

/-! ## Arguments -/

section

variable {registry registry' : Registry}

lemma isIdentifier_constant : ∀ constant ∈ programConstants, isIdentifier constant.2 = true := by
  decide

lemma isIdentifier_operators : ∀ operator ∈ operators, isIdentifier operator = true := by decide

lemma isIdentifier_predicate
    (h : operator ∈ nativePredicates ∨ operator ∈ registry.predicates.map (·.symbol)) :
    isIdentifier operator = true := by
  have hnative : ∀ operator ∈ nativePredicates, isIdentifier operator = true := by decide
  rcases h with h | h
  · exact hnative operator h
  · obtain ⟨test, -, rfl⟩ := mem_map.1 h
    cases test <;> decide

lemma isIdentifier_function {symbol : String} (h : symbol ∈ registry.functions.map (·.symbol)) :
    isIdentifier symbol = true := by
  obtain ⟨f, -, rfl⟩ := mem_map.1 h
  cases f <;> decide

lemma Argument.toList_predicate (operator : String) (arguments : List (Argument Int)) :
    (predicate operator arguments).groovy.toList =
      operator.toList ++ '(' :: ((separated ", " (groovyAll arguments)).toList ++ [')']) := by
  simp [groovy]

lemma Argument.toList_function (symbol : String) :
    (function symbol).groovy.toList = symbol.toList ++ ['(', ')'] := by
  rw [groovy, String.toList_append]
  rfl

lemma Argument.toList_traversal (code : List (Instruction Int)) : (traversal code).groovy.toList =
    "__".toList ++ (groovyChain (orIdentity code)).toList := by
  rw [groovy_traversal, String.toList_append]

lemma Instruction.toList_groovy (operator : String) (arguments : List (Argument Int)) :
    (call operator arguments).groovy.toList =
      '.' :: (operator.toList ++ '(' :: ((separated ", " (groovyAll arguments)).toList ++
      [')'])) := by
  simp [groovy]

/-- The chain of a nested traversal begins with a call. -/
lemma Instruction.exists_chain_eq (code : List (Instruction Int)) :
    ∃ rest, (groovyChain (orIdentity code)).toList = '.' :: rest := by
  have hcall (i : Instruction Int) (rest : List (Instruction Int)) :
      ∃ text, (groovyChain (i :: rest)).toList = '.' :: text := by
    cases i with
    | call operator arguments =>
      rw [groovyChain, String.toList_append, toList_groovy]
      exact ⟨_, rfl⟩
  cases code with
  | nil => exact hcall _ _
  | cons i rest => exact hcall i rest

lemma Ends.wordLead (h : Ends rest) : wordLead rest = .name := by
  have hcall : rest.head? ≠ some '(' := fun hhead => absurd (h '(' hhead) (by decide)
  have hchain : rest.head? ≠ some '.' := fun hhead => absurd (h '.' hhead) (by decide)
  rw [CypherGremlin.wordLead, if_neg hcall, if_neg hchain]

lemma Argument.lead?_groovy (h : a.IsProper registry) (hr : Ends r) :
    lead? (a.groovy.toList ++ r) = some a.kind.lead := by
  have hword (s : String) (hs : isIdentifier s = true) : lead? (s.toList ++ r) = some .name := by
    rw [lead?_word hs hr.stops_word, hr.wordLead]
  cases a with
  | bool b => cases b <;> exact hword _ (by decide)
  | int i =>
    rw [groovy, toList_toString_int]
    split
    · exact lead?_number (.inr rfl)
    · obtain ⟨c, rest, hdigits⟩ :=
        exists_cons_of_ne_nil (Nat.toDigits_ne_nil (n := i.natAbs) (b := 10))
      have hc := allDigits_toDigits i.natAbs c (by simp [hdigits])
      rw [hdigits]
      exact lead?_number (.inl hc)
  | float x =>
    obtain ⟨body, htext, ⟨c, rest, rfl, hc⟩, -, -⟩ := Binary64.exists_text_eq h
    rw [groovy, htext, Binary64.signText]
    split
    · exact lead?_number (.inr rfl)
    · exact lead?_number (.inl hc)
  | string s | token s =>
    rw [groovy, toList_quoted]
    rfl
  | list items =>
    rw [groovy, String.toList_append, String.toList_append]
    rfl
  | map entries =>
    cases entries with
    | nil => rfl
    | cons first rest =>
      rw [groovy, String.toList_append, String.toList_append]
      rfl
  | binding name => exact hword name h
  | constant kind name => exact hword name (isIdentifier_constant _ h)
  | predicate operator arguments =>
    rw [toList_predicate, append_assoc]
    exact lead?_word (isIdentifier_predicate h.1) (stops_word_cons (c := '(') (by decide) _)
  | function symbol =>
    rw [toList_function, append_assoc]
    exact lead?_word (isIdentifier_function h) (stops_word_cons (c := '(') (by decide) _)
  | traversal code =>
    obtain ⟨rest, hrest⟩ := exists_chain_eq code
    rw [toList_traversal, append_assoc, hrest]
    exact lead?_word (by decide) (stops_word_cons (by decide) _)

lemma Argument.lead_eq (ha : AllProper registry a.parts)
    (hb : AllProper registry' b.parts) (hr : Ends r) (hr' : Ends r')
    (h : a.groovy.toList ++ r = b.groovy.toList ++ r') : a.kind.lead = b.kind.lead := by
  rw [← Option.some_inj, ← lead?_groovy (isProper ha) hr, h, lead?_groovy (isProper hb) hr']

/-! ## Arguments with the same text -/

/-- Kinds of arguments that can have the same text and are not the same. -/
def ArgumentKind.clashes : ArgumentKind → ArgumentKind → Bool
  | constant, bool | constant, binding | bool, constant | binding, constant => true
  | function, predicate | predicate, function => true
  | _, _ => false

lemma ArgumentKind.not_clashes_of_isValue {a b : ArgumentKind} (ha : a.isValue = true)
    (hb : b.isValue = true) : a.clashes b = false := by
  cases a <;> cases b <;> simp_all [isValue, clashes]

/-- Whether the operator may have such an argument, as far as constants and functions go. -/
def ArgumentKind.isAdmitted (operator : String) (kind : ArgumentKind) : Bool :=
  if operator ∈ ["select", "count", "by"] then kind ∈ [string, traversal, constant]
  else if operator = "map" then kind ∈ [traversal, function]
  else kind ∉ [constant, function]

namespace Signature

variable {kinds kinds' : List ArgumentKind}

lemma isAdmitted (h : Signature operator kinds) :
    ∀ kind ∈ kinds, kind.isAdmitted operator = true := by
  have hall (kind : ArgumentKind) {names : List String}
      (hnames : ∀ name ∈ names, kind.isAdmitted name = true)
      (hname : operator ∈ names) (hkinds : ∀ k ∈ kinds, k = kind) : ∀ k ∈ kinds, k.isAdmitted
      operator = true :=
    fun k hk => hkinds k hk ▸ hnames operator hname
  cases h with
  | text mem | test mem | nested mem | column mem | bound mem =>
    exact hall _ (by decide) mem fun _ => mem_singleton.1
  | texts mem all | connective mem all | branches mem all => exact hall _ (by decide) mem all
  | project all => exact hall _ (by decide) (mem_singleton_self _) all
  | values all =>
    intro kind hkind
    have hval := all kind hkind
    revert hval
    cases kind <;> decide
  | value h | property h | choose h =>
    revert h
    cases ‹ArgumentKind› <;> decide
  | plain => exact forall_mem_nil _
  | _ => decide

lemma not_clashes (h : Signature operator kinds) (h' : Signature operator kinds')
    {a b : ArgumentKind} (ha : a ∈ kinds) (hb : b ∈ kinds') : a.clashes b = false := by
  have hadmitted := h.isAdmitted a ha
  have hadmitted' := h'.isAdmitted b hb
  unfold ArgumentKind.isAdmitted at hadmitted hadmitted'
  cases a <;> cases b <;> first | rfl | grind

end Signature

/-- Arguments at the same places do not clash. -/
def Unclashed (as bs : List (Argument Int)) : Prop :=
  ∀ a ∈ as, ∀ b ∈ bs, a.kind.clashes b.kind = false

lemma Signature.unclashed (h : Signature operator (as.map kind))
    (h' : Signature operator (bs.map kind)) : Unclashed as bs := fun _ ha _ hb =>
  h.not_clashes h' (mem_map_of_mem ha) (mem_map_of_mem hb)

lemma unclashed_of_isValue (h : ∀ a ∈ as, a.kind.isValue = true)
    (h' : ∀ b ∈ bs, b.kind.isValue = true) : Unclashed as bs := fun a ha b hb =>
  ArgumentKind.not_clashes_of_isValue (h a ha) (h' b hb)

/-! ## Single arguments -/

/-- A truth value and a parameter are read as names. -/
lemma Argument.name_cases (ha : a.IsProper registry) (hname : a.kind.lead = .name) :
    isIdentifier a.groovy = true ∧
    ((a.kind = .bool ∨ a.kind = .binding) ∧ a.identify id = .ofName a.groovy ∨
      ∃ p ∈ programConstants, a = .constant p.1 p.2) := by
  cases a with
  | bool b => cases b <;> exact ⟨by decide, .inl ⟨.inl rfl, rfl⟩⟩
  | binding name => exact ⟨ha, .inl ⟨.inr rfl, rfl⟩⟩
  | constant kind name => exact ⟨isIdentifier_constant _ ha, .inr ⟨_, ha, rfl⟩⟩
  | _ => cases hname

lemma Argument.name_append_inj (ha : a.IsProper registry)
    (hb : b.IsProper registry') (hname : a.kind.lead = .name) (hname' : b.kind.lead = .name)
    (hclash : a.kind.clashes b.kind = false) (hr : Ends r) (hr' : Ends r')
    (h : a.groovy.toList ++ r = b.groovy.toList ++ r') :
    a.identify id = b.identify id ∧ r = r' := by
  obtain ⟨hword, hcase⟩ := name_cases ha hname
  obtain ⟨hword', hcase'⟩ := name_cases hb hname'
  obtain ⟨htext, hrest⟩ := word_append_inj hword hword' hr.stops_word hr'.stops_word h
  refine ⟨?_, hrest⟩
  have hconstants : ∀ p ∈ programConstants, ∀ q ∈ programConstants, p.2 = q.2 → p = q := by decide
  obtain ⟨hkind, hread⟩ | ⟨p, hp, rfl⟩ := hcase <;> obtain ⟨hkind', hread'⟩ | ⟨q, hq, rfl⟩ := hcase'
  · rw [hread, hread', htext]
  · rcases hkind with hkind | hkind <;> rw [hkind] at hclash <;> cases hclash
  · rcases hkind' with hkind | hkind <;> rw [hkind] at hclash <;> cases hclash
  · rw [hconstants p hp q hq htext]

/-- Numbers that have the same text are the same. -/
lemma Argument.number_append_inj (ha : a.IsProper registry)
    (hb : b.IsProper registry') (hnum : a.kind.lead = .number) (hnum' : b.kind.lead = .number)
    (hr : Ends r) (hr' : Ends r') (h : a.groovy.toList ++ r = b.groovy.toList ++ r') :
    a = b ∧ r = r' := by
  have hint (i : Int) : ∀ c ∈ (toString i).toList, c.isDigit = true ∨ c = '-' := by
    rw [toList_toString_int]
    refine forall_mem_append.2 ⟨?_, fun c hc => .inl (allDigits_toDigits _ c hc)⟩
    split <;> simp
  have hfloat {x : Binary64} (hx : x.isFinite = true) : (∀ c ∈ x.text.toList, Layout.isNumberChar
      c = true) ∧ ∃ c ∈ x.text.toList, c = '.' ∨ c = 'e' := by
    obtain ⟨body, htext, -, ⟨hall, c, hc, hpoint⟩, -⟩ := Binary64.exists_text_eq hx
    rw [htext]
    refine ⟨forall_mem_append.2 ⟨?_, hall⟩, c, mem_append_right _ hc, hpoint⟩
    unfold Binary64.signText
    split <;> simp [Layout.isNumberChar]
  have hchars {registry : Registry} {a : Argument Int} (ha : a.IsProper registry)
      (hnum : a.kind.lead = .number) : ∀ c ∈ a.groovy.toList, Layout.isNumberChar c = true := by
    cases a with
    | int i =>
      intro c hc
      rcases hint i c hc with hdigit | rfl
      · exact Layout.isNumberChar_of_isDigit hdigit
      · rfl
    | float x => exact (hfloat ha).1
    | _ => cases hnum
  -- A float has a point or an exponent, and an integer has neither.
  have hmixed {i : Int} {x : Binary64} (hx : x.isFinite = true) (htext : (toString i).toList =
      x.text.toList) : False := by
    obtain ⟨c, hc, hpoint⟩ := (hfloat hx).2
    rcases hpoint with rfl | rfl <;> exact absurd (hint i _ (htext ▸ hc)) (by decide)
  obtain ⟨htext, hrest⟩ :=
    run_append_inj (hchars ha hnum) (hchars hb hnum') hr.stops_number hr'.stops_number h
  refine ⟨?_, hrest⟩
  cases a with
  | int i =>
    cases b with
    | int j => exact congrArg int (toString_int_injective (String.toList_inj.1 htext))
    | float y => exact (hmixed hb htext).elim
    | _ => cases hnum'
  | float x =>
    cases b with
    | int j => exact (hmixed ha htext.symm).elim
    | float y => exact congrArg float (Binary64.text_injective ha hb (String.toList_inj.1 htext))
    | _ => cases hnum'
  | _ => cases hnum

/-- Quoted texts are read up to their closing quote. -/
lemma Argument.quote_append_inj (hquote : a.kind.lead = .quote)
    (hquote' : b.kind.lead = .quote) (h : a.groovy.toList ++ r = b.groovy.toList ++ r') :
    a.identify id = b.identify id ∧ r = r' := by
  have hcases (a : Argument Int) (hquote : a.kind.lead = .quote) : ∃ s, a.groovy = quoted s ∧
      a.identify id = .string s := by
    cases a with
    | string s => exact ⟨s, rfl, rfl⟩
    | token s => exact ⟨s, rfl, rfl⟩
    | _ => cases hquote
  obtain ⟨s, hs, ha⟩ := hcases a hquote
  obtain ⟨t, ht, hb⟩ := hcases b hquote'
  rw [hs, ht] at h
  obtain ⟨rfl, rfl⟩ := quoted_append_inj h
  exact ⟨ha.trans hb.symm, rfl⟩

/-- An argument with nothing inside is a name, a number or a quoted text. -/
lemma Argument.simple_append_inj (hsimple : a.kind.lead ∈ [.name, .number, .quote])
    (ha : AllProper registry a.parts) (hb : AllProper registry' b.parts)
    (hclash : a.kind.clashes b.kind = false) (hr : Ends r) (hr' : Ends r')
    (h : a.groovy.toList ++ r = b.groovy.toList ++ r') :
    a.identify id = b.identify id ∧ r = r' := by
  have hlead := lead_eq ha hb hr hr' h
  cases hkind : a.kind.lead with
  | name => exact name_append_inj (isProper ha) (isProper hb) hkind (hlead ▸ hkind) hclash hr hr' h
  | number =>
    obtain ⟨rfl, rfl⟩ :=
      number_append_inj (isProper ha) (isProper hb) hkind (hlead ▸ hkind) hr hr' h
    exact ⟨rfl, rfl⟩
  | quote => exact quote_append_inj hkind (hlead ▸ hkind) h
  | _ => simp [hkind] at hsimple

lemma lead?_groovyKey (k : String) (r : List Char) :
    lead? ((groovyKey k).toList ++ ':' :: r) =
      some (if isIdentifier k = true then .name else .quote) := by
  unfold groovyKey
  split
  · rename_i h
    exact lead?_word h (stops_word_cons (by decide) r)
  · rw [toList_quoted]
    rfl

lemma groovyKey_append_inj {k l : String}
    (h : (groovyKey k).toList ++ ':' :: r = (groovyKey l).toList ++ ':' :: r') :
    k = l ∧ r = r' := by
  have hlead := congrArg lead? h
  rw [lead?_groovyKey, lead?_groovyKey] at hlead
  unfold groovyKey at h
  split at h <;> split at h
  · rename_i hk hl
    exact word_cons_inj hk hl (by decide) h
  · simp_all
  · simp_all
  · obtain ⟨rfl, hrest⟩ := quoted_append_inj h
    exact ⟨rfl, (cons_eq_cons.1 hrest).2⟩

lemma Argument.groovy_append_ne_key {k : String} (ha : a.IsProper registry)
    (hval : a.kind.isValue = true) (hr : ∀ c ∈ r.head?, c ∈ [',', ']'])
    (h : a.groovy.toList ++ r = (groovyKey k).toList ++ ':' :: r') : False := by
  have hends : Ends r := fun c hc => (by decide : ([',', ']'] : List Char) ⊆ [',', ')', ']', ':'])
    (hr c hc)
  have hcolon : r ≠ ':' :: r' := by
    rintro rfl
    exact absurd (hr ':' rfl) (by decide)
  have hlead := congrArg lead? h
  rw [lead?_groovy ha hends, lead?_groovyKey, Option.some_inj] at hlead
  by_cases hk : isIdentifier k = true
  · rw [if_pos hk] at hlead
    rw [groovyKey, if_pos hk] at h
    have hbind : (binding k : Argument Int).IsProper registry := hk
    have hclash : a.kind.clashes (binding k : Argument Int).kind = false :=
      ArgumentKind.not_clashes_of_isValue hval rfl
    exact hcolon (name_append_inj ha hbind hlead rfl hclash hends (ends_cons (by simp) r') h).2
  · rw [if_neg hk] at hlead
    rw [groovyKey, if_neg hk] at h
    exact hcolon (quote_append_inj (b := .string k) hlead rfl h).2

/-! ## Lists, maps and chains -/

lemma Argument.toList_list (items : List (Argument Int)) : (list items).groovy.toList =
    '[' :: ((separated ", " (groovyAll items)).toList ++ [']']) := by
  simp [groovy]

lemma Argument.toList_map (k : String) (a : Argument Int) (rest : List (String × Argument Int)) :
    (Argument.map ((k, a) :: rest)).groovy.toList = '[' :: ((groovyKey k).toList ++
      ':' :: ' ' :: (a.groovy.toList ++ (moreTexts (groovyEntries rest) ++ [']']))) := by
  rw [groovy, groovyEntries, String.toList_append, String.toList_append, toList_separated_cons]
  simp

/-- What closes a list or comes instead of its items does not begin an argument. -/
lemma lead?_closing (h : c ∈ [')', ']', ':']) (rest : List Char) : lead? (c :: rest) = none := by
  simp only [mem_cons, not_mem_nil, or_false] at h
  rcases h with rfl | rfl | rfl <;> rfl

lemma key_append_ne {k : String} (hc : c ∈ [')', ']', ':'])
    (h : c :: r = (groovyKey k).toList ++ ':' :: r') : False := by
  have hlead := congrArg lead? h
  rw [lead?_closing hc, lead?_groovyKey] at hlead
  cases hlead

/-- The items of a list are not taken for its end. -/
lemma Argument.separated_append_ne {d : Char}
    (ha : AllProper registry (partsAll (a :: as))) (hc : c ∈ [')', ']', ':']) (hd : d ∈ [')', ']'])
    (h : c :: r = (separated ", " (groovyAll (a :: as))).toList ++ d :: r') : False := by
  have hlead := congrArg lead? h
  rw [lead?_closing hc, groovyAll, toList_separated_cons, append_assoc,
    lead?_groovy (ha _ (mem_append_left _ a.argument_mem_parts)) (ends_moreTexts _ hd r')] at hlead
  cases hlead

/-- Items with the same text up to the end of their lists have the same text after something else,
too. -/
lemma Argument.moreTexts_of_separated {bs : List (Argument Int)} (hc : c ∈ [')', ']'])
    (ha : AllProper registry (partsAll as)) (hb : AllProper registry' (partsAll bs))
    (h : (separated ", " (groovyAll as)).toList ++ c :: r =
      (separated ", " (groovyAll bs)).toList ++ c :: r') :
    moreTexts (groovyAll as) ++ c :: r = moreTexts (groovyAll bs) ++ c :: r' := by
  cases as with
  | nil =>
    cases bs with
    | nil => exact h
    | cons b bs => exact (separated_append_ne hb (mem_append_left [':'] hc) hc h).elim
  | cons a as =>
    cases bs with
    | nil => exact (separated_append_ne ha (mem_append_left [':'] hc) hc h.symm).elim
    | cons b bs =>
      rw [groovyAll, groovyAll, toList_separated_cons, toList_separated_cons] at h
      exact congrArg (',' :: ' ' :: ·) h

lemma Argument.list_append_ne_map {es : List (String × Argument Int)}
    (ha : AllProper registry (list as).parts)
    (h : (list as).groovy.toList ++ r = (Argument.map es).groovy.toList ++ r') : False := by
  obtain ⟨hvals, has⟩ := forall_mem_cons.1 ha
  simp only [toList_list, cons_append, append_assoc, nil_append] at h
  cases es with
  | nil =>
    obtain ⟨-, hrest⟩ := cons_eq_cons.1 h
    cases as with
    | nil => exact absurd (cons_eq_cons.1 hrest).1 (by decide)
    | cons a as =>
      exact separated_append_ne (c := ':') (r := ']' :: r') has (by simp) (by simp) hrest.symm
  | cons entry es =>
    obtain ⟨k, b⟩ := entry
    simp only [toList_map, cons_append, append_assoc, nil_append] at h
    obtain ⟨-, hrest⟩ := cons_eq_cons.1 h
    cases as with
    | nil => exact key_append_ne (by simp) hrest
    | cons a as =>
      have hproper : a.IsProper registry := has _ (mem_append_left _ a.argument_mem_parts)
      rw [groovyAll, toList_separated_cons, append_assoc] at hrest
      refine groovy_append_ne_key hproper (hvals a mem_cons_self) ?_ hrest
      cases as with
      | nil => simp [groovyAll, moreTexts]
      | cons a' as => simp [groovyAll, moreTexts]

lemma toList_entry (k : String) (a : Argument Int) :
    (groovyKey k ++ ": " ++ a.groovy).toList = (groovyKey k).toList ++ ':' :: ' ' ::
      a.groovy.toList := by
  simp

/-- Maps with the same text have entries with the same text; one without entries is not taken for
one with entries. -/
lemma Argument.moreEntries_of_map {es es' : List (String × Argument Int)}
    (h : (Argument.map es).groovy.toList ++ r = (Argument.map es').groovy.toList ++ r') :
    moreTexts (groovyEntries es) ++ ']' :: r = moreTexts (groovyEntries es') ++ ']' :: r' := by
  have hempty {entry : String × Argument Int} {es : List (String × Argument Int)} {r r' : List Char}
      (h : (Argument.map []).groovy.toList ++ r = (Argument.map (entry :: es)).groovy.toList ++
      r') : False := by
    obtain ⟨k, a⟩ := entry
    simp only [toList_map, cons_append, append_assoc, nil_append] at h
    exact key_append_ne (c := ':') (r := ']' :: r) (by simp) (cons_eq_cons.1 h).2
  cases es with
  | nil =>
    cases es' with
    | nil => exact congrArg (']' :: ·) (append_cancel_left h)
    | cons => exact (hempty h).elim
  | cons entry es =>
    cases es' with
    | nil => exact (hempty h.symm).elim
    | cons entry' es' =>
      obtain ⟨k, a⟩ := entry
      obtain ⟨k', a'⟩ := entry'
      simp only [toList_map, cons_append, append_assoc, nil_append] at h
      simpa [moreTexts, groovyEntries, toList_entry] using (cons_eq_cons.1 h).2

lemma Instruction.groovyChain_eq_identity {js : List (Instruction Int)}
    (hj : AllProper registry (partsAll js)) (hr : Ends r) (hr' : Ends r')
    (h : ".identity()".toList ++ r = (groovyChain js).toList ++ r') :
    js = [.call "identity" []] ∧ r = r' := by
  have hdot {r : List Char} (hr : Ends r) (rest : List Char) : r ≠ '.' :: rest := by
    rintro rfl
    exact absurd (hr '.' rfl) (by decide)
  cases js with
  | nil => exact (hdot hr' _ h.symm).elim
  | cons j js =>
    obtain ⟨operator, arguments⟩ := j
    obtain ⟨hcall, hjs⟩ := forall_mem_append.1 hj
    obtain ⟨hsig, hargs⟩ := forall_mem_cons.1 hcall
    rw [groovyChain, String.toList_append, toList_groovy] at h
    simp only [cons_append, append_assoc, nil_append] at h
    have hidentity : ".identity()".toList ++ r = '.' :: ("identity".toList ++ '(' :: ')' :: r) :=
      rfl
    rw [hidentity] at h
    obtain ⟨rfl, hrest⟩ := word_cons_inj (by decide) (isIdentifier_operators _ hsig.operator_mem)
      (by decide) (cons_eq_cons.1 h).2
    cases arguments with
    | nil =>
      obtain ⟨-, hrest⟩ := cons_eq_cons.1 hrest
      cases js with
      | nil => exact ⟨rfl, hrest⟩
      | cons i js =>
        obtain ⟨rest, hchain⟩ := exists_chain_eq (i :: js)
        rw [show orIdentity (i :: js) = i :: js from rfl] at hchain
        rw [hchain] at hrest
        exact (hdot hr _ hrest).elim
    | cons a arguments => exact (separated_append_ne hargs (by simp) (by simp) hrest).elim

/-! ## Reading text -/

mutual

/-- The text of an instruction can be read in one way only. -/
theorem Instruction.groovy_append_inj : ∀ (i j : Instruction Int) {r r' : List Char},
    AllProper registry i.parts →
    AllProper registry' j.parts → i.groovy.toList ++ r = j.groovy.toList ++ r' →
      i.identify id = j.identify id ∧ r = r'
  | .call operator arguments, .call other others, r, r', hi, hj, h => by
    obtain ⟨hsig, hargs⟩ := forall_mem_cons.1 hi
    obtain ⟨hsig', hothers⟩ := forall_mem_cons.1 hj
    simp only [toList_groovy, cons_append, append_assoc, nil_append] at h
    obtain ⟨rfl, hrest⟩ := word_cons_inj (isIdentifier_operators _ hsig.operator_mem)
      (isIdentifier_operators _ hsig'.operator_mem) (by decide) (cons_eq_cons.1 h).2
    obtain ⟨hitems, rfl⟩ := Argument.moreTexts_append_inj arguments others (by simp) hargs hothers
      (hsig.unclashed hsig') (moreTexts_of_separated (by simp) hargs hothers hrest)
    exact ⟨congrArg (call operator) hitems, rfl⟩

/-- The text of an argument can be read in one way only. -/
theorem Argument.groovy_append_inj : ∀ (a b : Argument Int) {r r' : List Char},
    AllProper registry a.parts →
    AllProper registry' b.parts → a.kind.clashes b.kind = false → Ends r → Ends r' →
    a.groovy.toList ++ r = b.groovy.toList ++ r' → a.identify id = b.identify id ∧ r = r'
  | .list as => by
    intro b r r' ha hb hclash hr hr' h
    -- The first characters tell the lead, and kinds of one lead are told apart below.
    have hlead := lead_eq ha hb hr hr' h
    cases b with
    | list bs =>
      obtain ⟨hvals, has⟩ := forall_mem_cons.1 ha
      obtain ⟨hvals', hbs⟩ := forall_mem_cons.1 hb
      simp only [toList_list, cons_append, append_assoc, nil_append] at h
      obtain ⟨hitems, rfl⟩ :=
        Argument.moreTexts_append_inj as bs (by simp) has hbs (unclashed_of_isValue hvals hvals')
        (moreTexts_of_separated (by simp) has hbs (cons_eq_cons.1 h).2)
      exact ⟨congrArg list hitems, rfl⟩
    | map es => exact (list_append_ne_map ha h).elim
    | _ => cases hlead
  | .map as => by
    intro b r r' ha hb hclash hr hr' h
    have hlead := lead_eq ha hb hr hr' h
    cases b with
    | list bs => exact (list_append_ne_map hb h.symm).elim
    | map bs =>
      obtain ⟨hvals, hparts⟩ := forall_mem_cons.1 ha
      obtain ⟨hvals', hparts'⟩ := forall_mem_cons.1 hb
      obtain ⟨hentries, rfl⟩ := Argument.moreEntries_append_inj as bs hparts hparts' hvals hvals'
        (moreEntries_of_map h)
      exact ⟨congrArg Argument.map hentries, rfl⟩
    | _ => cases hlead
  | .predicate operator as => by
    intro b r r' ha hb hclash hr hr' h
    have hlead := lead_eq ha hb hr hr' h
    cases b with
    | predicate other bs =>
      obtain ⟨hproper, has⟩ := forall_mem_cons.1 ha
      obtain ⟨hproper', hbs⟩ := forall_mem_cons.1 hb
      simp only [toList_predicate, cons_append, append_assoc, nil_append] at h
      obtain ⟨rfl, hrest⟩ :=
        word_cons_inj (isIdentifier_predicate hproper.1) (isIdentifier_predicate hproper'.1)
        (by decide) h
      obtain ⟨hitems, rfl⟩ := Argument.moreTexts_append_inj as bs (by simp) has hbs
        (unclashed_of_isValue hproper.2 hproper'.2) (moreTexts_of_separated (by simp) has hbs hrest)
      exact ⟨congrArg (predicate operator) hitems, rfl⟩
    | function symbol => cases hclash
    | _ => cases hlead
  | .function symbol => by
    intro b r r' ha hb hclash hr hr' h
    have hlead := lead_eq ha hb hr hr' h
    cases b with
    | function symbol' =>
      have hproper := isProper ha
      have hproper' := isProper hb
      simp only [toList_function, cons_append, append_assoc, nil_append] at h
      obtain ⟨rfl, hrest⟩ :=
        word_cons_inj (isIdentifier_function hproper) (isIdentifier_function hproper') (by decide) h
      exact ⟨rfl, (cons_eq_cons.1 hrest).2⟩
    | predicate other bs => cases hclash
    | _ => cases hlead
  | .traversal [] => by
    intro b r r' ha hb hclash hr hr' h
    have hlead := lead_eq ha hb hr hr' h
    cases b with
    | traversal js =>
      cases js with
      | nil => exact ⟨rfl, append_cancel_left h⟩
      | cons j js =>
        obtain ⟨-, hjs⟩ := forall_mem_cons.1 hb
        simp only [toList_traversal, append_assoc] at h
        -- A nested traversal without instructions is written like one that does nothing.
        obtain ⟨hidentity, rfl⟩ := groovyChain_eq_identity hjs hr hr' (append_cancel_left h)
        rw [hidentity]
        exact ⟨rfl, rfl⟩
    | _ => cases hlead
  | .traversal (i :: is) => by
    intro b r r' ha hb hclash hr hr' h
    have hlead := lead_eq ha hb hr hr' h
    cases b with
    | traversal js =>
      obtain ⟨-, his⟩ := forall_mem_cons.1 ha
      obtain ⟨-, hjs⟩ := forall_mem_cons.1 hb
      simp only [toList_traversal, append_assoc] at h
      cases js with
      | nil =>
        obtain ⟨hidentity, rfl⟩ := groovyChain_eq_identity his hr' hr (append_cancel_left h).symm
        rw [hidentity]
        exact ⟨rfl, rfl⟩
      | cons j js =>
        obtain ⟨hcode, rfl⟩ := Instruction.groovyChain_append_inj (i :: is) (j :: js) his hjs hr hr'
          (append_cancel_left h)
        exact ⟨congrArg (fun code => traversal (orIdentity code)) hcode, rfl⟩
    | _ => cases hlead
  | .bool _ | .binding _ | .constant _ _ | .int _ | .float _ | .string _ | .token _ => by
    intro b r r' ha hb hclash hr hr' h
    exact simple_append_inj (by simp [kind, ArgumentKind.lead]) ha hb hclash hr hr' h

/-- The items of a list can be read in one way only. -/
theorem Argument.moreTexts_append_inj :
    ∀ (as bs : List (Argument Int)) {c : Char} {r r' : List Char}, c ∈ [')', ']'] →
    AllProper registry (partsAll as) → AllProper registry' (partsAll bs) → Unclashed as bs →
    moreTexts (groovyAll as) ++ c :: r = moreTexts (groovyAll bs) ++ c :: r' →
    identifyAll id as = identifyAll id bs ∧ r = r'
  | [], [], c, r, r', hc, ha, hb, hclash, h => ⟨rfl, (cons_eq_cons.1 h).2⟩
  | [], _ :: _, c, r, r', hc, ha, hb, hclash, h | _ :: _, [], c, r, r', hc, ha, hb, hclash, h => by
    obtain ⟨rfl, -⟩ := cons_eq_cons.1 h
    exact absurd hc (by decide)
  | a :: as, b :: bs, c, r, r', hc, ha, hb, hclash, h => by
    obtain ⟨ha, has⟩ := forall_mem_append.1 ha
    obtain ⟨hb, hbs⟩ := forall_mem_append.1 hb
    simp only [moreTexts, groovyAll, flatMap_cons, cons_append, append_assoc] at h
    obtain ⟨hab, hrest⟩ :=
      Argument.groovy_append_inj a b ha hb (hclash a mem_cons_self b mem_cons_self)
      (ends_moreTexts _ hc r) (ends_moreTexts _ hc r') (cons_eq_cons.1 (cons_eq_cons.1 h).2).2
    obtain ⟨hmore, rfl⟩ := Argument.moreTexts_append_inj as bs hc has hbs
      (fun a ha b hb => hclash a (mem_cons_of_mem _ ha) b (mem_cons_of_mem _ hb)) hrest
    exact ⟨congrArg₂ List.cons hab hmore, rfl⟩

/-- The entries of a map after the first one can be read in one way only. -/
theorem Argument.moreEntries_append_inj :
    ∀ (as bs : List (String × Argument Int)) {r r' : List Char},
    AllProper registry (entryParts as) → AllProper registry' (entryParts bs) →
    (∀ a ∈ as, a.2.kind.isValue = true) → (∀ b ∈ bs, b.2.kind.isValue = true) →
    moreTexts (groovyEntries as) ++ ']' :: r = moreTexts (groovyEntries bs) ++ ']' :: r' →
    identifyEntries id as = identifyEntries id bs ∧ r = r'
  | [], [], r, r', ha, hb, hvals, hvals', h => ⟨rfl, (cons_eq_cons.1 h).2⟩
  | [], _ :: _, r, r', ha, hb, hvals, hvals', h | _ :: _, [], r, r', ha, hb, hvals, hvals', h =>
    absurd (cons_eq_cons.1 h).1 (by decide)
  | (k, a) :: as, (l, b) :: bs, r, r', ha, hb, hvals, hvals', h => by
    obtain ⟨hval, hvals⟩ := forall_mem_cons.1 hvals
    obtain ⟨hval', hvals'⟩ := forall_mem_cons.1 hvals'
    obtain ⟨ha, has⟩ := forall_mem_append.1 ha
    obtain ⟨hb, hbs⟩ := forall_mem_append.1 hb
    simp only [moreTexts, groovyEntries, flatMap_cons, toList_entry, cons_append, append_assoc] at h
    obtain ⟨hkey, hvalueText⟩ := groovyKey_append_inj (cons_eq_cons.1 (cons_eq_cons.1 h).2).2
    obtain ⟨hab, hrest⟩ :=
      Argument.groovy_append_inj a b ha hb (ArgumentKind.not_clashes_of_isValue hval hval')
      (ends_moreTexts _ (by simp) r) (ends_moreTexts _ (by simp) r') (cons_eq_cons.1 hvalueText).2
    obtain ⟨hmore, rfl⟩ := Argument.moreEntries_append_inj as bs has hbs hvals hvals' hrest
    exact ⟨congrArg₂ List.cons (congrArg₂ Prod.mk hkey hab) hmore, rfl⟩

/-- The text of a chain can be read in one way only. -/
theorem Instruction.groovyChain_append_inj : ∀ (is js : List (Instruction Int)) {r r' : List Char},
    AllProper registry (partsAll is) → AllProper registry' (partsAll js) → Ends r → Ends r' →
    (groovyChain is).toList ++ r = (groovyChain js).toList ++ r' →
    identifyAll id is = identifyAll id js ∧ r = r'
  | [], [], r, r', hi, hj, hr, hr', h => ⟨rfl, h⟩
  | [], .call operator arguments :: js, r, r', hi, hj, hr, hr', h => by
    rw [groovyChain, groovyChain, String.toList_append, toList_groovy] at h
    obtain rfl : r = _ := h
    exact absurd (hr _ rfl) (by decide)
  | .call operator arguments :: is, [], r, r', hi, hj, hr, hr', h => by
    rw [groovyChain, groovyChain, String.toList_append, toList_groovy] at h
    obtain rfl : r' = _ := h.symm
    exact absurd (hr' _ rfl) (by decide)
  | i :: is, j :: js, r, r', hi, hj, hr, hr', h => by
    obtain ⟨hi, his⟩ := forall_mem_append.1 hi
    obtain ⟨hj, hjs⟩ := forall_mem_append.1 hj
    simp only [groovyChain, String.toList_append, append_assoc] at h
    obtain ⟨hij, hrest⟩ := Instruction.groovy_append_inj i j hi hj h
    obtain ⟨hchain, rfl⟩ := Instruction.groovyChain_append_inj is js his hjs hr hr' hrest
    exact ⟨congrArg₂ List.cons hij hchain, rfl⟩

end

/-- Traversals have the same text if and only if their instructions are the same up to what the text
does not show. -/
lemma Traversal.groovy_eq_iff {t t' : Traversal} (h : Traversal.IsValid registry t)
    (h' : Traversal.IsValid registry' t') :
    groovy t = groovy t' ↔ identifyAll id (instructions .unbounded t) =
      identifyAll id (instructions .unbounded t') := by
  have hnil : Ends [] := by simp [Ends]
  constructor
  · intro htext
    have hchain := congrArg String.toList htext
    rw [groovy, groovy, String.toList_append, String.toList_append] at hchain
    have happend := congrArg (· ++ []) (append_cancel_left hchain)
    exact (groovyChain_append_inj _ _ (allProper_instructions .unbounded h.steps)
      (allProper_instructions .unbounded h'.steps) hnil hnil happend).1
  · intro hcode
    rw [groovy, ← groovyChain_identifyAll, hcode, groovyChain_identifyAll, groovy]

end

/-- The text of a program determines it.  Two traversals are written as the same text exactly if
their instructions are the same up to tokens and their strings, empty nested traversals and those
that do nothing, and truth values and parameters of their names; and then their bytecode is the same
up to these as well. -/
theorem Program.groovy_eq_iff_identified {registry registry' : Registry} {t t' : Traversal}
    {text text' : String} (h : Program.emit registry .groovy t = .ok (.groovy text))
    (h' : Program.emit registry' .groovy t' = .ok (.groovy text')) :
    (text = text' ↔ Instruction.identifyAll id (Traversal.instructions .unbounded t) =
      Instruction.identifyAll id (Traversal.instructions .unbounded t')) ∧
    ∃ code code' : Bytecode, Program.emit registry .bytecode t = .ok (.bytecode code) ∧
      Program.emit registry' .bytecode t' = .ok (.bytecode code') ∧
      (text = text' → Instruction.identifyAll id code = Instruction.identifyAll id code') := by
  have hwritten {registry : Registry} {t : Traversal} {text : String}
      (h : Program.emit registry .groovy t = .ok (.groovy text)) :
      Traversal.IsValid registry t ∧ text = Traversal.groovy t ∧
        Program.emit registry .bytecode t = .ok (.bytecode (Traversal.bytecode t)) := by
    obtain ⟨hvalid, -, hp⟩ := Program.emit_eq_ok.1 h
    have htext : text = Traversal.groovy t := by
      rcases hp with hp | hp
      · exact Program.groovy.inj hp
      · cases hp
    exact ⟨hvalid, htext, Program.emit_eq_ok.2 ⟨hvalid, rfl, .inr rfl⟩⟩
  obtain ⟨hvalid, rfl, hcode⟩ := hwritten h
  obtain ⟨hvalid', rfl, hcode'⟩ := hwritten h'
  have hiff := Traversal.groovy_eq_iff hvalid hvalid'
  refine ⟨hiff, _, _, hcode, hcode', fun htext => ?_⟩
  rw [Traversal.identifyAll_bytecode, hiff.1 htext, ← Traversal.identifyAll_bytecode]

/-- All three things that the text does not show, in two programs with the same text. -/
theorem Program.groovy_eq_iff_identified_inject :
    Traversal.groovy [.inject [.parameter "true", .token .null], .map []] =
        Traversal.groovy [.inject [.bool true, .string Token.null.encode], .map [.identity]] ∧
      Instruction.identifyAll id
      (Traversal.bytecode [.inject [.parameter "true", .token .null], .map []]) =
        Instruction.identifyAll id
        (Traversal.bytecode [.inject [.bool true, .string Token.null.encode],
        .map [.identity]]) := by
  have h : Program.emit ⟨[], []⟩ .groovy [.inject [.parameter "true", .token .null], .map []] =
      .ok (.groovy _) := rfl
  have h' : Program.emit .standard .groovy [.inject [.bool true, .string Token.null.encode],
      .map [.identity]] = .ok (.groovy _) := rfl
  obtain ⟨hiff, code, code', hcode, hcode', hsame⟩ := Program.groovy_eq_iff_identified h h'
  have htext := hiff.2 rfl
  obtain rfl := Program.bytecode.inj (Except.ok.inj hcode)
  obtain rfl := Program.bytecode.inj (Except.ok.inj hcode')
  exact ⟨htext, hsame htext⟩

end CypherGremlin
