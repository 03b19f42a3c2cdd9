import CypherGremlin.Token
import Mathlib.Data.List.Induction
import Mathlib.Data.Option.Basic

/-!
# Encoding and decoding of tokens

`Token.decode?_encode` says that a token can be read back from its string, so no two tokens have the
same string (`Token.encode_injective`).  Every such string begins with the reserved lead, and names
of a query do not, so labels are not mistaken for each other either (`Label.encode_inj`).  A counter
is also read from strings that are not its own; `Token.decode?_eq_some_iff` says which strings are
read as a token.
-/

namespace CypherGremlin

variable {lead text : String} {t : Token}

open List

/-! ## Leads -/

lemma dropLead?_eq_some_iff {lead text rest : List Char} :
    dropLead? lead text = some rest ↔ text = lead ++ rest := by
  fun_induction dropLead? lead text with
  | case1 text => simp [eq_comm]
  | case2 c lead text ih => simp [ih]
  | case3 c lead d text hne => simp [Ne.symm hne]
  | case4 => simp

/-- Two leads that part ways are not found in front of each other's texts. -/
lemma dropLead?_append_eq_none {lead other rest : List Char} (h : dropLead? lead other = none)
    (h' : dropLead? other lead = none) : dropLead? lead (other ++ rest) = none := by
  fun_induction dropLead? lead other with
  | case1 => simp at h
  | case2 c lead text ih =>
    simp only [dropLead?, if_true] at h h'
    simpa [dropLead?] using ih h h'
  | case3 c lead d text hne => simp [dropLead?, hne]
  | case4 => simp [dropLead?] at h'

lemma dropLead?_append (lead rest : List Char) : dropLead? lead (lead ++ rest) = some rest :=
  dropLead?_eq_some_iff.2 rfl

lemma afterLead?_eq_some_iff {rest : String} :
    afterLead? lead text = some rest ↔ text = lead ++ rest := by
  rw [afterLead?, Option.map_eq_some_iff]
  constructor
  · rintro ⟨chars, hchars, rfl⟩
    exact String.toList_injective (by simp [dropLead?_eq_some_iff.1 hchars])
  · rintro rfl
    exact ⟨rest.toList, by rw [String.toList_append, dropLead?_append], String.ofList_toList⟩

@[simp] lemma afterLead?_append (lead rest : String) : afterLead? lead (lead ++ rest) = some rest :=
  afterLead?_eq_some_iff.2 rfl

lemma afterLead?_append_eq_none {other : String} (rest : String) (h : beginsWith lead other = false)
    (h' : beginsWith other lead = false) : afterLead? lead (other ++ rest) = none := by
  simp only [beginsWith, Option.isSome_eq_false_iff, Option.isNone_iff_eq_none] at h h'
  rw [afterLead?, String.toList_append, dropLead?_append_eq_none h h', Option.map_none]

lemma beginsWith_append (h : beginsWith lead text = true) (rest : String) :
    beginsWith lead (text ++ rest) = true := by
  obtain ⟨left, hleft⟩ := Option.isSome_iff_exists.1 h
  rw [beginsWith, String.toList_append, dropLead?_eq_some_iff.1 hleft, append_assoc,
    dropLead?_append]
  rfl

/-! ## Tokens -/

namespace Token

/-- Every token is encoded with the reserved lead. -/
@[simp] lemma isReserved_encode (t : Token) : isReserved t.encode = true := by
  refine beginsWith_append ?_ _
  cases t <;> simp only [stem] <;> decide

lemma exists_eq_digitChar {c : Char} (h : c.isDigit = true) : ∃ d < 10, c = Nat.digitChar d := by
  obtain ⟨hlow, hhigh⟩ := Char.isDigit_iff_toNat.1 h
  simp only [Char.reduceToNat] at hlow hhigh
  have hlt : c.toNat - 48 < 10 := by omega
  refine ⟨c.toNat - 48, hlt, Char.toNat_inj.1 ?_⟩
  rw [Nat.toNat_digitChar_of_lt_ten hlt]
  omega

lemma exists_eq_zeros_append {digits : List Char} (hne : digits ≠ [])
    (h : ∀ c ∈ digits, c.isDigit = true) :
    ∃ zeros, digits = List.replicate zeros '0' ++ Nat.toDigits 10
    (Nat.ofDigitChars 10 digits 0) := by
  induction digits using List.reverseRecOn with
  | nil => exact absurd rfl hne
  | append_singleton digits c ih =>
    obtain ⟨hdigits, hc⟩ := forall_mem_append.1 h
    obtain ⟨d, hd, rfl⟩ := exists_eq_digitChar (hc c mem_cons_self)
    rw [Nat.ofDigitChars_append, Nat.ofDigitChars_cons_digitChar_of_lt_ten hd, Nat.ofDigitChars_nil]
    have hlast : Nat.toDigits 10 d = [d.digitChar] := Nat.toDigits_of_lt_base hd
    by_cases hnil : digits = []
    · exact ⟨0, by simp [hnil, Nat.ofDigitChars_nil, hlast]⟩
    · obtain ⟨zeros, heq⟩ := ih hnil hdigits
      obtain hzero | hpos := Nat.eq_zero_or_pos (Nat.ofDigitChars 10 digits 0)
      · -- The digits so far are zeros, and the last one is all there is.
        refine ⟨zeros + 1, ?_⟩
        rw [hzero, Nat.toDigits_zero] at heq
        rw [hzero, heq, Nat.mul_zero, Nat.zero_add, hlast, replicate_succ']
      · refine ⟨zeros, ?_⟩
        rw [← Nat.toDigits_append_toDigits (by decide) hpos hd, hlast, ← append_assoc, ← heq]

/-- A counter is read from digits that have its value, with or without a sign. -/
lemma counter?_eq_some_iff {n : UInt32} : counter? text = some n ↔ ∃ digits,
    (text.toList = digits ∨ text.toList = '+' :: digits) ∧ digits ≠ [] ∧
    (∀ c ∈ digits, c.isDigit = true) ∧ Nat.ofDigitChars 10 digits 0 = n.toNat := by
  have hnum (digits : List Char) : (if (digits.isEmpty || !digits.all Char.isDigit) =
      true then none else
      if digits.foldl (fun n c => n * 10 + (c.toNat - '0'.toNat)) 0 < UInt32.size then
        some (digits.foldl (fun n c => n * 10 + (c.toNat - '0'.toNat)) 0).toUInt32 else none) =
          some n ↔
      digits ≠ [] ∧ (∀ c ∈ digits, c.isDigit = true) ∧ Nat.ofDigitChars 10 digits 0 = n.toNat := by
    have hval : digits.foldl (fun n c => n * 10 + (c.toNat - '0'.toNat)) 0 =
        Nat.ofDigitChars 10 digits 0 := by
      simp only [Nat.ofDigitChars, Nat.mul_comm]
    rw [hval]
    simp only [Option.ite_none_left_eq_some, Option.ite_none_right_eq_some, Option.some.injEq,
      Bool.or_eq_true, not_or,
      List.isEmpty_iff, Bool.not_eq_true', Bool.not_eq_false, all_eq_true, and_assoc, ne_eq]
    refine and_congr_right fun _ => and_congr_right fun _ => ⟨?_, fun h => ?_⟩
    · rintro ⟨hlt, rfl⟩
      exact (UInt32.toNat_ofNat_of_lt' hlt).symm
    · exact ⟨h ▸ n.toNat_lt_size, by rw [h]; exact UInt32.ofNat_toNat⟩
  unfold counter?
  split
  · rename_i rest htext
    rw [hnum, htext]
    refine ⟨fun h => ⟨rest, .inr rfl, h⟩, ?_⟩
    rintro ⟨digits, rfl | heq, h⟩
    · exact absurd (h.2.1 '+' mem_cons_self) (by decide)
    · rwa [(List.cons.inj heq).2]
  · rename_i hsign
    rw [hnum]
    refine ⟨fun h => ⟨_, .inl rfl, h⟩, ?_⟩
    rintro ⟨digits, rfl | heq, h⟩
    · exact h
    · exact absurd heq (hsign digits)

/-- The string of the token, or of a counter with a sign or zeros in front of its digits. -/
def Spells (text : String) (t : Token) : Prop :=
  text = t.encode ∨ t.isSynthetic = true ∧ ∃ sign ∈ ["", "+"], ∃ zeros,
    text = t.stem ++ (sign ++ String.ofList (List.replicate zeros '0') ++ t.suffix)

lemma counter?_eq_some_iff_exists {n : UInt32} : counter? text = some n ↔ ∃ sign ∈ ["", "+"],
    ∃ zeros,
    text = sign ++ String.ofList (List.replicate zeros '0') ++ String.ofList
    (Nat.toDigits 10 n.toNat) := by
  rw [counter?_eq_some_iff]
  constructor
  · rintro ⟨digits, htext, hne, hall, hval⟩
    obtain ⟨zeros, hdigits⟩ := exists_eq_zeros_append hne hall
    rw [hval] at hdigits
    rcases htext with htext | htext
    · exact ⟨"", by simp, zeros, String.toList_injective (by simp [htext, ← hdigits])⟩
    · exact ⟨"+", by simp, zeros, String.toList_injective (by simp [htext, ← hdigits])⟩
  · rintro ⟨sign, hsign, zeros, rfl⟩
    refine ⟨List.replicate zeros '0' ++ Nat.toDigits 10 n.toNat, ?_, by
      simp [Nat.toDigits_ne_nil], ?_, ?_⟩
    · simp only [mem_cons, not_mem_nil, or_false] at hsign
      rcases hsign with rfl | rfl
      · exact .inl (by simp)
      · exact .inr (by simp)
    · refine forall_mem_append.2 ⟨fun c hc => ?_, fun c => Nat.isDigit_of_mem_toDigits (by decide)
        (by decide)⟩
      rw [eq_of_mem_replicate hc]
      decide
    · rw [Nat.ofDigitChars_append, Nat.ofDigitChars_replicate_zero, Nat.mul_zero,
        Nat.ofDigitChars_ten_toDigits]

lemma counter?_digits (n : UInt32) : counter? (String.ofList (Nat.toDigits 10 n.toNat)) = some n :=
  counter?_eq_some_iff_exists.2 ⟨"", by simp, 0, by simp⟩

/-- No token without an argument begins like one that has an argument. -/
lemma constants_find?_append (h : ∀ t ∈ constants, beginsWith lead t.encode = false)
    (rest : String) : constants.find? (fun t => t.encode == lead ++ rest) = none := by
  refine find?_eq_none.2 fun t ht heq => ?_
  have hbegins : beginsWith lead t.encode = true := by
    rw [eq_of_beq heq, beginsWith, String.toList_append, dropLead?_append]
    rfl
  simp [h t ht] at hbegins

lemma decode?_stem_append (ht : t.isSynthetic = true) {rest : String}
    (h : counter? rest = counter? t.suffix) : decode? (t.stem ++ rest) = some t := by
  have hreserved : (!isReserved (t.stem ++ rest)) = false := by
    rw [isReserved, beginsWith_append _ rest]
    · rfl
    · cases t <;> simp only [stem] <;> decide
  simp only [decode?, hreserved, Bool.false_eq_true, if_false]
  cases t with
  | generated n | unnamed n | freshId n =>
    rw [suffix, counter?_digits] at h
    simp only [stem]
    rw [constants_find?_append (by decide)]
    simp (disch := decide) only [afterLead?_append_eq_none]
    simp [h]
  | _ => simp [isSynthetic] at ht

/-- A token can be read back from its string. -/
theorem decode?_encode (t : Token) : decode? t.encode = some t := by
  have hreserved : (!isReserved t.encode) = false := by simp
  cases t with
  | pathStart name | pathEdge name =>
    rw [decode?, hreserved, if_neg Bool.false_ne_true, encode,
      constants_find?_append (by simp only [stem]; decide)]
    simp (disch := decide) only [stem, afterLead?_append_eq_none]
    simp [suffix]
  | generated | unnamed | freshId => exact decode?_stem_append rfl rfl
  | _ => decide

/-- The strings that are read as a token. -/
theorem decode?_eq_some_iff : decode? text = some t ↔ Spells text t := by
  constructor
  · intro h
    simp only [decode?, Option.ite_none_left_eq_some, Option.orElse_eq_some, Option.map_eq_some_iff,
      Option.bind_eq_some_iff, afterLead?_eq_some_iff, counter?_eq_some_iff_exists] at h
    obtain ⟨-, h⟩ := h
    rcases h with h | ⟨-, ⟨_, rfl, rfl⟩ | ⟨-, ⟨_, rfl, rfl⟩ | ⟨-, h⟩⟩⟩
    · have hbeq := find?_some h
      exact .inl (eq_of_beq hbeq).symm
    · exact .inl rfl
    · exact .inl rfl
    · -- The text goes on with a counter, behind the stem of one of three tokens.
      rcases h with ⟨_, ⟨_, rfl, sign, hsign, zeros, rfl⟩, rfl⟩ | ⟨-,
        ⟨_, ⟨_, rfl, sign, hsign, zeros, rfl⟩, rfl⟩ |
        ⟨-, _, ⟨_, rfl, sign, hsign, zeros, rfl⟩, rfl⟩⟩ <;>
      exact .inr ⟨rfl, sign, hsign, zeros, rfl⟩
  · rintro (rfl | ⟨ht, sign, hsign, zeros, rfl⟩)
    · exact decode?_encode t
    · refine decode?_stem_append ht ?_
      cases t with
      | generated n | unnamed n | freshId n =>
        exact (counter?_eq_some_iff_exists.2 ⟨sign, hsign, zeros, rfl⟩).trans
          (counter?_digits n).symm
      | _ => simp [isSynthetic] at ht

/-- Only a counter can be read from anything else than its string. -/
lemma eq_encode_of_decode? (h : decode? text = some t) (ht : t.isSynthetic = false) :
    text = t.encode :=
  (decode?_eq_some_iff.1 h).resolve_right (by simp [ht])

theorem encode_injective : Function.Injective encode := by
  intro t t' h
  simpa [h, decode?_encode] using (decode?_encode t).symm

/-- The name of a path and the number of a hop can be told from the text of the hop: no digit is a
dot. -/
lemma hop_inj {path path' : String} {n m : Nat}
    (h : path ++ "." ++ toString n = path' ++ "." ++ toString m) : path = path' ∧ n = m := by
  have hdot (k : Nat) : '.' ∉ Nat.toDigits 10 k := fun hmem =>
    absurd (Nat.isDigit_of_mem_toDigits (by decide) (by decide) hmem) (by decide)
  have hlist : path.toList ++ '.' :: Nat.toDigits 10 n = path'.toList ++ '.' ::
      Nat.toDigits 10 m := by
    simpa [toString, Nat.repr] using congrArg String.toList h
  have hpath : path.toList = path'.toList := by
    rcases append_eq_append_iff.1 hlist with ⟨c, hc, htail⟩ | ⟨c, hc, htail⟩
    · rcases cons_eq_append_iff.1 htail with ⟨rfl, -⟩ | ⟨c', -, hdigits⟩
      · exact (hc.trans (append_nil _)).symm
      · exact (hdot n (by simp [hdigits])).elim
    · rcases cons_eq_append_iff.1 htail with ⟨rfl, -⟩ | ⟨c', -, hdigits⟩
      · exact hc.trans (append_nil _)
      · exact (hdot m (by simp [hdigits])).elim
  have hdigits : Nat.toDigits 10 n = Nat.toDigits 10 m := by
    rw [hpath] at hlist
    exact (List.cons.inj (append_cancel_left hlist)).2
  refine ⟨String.toList_injective hpath, ?_⟩
  simpa only [Nat.ofDigitChars_ten_toDigits] using congrArg (Nat.ofDigitChars 10 · 0) hdigits

end Token

namespace Label

/-- The label is a token or a name that cannot be taken for one. -/
def Clean : Label → Prop
  | named name => isReserved name = false
  | token _ => True

@[simp] lemma clean_token (t : Token) : Clean (token t) := trivial

theorem encode_inj {l l' : Label} (hl : l.Clean) (hl' : l'.Clean) (h : l.encode = l'.encode) :
    l = l' := by
  cases l with
  | named name =>
    cases l' with
    | named name' => exact congrArg named h
    | token t =>
      have hname : name = t.encode := h
      simp [Clean, hname] at hl
  | token t =>
    cases l' with
    | named name =>
      have hname : t.encode = name := h
      simp [Clean, ← hname] at hl'
    | token t' => exact congrArg token (Token.encode_injective h)

end Label

end CypherGremlin
