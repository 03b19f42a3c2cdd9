import CypherGremlin.Proofs.Program.Parts

/-!
# Bytes determine programs

A fingerprint is the digest of `Program.bytes`, so two programs with the same bytes cannot be told
apart.  Here it is shown that there are no two such programs: the bytes can be read in one way only.

Almost everything in them carries its own length.  The exception are the operators of instructions,
which are followed by the number of their arguments with nothing in between, although some operators
begin with others (`extensions`).  What tells them apart is the signature of the shorter one: it
says how many arguments come, or that the first is a traversal
(`Signature.operator_eq_of_extension`).

Lengths are written in 64 bits, and lists here can be longer than that.  The lengths in a program
are collected in `Program.lengths`, and they are assumed to fit, as they do in every machine.
-/

namespace CypherGremlin

variable {n : Nat} {r r' : List UInt8} {x y : UInt64} {s t : String}

open Argument List

/-! ## Numbers and texts -/

@[simp] lemma length_littleEndianBytes (n : Nat) (x : UInt64) :
    (littleEndianBytes n x).length = n := by
  induction n generalizing x with
  | zero => rfl
  | succ n ih => simp [littleEndianBytes, ih]

/-- Bytes give a number up to their own size. -/
lemma mod_eq_of_littleEndianBytes_eq (h : littleEndianBytes n x = littleEndianBytes n y) :
    x.toNat % Nat.pow 256 n = y.toNat % Nat.pow 256 n := by
  induction n generalizing x y with
  | zero => rw [show Nat.pow 256 0 = 1 from rfl, Nat.mod_one, Nat.mod_one]
  | succ n ih =>
    obtain ⟨hlow, hhigh⟩ := cons_eq_cons.1 h
    have hshift (z : UInt64) : (z >>> 8).toNat = z.toNat / 256 := by
      rw [UInt64.toNat_shiftRight, Nat.shiftRight_eq_div_pow]
      rfl
    have hlow : x.toNat % 256 = y.toNat % 256 := congrArg UInt8.toNat hlow
    have hhigh := ih hhigh
    rw [hshift, hshift] at hhigh
    rw [show Nat.pow 256 (n + 1) = 256 * Nat.pow 256 n from Nat.mul_comm _ _, Nat.mod_mul,
      Nat.mod_mul, hlow, hhigh]

lemma wordBytes_append_inj (h : wordBytes x ++ r = wordBytes y ++ r') : x = y ∧ r = r' := by
  obtain ⟨hbytes, rfl⟩ := append_inj h (by simp [wordBytes])
  have hmod := mod_eq_of_littleEndianBytes_eq hbytes
  have hx : x.toNat < Nat.pow 256 8 := x.toNat_lt
  have hy : y.toNat < Nat.pow 256 8 := y.toNat_lt
  rw [Nat.mod_eq_of_lt hx, Nat.mod_eq_of_lt hy] at hmod
  exact ⟨UInt64.toNat_inj.1 hmod, rfl⟩

lemma lengthBytes_append_inj {m : Nat} (hn : n < UInt64.size) (hm : m < UInt64.size)
    (h : lengthBytes n ++ r = lengthBytes m ++ r') : n = m ∧ r = r' := by
  obtain ⟨hword, hr⟩ := wordBytes_append_inj h
  have heq := congrArg UInt64.toNat hword
  rw [UInt64.toNat_ofNat_of_lt' hn, UInt64.toNat_ofNat_of_lt' hm] at heq
  exact ⟨heq, hr⟩

lemma textBytes_injective (h : textBytes s = textBytes t) : s = t := by
  rw [← String.toByteArray_inj, ← String.utf8Encode_toList, ← String.utf8Encode_toList]
  exact congrArg List.toByteArray h

lemma measuredBytes_append_inj (hs : (textBytes s).length < UInt64.size)
    (ht : (textBytes t).length < UInt64.size) (h : measuredBytes s ++ r = measuredBytes t ++ r') :
    s = t ∧ r = r' := by
  simp only [measuredBytes, append_assoc] at h
  obtain ⟨hlen, hbytes⟩ := lengthBytes_append_inj hs ht h
  obtain ⟨htext, hr⟩ := append_inj hbytes hlen
  exact ⟨textBytes_injective htext, hr⟩

/-! ## Operators -/

/-- The operators that begin with other operators, with the shorter one first and the rest of the
longer one last. -/
def extensions : List (String × String × String) :=
  [("has", "hasLabel", "Label"), ("has", "hasNot", "Not"), ("has", "hasKey", "Key"),
    ("value", "values", "s"),
    ("value", "valueMap", "Map"), ("id", "identity", "entity"), ("or", "order", "der")]

set_option maxRecDepth 20000 in
lemma operators_isPrefix : ∀ a ∈ operators, ∀ b ∈ operators, textBytes a <+: textBytes b →
    a = b ∨ ∃ extension ∈ extensions, extension.1 = a ∧ extension.2.1 = b := by
  decide +kernel

lemma textBytes_extension : ∀ extension ∈ extensions,
    textBytes extension.2.1 = textBytes extension.1 ++ textBytes extension.2.2 := by
  decide

namespace Signature

variable {operator other : String} {kinds kinds' : List ArgumentKind}

/-- The operators with an extension other than `or` have at most two arguments. -/
lemma length_le (h : Signature operator kinds) (hmem : operator ∈ ["has", "value", "id"]) :
    kinds.length ≤ 2 := by
  have hdisj (some : List String) (hsome : ∀ o ∈ some, o ∉ ["has", "value", "id"])
      (ho : operator ∈ some) : kinds.length ≤ 2 := absurd hmem (hsome operator ho)
  cases h with
  | texts mem | connective mem | branches mem => exact hdisj _ (by decide) mem
  | project | values | choose => exact absurd hmem (by decide)
  | _ => simp

lemma kinds_of_or (h : Signature operator kinds) (hname : operator = "or") :
    ∀ kind ∈ kinds, kind = .traversal := by
  cases h with
  | plain mem | text mem | texts mem | test mem | nested mem | branches mem | column mem
  | bound mem =>
    exact absurd (hname ▸ mem) (by decide)
  | connective _ all => exact all
  | _ => exact absurd hname (by decide)

lemma kinds_of_order (h : Signature operator kinds) (hname : operator = "order") : kinds = [] := by
  cases h with
  | plain => rfl
  | text mem | texts mem | test mem | nested mem | connective mem | branches mem | column mem
  | bound mem =>
    exact absurd (hname ▸ mem) (by decide)
  | _ => exact absurd hname (by decide)

end Signature

/-! ## Arguments -/

/-- The byte that an argument begins with. -/
def ArgumentKind.tag : ArgumentKind → UInt8
  | bool => 0
  | int => 1
  | float => 2
  | string => 3
  | list => 4
  | map => 5
  | token => 6
  | binding => 7
  | predicate => 8
  | traversal => 9
  | constant => 10
  | function => 11

lemma ArgumentKind.tag_injective {a b : ArgumentKind} (h : a.tag = b.tag) : a = b := by
  cases a <;> cases b <;> first | rfl | exact absurd h (by decide)

lemma Argument.exists_bytes_eq (a : Argument Int64) : ∃ rest, a.bytes = a.kind.tag :: rest := by
  cases a <;> exact ⟨_, rfl⟩

lemma Argument.kind_eq_of_bytes {a b : Argument Int64} (h : a.bytes ++ r = b.bytes ++ r') :
    a.kind = b.kind := by
  obtain ⟨rest, ha⟩ := a.exists_bytes_eq
  obtain ⟨rest', hb⟩ := b.exists_bytes_eq
  rw [ha, hb] at h
  exact ArgumentKind.tag_injective (cons_eq_cons.1 h).1

/-- The number of arguments begins with a small byte if there are few of them. -/
lemma lengthBytes_of_le_two (h : n ≤ 2) : ∃ c rest, lengthBytes n = c :: rest ∧ c ≤ 2 := by
  refine ⟨_, _, rfl, ?_⟩
  have hcases : n = 0 ∨ n = 1 ∨ n = 2 := by omega
  rcases hcases with rfl | rfl | rfl <;> decide

lemma Signature.operator_eq_of_extension {operator other : String}
    {arguments others : List (Argument Int64)} {suffix : List UInt8}
    (h : Signature operator (arguments.map kind)) (hother : Signature other (others.map kind))
    (hsuffix : textBytes other = textBytes operator ++ suffix)
    (hrest : lengthBytes arguments.length ++ (bytesAll arguments ++ r) =
      suffix ++ (lengthBytes others.length ++ r')) : operator = other := by
  have hbegins : textBytes operator <+: textBytes other := ⟨suffix, hsuffix.symm⟩
  rcases operators_isPrefix operator h.operator_mem other hother.operator_mem hbegins with heq
    | hextension
  · exact heq
  exfalso
  obtain ⟨extension, hmem, rfl, rfl⟩ := hextension
  obtain rfl : suffix = textBytes extension.2.2 :=
    append_cancel_left (hsuffix.symm.trans (textBytes_extension extension hmem))
  have hcases : ∀ e ∈ extensions, e.1 ∈ ["has", "value", "id"] ∧
      (textBytes e.2.2).head?.any (2 < ·) = true ∨ e = ("or", "order", "der") := by decide
  rcases hcases extension hmem with ⟨hname, hletter⟩ | rfl
  · -- The number of arguments is small, and the extension goes on with a letter.
    obtain ⟨c, rest, hc, hsmall⟩ := lengthBytes_of_le_two (by simpa using h.length_le hname)
    obtain ⟨d, hhead, hlarge⟩ := (Option.any_eq_true _ _).1 hletter
    obtain ⟨last, hd⟩ := head?_eq_some_iff.1 hhead
    rw [hc, hd] at hrest
    obtain ⟨rfl, -⟩ := cons_eq_cons.1 hrest
    exact absurd (of_decide_eq_true hlarge) (UInt8.not_lt.2 hsmall)
  · -- The number of arguments is not zero, the first of them is a traversal, and an order goes on
    -- with zeros.
    have hnone : others = [] := by simpa using hother.kinds_of_order rfl
    have hfirst := h.kinds_of_or rfl
    subst hnone
    cases arguments with
    | nil => exact absurd (cons_eq_cons.1 hrest).1 (by decide)
    | cons a rest =>
      obtain ⟨tail, ha⟩ := a.exists_bytes_eq
      rw [hfirst a.kind (by simp)] at ha
      rw [bytesAll, ha] at hrest
      have hsplit : textBytes "der" ++ (lengthBytes 0 ++ r') =
          [0x64, 0x65, 0x72, 0, 0, 0, 0, 0] ++ ([0, 0, 0] ++ r') := rfl
      obtain ⟨-, htail⟩ := append_inj (hrest.trans hsplit) (by simp [lengthBytes, wordBytes])
      exact absurd (cons_eq_cons.1 htail).1 (by decide)

/-! ## Lengths -/

variable {ι : Type}

/-- The lengths that are written before the texts and the lists of an argument itself. -/
def Argument.lengths : Argument ι → List Nat
  | .string text | .token text | .binding text | .function text => [(textBytes text).length]
  | .list items => [items.length]
  | .map entries => entries.length :: entries.map fun entry => (textBytes entry.1).length
  | .predicate operator arguments => [(textBytes operator).length, arguments.length]
  | .traversal code => [code.length]
  | .constant kind name => [(textBytes kind).length, (textBytes name).length]
  | .bool _ | .int _ | .float _ => []

/-- The lengths that are written in a part itself. -/
def Part.lengths : Part ι → List Nat
  | .call (.call _ arguments) => [arguments.length]
  | .argument a => a.lengths

def Program.lengths : Program → List Nat
  | .groovy _ => []
  | .bytecode code => code.length :: (Instruction.partsAll code).flatMap Part.lengths

/-- A part that can be read from its bytes: its lengths fit in 64 bits, and a call has a signature.
-/
structure Part.IsReadable (part : Part ι) : Prop where
  fits : ∀ n ∈ part.lengths, n < UInt64.size
  call : ∀ operator arguments, part = .call (.call operator arguments) →
    Signature operator (arguments.map Argument.kind)

/-- All parts can be read from their bytes. -/
abbrev AllReadable (parts : List (Part ι)) : Prop := ∀ part ∈ parts, part.IsReadable

lemma Argument.fits {a : Argument ι} (h : AllReadable a.parts) : ∀ n ∈ a.lengths, n < UInt64.size :=
  (h _ a.argument_mem_parts).fits

/-! ## Reading bytes -/

mutual

/-- The bytes of an instruction can be read in one way only. -/
theorem Instruction.bytes_append_inj : ∀ (i j : Instruction Int64) {r r' : List UInt8},
    AllReadable i.parts → AllReadable j.parts → i.bytes ++ r = j.bytes ++ r' → i = j ∧ r = r'
  | .call operator arguments, .call other others, r, r', hi, hj, h => by
    obtain ⟨hcall, hargs⟩ := forall_mem_cons.1 hi
    obtain ⟨hother, hothers⟩ := forall_mem_cons.1 hj
    have hsig := hcall.call _ _ rfl
    have hsig' := hother.call _ _ rfl
    simp only [Instruction.bytes, append_assoc] at h
    -- One name can begin another (`has`, `hasLabel`); what follows settles where it ends.
    obtain rfl : operator = other := by
      rcases append_eq_append_iff.1 h with ⟨rest, hname, hrest⟩ | ⟨rest, hname, hrest⟩
      · exact hsig.operator_eq_of_extension hsig' hname hrest
      · exact (hsig'.operator_eq_of_extension hsig hname hrest).symm
    obtain ⟨hlen, hrest⟩ := lengthBytes_append_inj (hcall.fits _ mem_cons_self)
      (hother.fits _ mem_cons_self) (append_cancel_left h)
    obtain ⟨rfl, rfl⟩ := Argument.bytesAll_append_inj arguments others hlen hargs hothers hrest
    exact ⟨rfl, rfl⟩

/-- The bytes of an argument can be read in one way only. -/
theorem Argument.bytes_append_inj : ∀ (a b : Argument Int64) {r r' : List UInt8},
    AllReadable a.parts → AllReadable b.parts → a.bytes ++ r = b.bytes ++ r' → a = b ∧ r = r'
  | .bool x, b, r, r', ha, hb, h => by
    -- The first byte tells the kind, so only arguments of one kind are compared.
    cases b with
    | bool y =>
      obtain ⟨hx, rfl⟩ := cons_eq_cons.1 (cons_eq_cons.1 h).2
      have hxy : x = y := by revert hx; cases x <;> cases y <;> decide
      exact ⟨congrArg Argument.bool hxy, rfl⟩
    | _ => cases kind_eq_of_bytes h
  | .int x, b, r, r', ha, hb, h => by
    cases b with
    | int y =>
      simp only [bytes, cons_append] at h
      obtain ⟨hx, rfl⟩ := wordBytes_append_inj (cons_eq_cons.1 h).2
      exact ⟨by rw [← Int64.toInt64_toUInt64 x, hx, Int64.toInt64_toUInt64], rfl⟩
    | _ => cases kind_eq_of_bytes h
  | .float x, b, r, r', ha, hb, h => by
    cases b with
    | float y =>
      simp only [bytes, cons_append] at h
      obtain ⟨hx, rfl⟩ := wordBytes_append_inj (cons_eq_cons.1 h).2
      exact ⟨congrArg (fun bits => float ⟨bits⟩) hx, rfl⟩
    | _ => cases kind_eq_of_bytes h
  | .string s, b, r, r', ha, hb, h | .token s, b, r, r', ha, hb, h | .binding s, b, r, r', ha, hb, h
  | .function s, b, r, r', ha, hb, h => by
    have hkind := kind_eq_of_bytes h
    cases b with
    | string t | token t | binding t | function t =>
      cases hkind
      all_goals
        simp only [bytes, cons_append] at h
        obtain ⟨rfl, rfl⟩ := measuredBytes_append_inj (fits ha _ mem_cons_self)
          (fits hb _ mem_cons_self) (cons_eq_cons.1 h).2
        exact ⟨rfl, rfl⟩
    | _ => cases hkind
  | .list as, b, r, r', ha, hb, h => by
    cases b with
    | list bs =>
      obtain ⟨ha, has⟩ := forall_mem_cons.1 ha
      obtain ⟨hb, hbs⟩ := forall_mem_cons.1 hb
      simp only [bytes, cons_append, append_assoc] at h
      obtain ⟨hlen, hrest⟩ :=
        lengthBytes_append_inj (ha.fits _ mem_cons_self) (hb.fits _ mem_cons_self)
        (cons_eq_cons.1 h).2
      obtain ⟨rfl, rfl⟩ := Argument.bytesAll_append_inj as bs hlen has hbs hrest
      exact ⟨rfl, rfl⟩
    | _ => cases kind_eq_of_bytes h
  | .map as, b, r, r', ha, hb, h => by
    cases b with
    | map bs =>
      obtain ⟨ha, has⟩ := forall_mem_cons.1 ha
      obtain ⟨hb, hbs⟩ := forall_mem_cons.1 hb
      obtain ⟨hlengthA, hkeysA⟩ := forall_mem_cons.1 ha.fits
      obtain ⟨hlengthB, hkeysB⟩ := forall_mem_cons.1 hb.fits
      simp only [bytes, cons_append, append_assoc] at h
      obtain ⟨hlen, hrest⟩ := lengthBytes_append_inj hlengthA hlengthB (cons_eq_cons.1 h).2
      obtain ⟨rfl, rfl⟩ := Argument.entryBytes_append_inj as bs hlen (forall_mem_map.1 hkeysA)
        (forall_mem_map.1 hkeysB) has hbs hrest
      exact ⟨rfl, rfl⟩
    | _ => cases kind_eq_of_bytes h
  | .predicate operator as, b, r, r', ha, hb, h => by
    cases b with
    | predicate other bs =>
      obtain ⟨ha, has⟩ := forall_mem_cons.1 ha
      obtain ⟨hb, hbs⟩ := forall_mem_cons.1 hb
      simp only [bytes, cons_append, append_assoc] at h
      obtain ⟨rfl, hlengths⟩ :=
        measuredBytes_append_inj (ha.fits _ mem_cons_self) (hb.fits _ mem_cons_self)
        (cons_eq_cons.1 h).2
      obtain ⟨hlen, hrest⟩ := lengthBytes_append_inj (ha.fits _ (by simp [Part.lengths, lengths]))
        (hb.fits _ (by simp [Part.lengths, lengths])) hlengths
      obtain ⟨rfl, rfl⟩ := Argument.bytesAll_append_inj as bs hlen has hbs hrest
      exact ⟨rfl, rfl⟩
    | _ => cases kind_eq_of_bytes h
  | .traversal is, b, r, r', ha, hb, h => by
    cases b with
    | traversal js =>
      obtain ⟨ha, his⟩ := forall_mem_cons.1 ha
      obtain ⟨hb, hjs⟩ := forall_mem_cons.1 hb
      simp only [bytes, cons_append, append_assoc] at h
      obtain ⟨hlen, hrest⟩ :=
        lengthBytes_append_inj (ha.fits _ mem_cons_self) (hb.fits _ mem_cons_self)
        (cons_eq_cons.1 h).2
      obtain ⟨rfl, rfl⟩ := Instruction.bytesAll_append_inj is js hlen his hjs hrest
      exact ⟨rfl, rfl⟩
    | _ => cases kind_eq_of_bytes h
  | .constant kind name, b, r, r', ha, hb, h => by
    cases b with
    | constant kind' name' =>
      have ha := fits ha
      have hb := fits hb
      simp only [bytes, cons_append, append_assoc] at h
      obtain ⟨rfl, hnames⟩ := measuredBytes_append_inj (ha _ mem_cons_self) (hb _ mem_cons_self)
        (cons_eq_cons.1 h).2
      obtain ⟨rfl, rfl⟩ :=
        measuredBytes_append_inj (ha _ (by simp [lengths])) (hb _ (by simp [lengths])) hnames
      exact ⟨rfl, rfl⟩
    | _ => cases kind_eq_of_bytes h

theorem Argument.bytesAll_append_inj : ∀ (as bs : List (Argument Int64)) {r r' : List UInt8},
    as.length = bs.length →
    AllReadable (partsAll as) → AllReadable (partsAll bs) → bytesAll as ++ r = bytesAll bs ++ r' →
      as = bs ∧ r = r'
  | [], [], r, r', _, _, _, h => ⟨rfl, h⟩
  | a :: as, b :: bs, r, r', hlen, ha, hb, h => by
    obtain ⟨ha, has⟩ := forall_mem_append.1 ha
    obtain ⟨hb, hbs⟩ := forall_mem_append.1 hb
    simp only [bytesAll, append_assoc] at h
    obtain ⟨rfl, hrest⟩ := Argument.bytes_append_inj a b ha hb h
    obtain ⟨rfl, rfl⟩ := Argument.bytesAll_append_inj as bs (Nat.succ.inj hlen) has hbs hrest
    exact ⟨rfl, rfl⟩

theorem Argument.entryBytes_append_inj :
    ∀ (as bs : List (String × Argument Int64)) {r r' : List UInt8},
    as.length = bs.length → (∀ entry ∈ as, (textBytes entry.1).length < UInt64.size) →
    (∀ entry ∈ bs, (textBytes entry.1).length < UInt64.size) →
    AllReadable (entryParts as) → AllReadable (entryParts bs) →
    entryBytes as ++ r = entryBytes bs ++ r' → as = bs ∧ r = r'
  | [], [], r, r', _, _, _, _, _, h => ⟨rfl, h⟩
  | (k, a) :: as, (l, b) :: bs, r, r', hlen, hkeys, hkeys', ha, hb, h => by
    obtain ⟨ha, has⟩ := forall_mem_append.1 ha
    obtain ⟨hb, hbs⟩ := forall_mem_append.1 hb
    simp only [entryBytes, append_assoc] at h
    obtain ⟨hkey, hval⟩ :=
      measuredBytes_append_inj (hkeys (k, a) mem_cons_self) (hkeys' (l, b) mem_cons_self) h
    obtain ⟨hab, hrest⟩ := Argument.bytes_append_inj a b ha hb hval
    obtain ⟨rfl, rfl⟩ := Argument.entryBytes_append_inj as bs (Nat.succ.inj hlen)
      (forall_mem_cons.1 hkeys).2 (forall_mem_cons.1 hkeys').2 has hbs hrest
    exact ⟨by rw [show k = l from hkey, hab], rfl⟩

theorem Instruction.bytesAll_append_inj : ∀ (is js : List (Instruction Int64)) {r r' : List UInt8},
    is.length = js.length → AllReadable (Instruction.partsAll is) → AllReadable
    (Instruction.partsAll js) →
    Instruction.bytesAll is ++ r = Instruction.bytesAll js ++ r' → is = js ∧ r = r'
  | [], [], r, r', _, _, _, h => ⟨rfl, h⟩
  | i :: is, j :: js, r, r', hlen, hi, hj, h => by
    obtain ⟨hi, his⟩ := forall_mem_append.1 hi
    obtain ⟨hj, hjs⟩ := forall_mem_append.1 hj
    simp only [Instruction.bytesAll, append_assoc] at h
    obtain ⟨rfl, hrest⟩ := Instruction.bytes_append_inj i j hi hj h
    obtain ⟨rfl, rfl⟩ := Instruction.bytesAll_append_inj is js (Nat.succ.inj hlen) his hjs hrest
    exact ⟨rfl, rfl⟩

end

/-! ## Programs -/

lemma Traversal.allReadable_bytecode {registry : Registry} {t : Traversal}
    (h : Traversal.IsValid registry t) (hfits : ∀ n ∈ (Program.bytecode (bytecode t)).lengths,
      n < UInt64.size) :
    AllReadable (Instruction.partsAll (bytecode t)) := by
  intro part hpart
  refine ⟨fun n hn => hfits n (mem_cons_of_mem _ (mem_flatMap.2 ⟨part, hpart, hn⟩)), ?_⟩
  rintro operator arguments rfl
  exact allProper_instructions .capped h.steps _ hpart

lemma Program.bytes_groovy (text : String) :
    (Program.groovy text).bytes = textBytes "groovy" ++ textBytes text := rfl

lemma Program.bytes_bytecode (code : Bytecode) :
    (Program.bytecode code).bytes = textBytes "bytecode" ++
    (lengthBytes code.length ++ Instruction.bytesAll code) := rfl

lemma Program.bytes_groovy_ne_bytecode (text : String) (code : Bytecode) :
    (Program.groovy text).bytes ≠ (Program.bytecode code).bytes := by
  have hg : textBytes "groovy" = 103 :: [114, 111, 111, 118, 121] := by decide
  have hb : textBytes "bytecode" = 98 :: [121, 116, 101, 99, 111, 100, 101] := by decide
  rw [bytes_groovy, bytes_bytecode, hg, hb]
  exact fun h => absurd (cons_eq_cons.1 h).1 (by decide)

/-- The bytes of a program determine it: two programs that have been written, each in its format and
for its engine, are the same if their bytes are, as long as all lengths in them fit in 64 bits. -/
theorem Program.eq_of_bytes_eq {registry registry' : Registry} {format format' : Format}
    {t t' : Traversal} {p p' : Program} (h : Program.emit registry format t = .ok p)
    (h' : Program.emit registry' format' t' = .ok p') (hfits : ∀ n ∈ p.lengths, n < UInt64.size)
    (hfits' : ∀ n ∈ p'.lengths, n < UInt64.size) (hbytes : p.bytes = p'.bytes) : p = p' := by
  obtain ⟨hvalid, -, hp⟩ := Program.emit_eq_ok.1 h
  obtain ⟨hvalid', -, hp'⟩ := Program.emit_eq_ok.1 h'
  rcases hp with rfl | rfl <;> rcases hp' with rfl | rfl
  · rw [bytes_groovy, bytes_groovy] at hbytes
    exact congrArg Program.groovy (textBytes_injective (List.append_cancel_left hbytes))
  · exact absurd hbytes (bytes_groovy_ne_bytecode _ _)
  · exact absurd hbytes.symm (bytes_groovy_ne_bytecode _ _)
  · rw [bytes_bytecode, bytes_bytecode] at hbytes
    obtain ⟨hlen, hcode⟩ :=
      lengthBytes_append_inj (hfits _ List.mem_cons_self) (hfits' _ List.mem_cons_self)
      (List.append_cancel_left hbytes)
    have hall :=
      Instruction.bytesAll_append_inj _ _ hlen (Traversal.allReadable_bytecode hvalid hfits)
      (Traversal.allReadable_bytecode hvalid' hfits') (congrArg (· ++ []) hcode)
    exact congrArg Program.bytecode hall.1

/-- Reading a label and reading an entry of a map are different steps with the same bytes, and so
the same program. -/
theorem Program.eq_of_bytes_eq_select :
    ∃ p p' : Program, Program.emit ⟨[], []⟩ .bytecode [.V, .select [.named "k"]] = .ok p ∧
      Program.emit .standard .bytecode [.V, .selectKey (.named "k")] = .ok p' ∧ p.bytes = p'.bytes ∧
      p = p' := by
  have h : Program.emit ⟨[], []⟩ .bytecode [.V, .select [.named "k"]] = .ok _ := rfl
  have h' : Program.emit .standard .bytecode [.V, .selectKey (.named "k")] = .ok _ := rfl
  exact ⟨_, _, h, h', rfl, Program.eq_of_bytes_eq h h' (by decide) (by decide) rfl⟩

end CypherGremlin
