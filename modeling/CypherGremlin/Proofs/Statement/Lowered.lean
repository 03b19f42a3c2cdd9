import CypherGremlin.Proofs.Dialect.Meaning
import CypherGremlin.Proofs.Traversal.Text

/-!
# What lowering produces

Lowering puts steps together in a few ways only, and each step takes its texts and labels from
places where they have been checked.  `Lowered T t` is the grammar of what it can produce.  Two
things come from the query as they are: the types of the relationships that a traversal follows,
which are the one exception to the rule that no text looks like a token, and the names of
parameters.  `T` says which they may be.

A label with a number for an intermediate result is put only to be compared with at once, and the
grammar has the two steps together in one rule.  This matters for a pass that drops unused labels.

* `Lowered.texts_plain`, `Lowered.types_plain` and `Lowered.labels_clean` say what follows for the
  texts in a traversal;
* `Lowered.disciplined` says what follows for the way in which its labels are used;
* `Lowered.forall_mem_walk` says what every step is like, which is what writing the traversal asks
  for.
-/

namespace CypherGremlin

open List Step Traversal

/-! ## Steps -/

/-- The text does not begin like an encoded token. -/
def Plain (text : String) : Prop := isReserved text = false

instance : DecidablePred Plain := fun text => inferInstanceAs (Decidable (isReserved text = false))

/-- What a query brings into a traversal without a check. -/
structure Sources where
  /-- Types of relationships in patterns that are tests. -/
  types : String → Prop
  parameters : String → Prop
  /-- Numbers by which rows are paged. -/
  bounds : Nat → Prop

namespace Value

/-- A number is finite, and a parameter is one of the query's. -/
def Admissible (T : Sources) : Value → Prop
  | .float x => x.isFinite = true
  | .parameter name => T.parameters name
  | _ => True

/-- No text of the constant begins like an encoded token, and its numbers and parameters are
admissible. -/
structure Sound (T : Sources) (v : Value) : Prop where
  plain : ∀ text ∈ v.texts, Plain text
  admissible : ∀ leaf ∈ v.leaves, leaf.Admissible T

namespace Sound

variable {T : Sources}

/-- A constant that holds no others is sound when its own text and data are. -/
lemma of_leaf {v : Value} (hleaf : v.leaves = [v]) (hplain : ∀ text ∈ v.texts, Plain text)
    (h : v.Admissible T) : Sound T v where
  plain := hplain
  admissible := by
    rw [hleaf]
    exact forall_mem_singleton.2 h

lemma token (t : Token) : Sound T (.token t) := of_leaf rfl (forall_mem_nil _) trivial

lemma null : Sound T .null := token _

lemma bool (b : Bool) : Sound T (.bool b) := of_leaf rfl (forall_mem_nil _) trivial

lemma int (i : Int64) : Sound T (.int i) := of_leaf rfl (forall_mem_nil _) trivial

lemma float {x : Binary64} (h : x.isFinite = true) : Sound T (.float x) :=
  of_leaf rfl (forall_mem_nil _) h

lemma string {s : String} (h : Plain s) : Sound T (.string s) :=
  of_leaf rfl (forall_mem_singleton.2 h) trivial

lemma parameter {name : String} (h : Plain name) (hT : T.parameters name) :
    Sound T (.parameter name) :=
  of_leaf rfl (forall_mem_singleton.2 h) hT

lemma list {vs : List Value} (h : ∀ v ∈ vs, v.Sound T) : Sound T (.list vs) where
  plain := by
    rw [texts, allTexts_eq]
    exact forall_mem_flatMap.2 fun v hv => (h v hv).plain
  admissible := by
    rw [leaves, allLeaves_eq]
    exact forall_mem_flatMap.2 fun v hv => (h v hv).admissible

lemma map {entries : List (String × Value)}
    (h : ∀ entry ∈ entries, Plain entry.1 ∧ entry.2.Sound T) : Sound T (.map entries) := by
  induction entries with
  | nil => exact ⟨forall_mem_nil _, forall_mem_nil _⟩
  | cons entry rest ih =>
    obtain ⟨⟨hkey, hval⟩, hrest⟩ := forall_mem_cons.1 h
    refine ⟨?_, ?_⟩
    · rw [texts, entryTexts, forall_mem_cons, forall_mem_append]
      exact ⟨hkey, hval.plain, (ih hrest).plain⟩
    · rw [leaves, entryLeaves, forall_mem_append]
      exact ⟨hval.admissible, (ih hrest).admissible⟩

end Sound

end Value

def Predicate.Sound (T : Sources) (p : Predicate) : Prop := ∀ v ∈ p.operands, v.Sound T

lemma Predicate.Sound.texts {T : Sources} {p : Predicate} (h : p.Sound T) :
    ∀ text ∈ p.texts, Plain text := by
  rw [Predicate.texts, Value.allTexts_eq]
  exact forall_mem_flatMap.2 fun v hv => (h v hv).plain

namespace Label

def IsBucket (l : Label) : Prop := l = .token .delete ∨ l = .token .detachDelete

/-- The label can be put on an object and stay there: it is no bucket and does not mark an
intermediate result. -/
def CanStay (l : Label) : Prop := l.Clean ∧ ¬ l.IsBucket ∧ ∀ n, l ≠ .token (.generated n)

/-- The label is a name of the query or marks an intermediate result. -/
def IsEntry (l : Label) : Prop := (∃ name, l = .named name) ∨ ∃ n, l = .token (.generated n)

end Label

/-- What lowering guarantees of the data of a single step. -/
def Step.Own (T : Sources) : Step → Prop
  | .addV l => ∀ text ∈ l.toList, Plain text
  | .addE type source target => Plain type ∧ source.Clean ∧ target.Clean
  | .property k v => Plain k ∧ v.Sound T
  | .propertyFrom k _ | .hasNot k | .hasKey k => Plain k
  | .outE types | .inE types | .bothE types => ∀ type ∈ types, Plain type ∨ T.types type
  | .has k p => Plain k ∧ p.Sound T
  | .hasLabel texts | .values texts | .properties texts => ∀ text ∈ texts, Plain text
  | .is p | .choose (.predicate p) _ _ => p.Sound T
  | .whereLabel _ l | .cap l => l.Clean
  | .as l => l.CanStay
  | .select labels => ∀ l ∈ labels, l.Clean
  | .selectKey l => l.Clean ∧ l.IsEntry
  | .constant v => v.Sound T
  | .inject vs => ∀ v ∈ vs, v.Sound T
  | .project entries => entries ≠ [] ∧ ∀ entry ∈ entries, entry.1.Clean
  | .union branches | .coalesce branches => branches ≠ []
  | .aggregate l => l.IsBucket
  | .limit n | .skip n => n = 0 ∨ T.bounds n.toNat
  | .range low high => T.bounds low.toNat ∧ T.bounds high.toNat
  | _ => True

/-! ## The grammar -/

inductive Lowered (T : Sources) : Traversal → Prop
  | nil : Lowered T []
  | step {s : Step} (own : s.Own T) (children : ∀ t ∈ s.children, Lowered T t) : Lowered T [s]
  | append {a b : Traversal} : Lowered T a → Lowered T b → Lowered T (a ++ b)
  /-- The right side of a comparison is labelled, and the left side is compared with the label. -/
  | compare {right left : Traversal} (comparison : LabelComparison) (n : UInt32) :
    Lowered T right → Lowered T left →
      Lowered T (right ++ [.as (.token (.generated n))] ++ left ++
      [.whereLabel comparison (.token (.generated n))])

namespace Lowered

variable {T : Sources} {t : Traversal}

lemma children {s : Step} (h : Lowered T [s]) : ∀ t ∈ s.children, Lowered T t := by
  generalize heq : [s] = t at h
  induction h with
  | nil => simp at heq
  | step own children =>
    obtain rfl : s = _ := by simpa using heq
    exact children
  | append ha hb iha ihb =>
    rcases append_eq_singleton_iff.1 heq.symm with ⟨rfl, rfl⟩ | ⟨rfl, rfl⟩
    · exact ihb rfl
    · exact iha rfl
  | compare comparison n _ _ => exact absurd (congrArg List.length heq) (by simp; omega)

lemma flatten {ts : List Traversal} (h : ∀ t ∈ ts, Lowered T t) : Lowered T ts.flatten := by
  induction ts with
  | nil => exact .nil
  | cons t rest ih =>
    obtain ⟨ht, hrest⟩ := forall_mem_cons.1 h
    exact .append ht (ih hrest)

/-- Steps that each can be produced can be produced one after another. -/
lemma of_forall (h : ∀ s ∈ t, Lowered T [s]) : Lowered T t := by
  induction t with
  | nil => exact .nil
  | cons s rest ih =>
    obtain ⟨hs, hrest⟩ := forall_mem_cons.1 h
    exact .append hs (ih hrest)

lemma leaf {s : Step} (own : s.Own T) (h : s.children = []) : Lowered T [s] :=
  .step own (by simp [h])

/-! ## Consequences -/

/-- What holds of the data of single steps holds of all data. -/
lemma forall_mem_collect {α : Type} {g : Step → List α} {Q : α → Prop}
    (hstep : ∀ s : Step, s.Own T → ∀ a ∈ g s, Q a)
    (hput : ∀ n, ∀ a ∈ g (.as (.token (.generated n))), Q a)
    (hcompare : ∀ c n, ∀ a ∈ g (.whereLabel c (.token (.generated n))), Q a) (h : Lowered T t) :
    ∀ a ∈ collect g t, Q a := by
  induction h with
  | nil => simp
  | step own _ ih =>
    simp only [collect_cons, collect_nil, append_nil, forall_mem_append]
    exact ⟨hstep _ own, forall_mem_flatMap.2 ih⟩
  | append _ _ iha ihb =>
    rw [collect_append]
    exact forall_mem_append.2 ⟨iha, ihb⟩
  | compare c n _ _ ihright ihleft =>
    simp only [collect_append, collect_cons, collect_nil, forall_mem_append, append_nil]
    refine ⟨⟨⟨ihright, hput n, ?_⟩, ihleft⟩, hcompare c n, ?_⟩ <;> simp [Step.children]

lemma forall_mem_walk {P : Step → Prop} (hstep : ∀ s : Step, s.Own T → P s)
    (hput : ∀ n, P (.as (.token (.generated n))))
    (hcompare : ∀ c n, P (.whereLabel c (.token (.generated n)))) (h : Lowered T t) :
    ∀ s ∈ walk t, P s := by
  have hall : ∀ s ∈ collect (fun s => [s]) t, P s :=
    h.forall_mem_collect (fun s own => forall_mem_singleton.2 (hstep s own))
      (fun n => forall_mem_singleton.2 (hput n)) fun c n => forall_mem_singleton.2 (hcompare c n)
  simpa [collect] using hall

theorem texts_plain (h : Lowered T t) : ∀ text ∈ collect texts t, Plain text := by
  refine h.forall_mem_collect (fun s own => ?_) (by simp [texts]) (by simp [texts])
  cases s with
  | choose c _ _ =>
    cases c with
    | predicate p => exact Predicate.Sound.texts own
    | traversal _ => simp [texts]
  | is p => exact Predicate.Sound.texts own
  | has k p => exact forall_mem_cons.2 ⟨own.1, own.2.texts⟩
  | inject vs =>
    rw [texts, Value.allTexts_eq]
    exact forall_mem_flatMap.2 fun v hv => (own v hv).plain
  | constant v => exact own.plain
  | property k v => exact forall_mem_cons.2 ⟨own.1, own.2.plain⟩
  | addE type _ _ => exact forall_mem_singleton.2 own.1
  | propertyFrom k _ | hasNot k | hasKey k => exact forall_mem_singleton.2 own
  | addV _ | hasLabel _ | values _ | properties _ => exact own
  | _ => simp [texts]

theorem types_plain (h : Lowered T t) : ∀ type ∈ collect edgeTypes t, Plain type ∨
    T.types type := by
  refine h.forall_mem_collect (fun s own => ?_) (by simp [edgeTypes]) (by simp [edgeTypes])
  cases s with
  | outE _ | inE _ | bothE _ => exact own
  | _ => simp [edgeTypes]

lemma clean_of_isBucket {l : Label} (h : l.IsBucket) : l.Clean := by
  rcases h with rfl | rfl <;> trivial

theorem labels_clean (h : Lowered T t) : ∀ l ∈ collect labels t, l.Clean := by
  refine h.forall_mem_collect (fun s own => ?_) (by simp [labels, Label.Clean])
    (by simp [labels, Label.Clean])
  cases s with
  | aggregate l => simpa [labels] using clean_of_isBucket own
  | project entries =>
    intro l hl
    obtain ⟨entry, hentry, rfl⟩ := mem_map.1 hl
    exact own.2 entry hentry
  | addE _ source target => exact forall_mem_cons.2 ⟨own.2.1, forall_mem_singleton.2 own.2.2⟩
  | «as» _ | selectKey _ => exact forall_mem_singleton.2 own.1
  | whereLabel _ _ | cap _ => exact forall_mem_singleton.2 own
  | select _ => exact own
  | _ => simp [labels]

/-- What lowering guarantees of a mention of a label. -/
def Lawful (m : Mention) : Prop :=
  m.label.Clean ∧ match m with
    | .put l => ¬ l.IsBucket
    | .filled l => l.IsBucket
    | .keyed l => l.IsEntry
    | .read _ | .compared _ => True

lemma mentions_lawful (h : Lowered T t) : ∀ m ∈ Traversal.mentions t, Lawful m := by
  refine h.forall_mem_collect (fun s own => ?_) ?_ ?_
  · cases s with
    | aggregate l => exact forall_mem_singleton.2 ⟨clean_of_isBucket own, own⟩
    | «as» l => exact forall_mem_singleton.2 ⟨own.1, own.2.1⟩
    | selectKey l => exact forall_mem_singleton.2 own
    | whereLabel _ l => exact forall_mem_singleton.2 ⟨own, trivial⟩
    | select ls => exact forall_mem_map.2 fun l hl => ⟨own l hl, trivial⟩
    | addE _ source target =>
      exact forall_mem_cons.2 ⟨⟨own.2.1, trivial⟩, forall_mem_singleton.2 ⟨own.2.2, trivial⟩⟩
    | _ => simp [Step.mentions]
  · simp [Step.mentions, Lawful, Mention.label, Label.Clean, Label.IsBucket]
  · simp [Step.mentions, Lawful, Mention.label, Label.Clean]

lemma compared_of_put (h : Lowered T t) {n : UInt32}
    (hput : .put (.token (.generated n)) ∈ Traversal.mentions t) :
    .compared (.token (.generated n)) ∈ Traversal.mentions t := by
  induction h with
  | nil => simp at hput
  | step own _ ih =>
    simp only [mentions_cons, mentions_nil, append_nil, mem_append, mem_flatMap] at hput ⊢
    rcases hput with hput | ⟨t, ht, hput⟩
    · rename_i s _
      cases s with
      | as l =>
        obtain rfl : .token (.generated n) = l := by simpa [Step.mentions] using hput
        exact absurd rfl (own.2.2 n)
      | _ => simp [Step.mentions] at hput
    · exact .inr ⟨t, ht, ih t ht hput⟩
  | append _ _ iha ihb =>
    rw [mentions_append, mem_append] at hput ⊢
    exact hput.imp iha ihb
  | compare c k _ _ ihright ihleft =>
    simp only [mentions_append, mentions_cons, mentions_nil, Step.mentions,
      Step.children, mem_append, flatMap_nil, append_nil, mem_singleton,
      Mention.put.injEq, reduceCtorEq, or_false] at hput ⊢
    rcases hput with (hput | hput) | hput
    · exact .inl (.inl (ihright hput))
    · rw [Mention.compared.injEq]
      exact .inr hput
    · exact .inl (.inr (ihleft hput))

lemma not_isBucketName {l : Label} (hclean : l.Clean) (h : ¬ l.IsBucket) :
    ¬ IsBucketName l.encode := by
  rintro (heq | heq)
  · exact h (.inl (Label.encode_inj hclean (show Label.Clean (.token .delete) from trivial) heq))
  · exact h
      (.inr (Label.encode_inj hclean (show Label.Clean (.token .detachDelete) from trivial) heq))

theorem disciplined (h : Lowered T t) : Disciplined (Traversal.mentions t) where
  clean m hm := (h.mentions_lawful m hm).1
  put l hl := not_isBucketName (h.mentions_lawful _ hl).1 (h.mentions_lawful _ hl).2
  filled l hl := by
    rcases (h.mentions_lawful _ hl).2 with rfl | rfl
    · exact .inl rfl
    · exact .inr rfl
  keyed l hkeyed hput hsynthetic := by
    -- A name of the query is not numbered, and a numbered entry that is a label is compared with.
    rcases (h.mentions_lawful _ hkeyed).2 with ⟨name, rfl⟩ | ⟨n, rfl⟩
    · simp [Label.isSynthetic] at hsynthetic
    · exact h.compared_of_put hput

end Lowered

end CypherGremlin
