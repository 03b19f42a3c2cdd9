import CypherGremlin.Proofs.Dialect.CustomSymbols
import CypherGremlin.Proofs.Dialect.Progress

/-!
# Normal forms of dialects

What a dialect gives is a normal form.  `Traversal.Tidy` and `Dialect.Normal` say what its steps
look like, in words of their own and not through the passes: which steps do not occur at all, which
do not stand next to each other, and which labels are put only where something refers to them.

A dialect stops where no pass changes anything (`Dialect.onTraversals_fixed`), so it is enough to
know for each pass which traversals it leaves as they are.  For the two passes that look at
neighbours, `Pass.dropBarriers_eq_self_iff` and `Pass.dropReselect_eq_self_iff` say so.

The result is `Dialect.apply_normal`: the normal form, and that a dialect has nothing to do on it.
-/

namespace CypherGremlin

variable {l : Label} {test : CustomPredicate} {s : Step}

open List

/-! ## What a normal form looks like -/

/-- The steps that wait for everything before they give anything. -/
inductive Step.TakesAll : Step → Prop
  | barrier : TakesAll .barrier
  | fold : TakesAll .fold
  | order (keys : List (Traversal × SortOrder)) : TakesAll (.order keys)
  | group (key value : Traversal) : TakesAll (.group key value)
  | count (scope : CountScope) : TakesAll (.count scope)

/-- The steps after which every traverser is at a node or a relationship. -/
inductive Step.GivesElement : Step → Prop
  | V : GivesElement .V
  | E : GivesElement .E
  | addV (label : Option String) : GivesElement (.addV label)
  | addE (type : String) (source target : Label) : GivesElement (.addE type source target)
  | outE (types : List String) : GivesElement (.outE types)
  | inE (types : List String) : GivesElement (.inE types)
  | bothE (types : List String) : GivesElement (.bothE types)
  | inV : GivesElement .inV
  | outV : GivesElement .outV
  | otherV : GivesElement .otherV
  | hasLabel (labels : List String) : GivesElement (.hasLabel labels)

/-- The labels with a number that only the lowering of queries puts. -/
inductive Label.IsNumbered : Label → Prop
  | generated (n : UInt32) : IsNumbered (.token (.generated n))
  | unnamed (n : UInt32) : IsNumbered (.token (.unnamed n))
  | freshId (n : UInt32) : IsNumbered (.token (.freshId n))

/-- The step selects the label, compares with it or takes an end of a new relationship from it. -/
inductive Step.RefersTo (l : Label) : Step → Prop
  | select {labels : List Label} (h : l ∈ labels) : RefersTo l (.select labels)
  | whereLabel (p : LabelComparison) : RefersTo l (.whereLabel p l)
  | source (name : String) (target : Label) : RefersTo l (.addE name l target)
  | target (name : String) (source : Label) : RefersTo l (.addE name source l)

/-- Custom tests of text that engines have built in. -/
inductive CustomPredicate.IsOfText : CustomPredicate → Prop
  | startsWith : IsOfText .startsWith
  | endsWith : IsOfText .endsWith
  | contains : IsOfText .contains

/-- The step lets through what passes the predicate. -/
inductive Step.TestsFor (p : Predicate) : Step → Prop
  | is : TestsFor p (.is p)
  | has (key : String) : TestsFor p (.has key p)

namespace Traversal

/-- No dialect but the empty one leaves more than this to tidy up. -/
structure Tidy (t : Traversal) : Prop where
  identity : .identity ∉ walk t
  barrier : ∀ u ∈ nested t, ∀ s, s.TakesAll → ¬ [.barrier, s] <:+: u
  reselection : ∀ u ∈ nested t, ∀ e l, e.GivesElement → ¬ [e, .as l, .select [l]] <:+: u
  label : ∀ l, l.IsNumbered → .as l ∈ walk t → ∃ s ∈ walk t, s.RefersTo l

end Traversal

/-- The programs that an engine takes as they are. -/
structure Dialect.Normal (name : DialectName) (t : Traversal) : Prop where
  tidy : name ≠ .empty → Traversal.Tidy t
  values : name = .cosmosdb → ∀ keys, .values keys ∉ Traversal.walk t
  text : name = .cosmosdb ∨ name = .neptune → ∀ test, test.IsOfText → ∀ argument,
    ∀ s ∈ Traversal.walk t, ¬ s.TestsFor (.custom test (some argument))
  function : name = .neptune → ∀ f, .apply f ∉ Traversal.walk t
  test : name = .neptune → ∀ test argument, ∀ s ∈ Traversal.walk t, ¬ s.TestsFor
    (.custom test argument)
  choice : name = .neptune → ∀ test argument yes no,
    .choose (.predicate (.custom test argument)) yes no ∉ Traversal.walk t

/-! ## What passes leave as it is -/

namespace Pass

variable {u : Traversal}

lemma gathers_iff : gathers s = true ↔ s.TakesAll := by
  constructor
  · intro h
    cases s <;> first | constructor | simp [gathers] at h
  · rintro (_ | _ | _ | _ | _) <;> rfl

lemma givesElement_iff : givesElement s = true ↔ s.GivesElement := by
  constructor
  · intro h
    cases s <;> first | constructor | simp [givesElement] at h
  · rintro (_ | _ | _ | _ | _ | _ | _ | _ | _ | _ | _) <;> rfl

lemma isSynthetic_iff : l.isSynthetic = true ↔ l.IsNumbered := by
  constructor
  · intro h
    cases l with
    | named _ => simp [Label.isSynthetic] at h
    | token t => cases t <;> first | constructor | simp [Label.isSynthetic, Token.isSynthetic] at h
  · rintro (_ | _ | _) <;> rfl

lemma mem_uses_iff : l ∈ uses s ↔ s.RefersTo l := by
  constructor
  · intro h
    cases s with
    | select labels => exact .select h
    | whereLabel p l' =>
      obtain rfl := mem_singleton.1 h
      exact .whereLabel p
    | addE name source target =>
      rcases mem_pair.1 h with rfl | rfl
      · exact .source name target
      · exact .target name source
    | _ => simp [uses] at h
  · rintro (h | _ | _ | _)
    · exact h
    all_goals simp [uses]

lemma identity_notMem_of_eq_self (h : dropIdentity u = u) : .identity ∉ u := by
  intro hmem
  simpa [isIdentity] using filter_eq_self.1 h _ hmem

/-- A step in front makes no difference, unless it is a barrier and the next one waits by itself. -/
lemma forall_not_infix_cons_iff {rest : Traversal}
    (hs : s = .barrier → ∀ next ∈ rest.head?, ¬ next.TakesAll) :
    (∀ x, x.TakesAll → ¬ [.barrier, x] <:+: s :: rest) ↔ ∀ x, x.TakesAll → ¬
    [.barrier, x] <:+: rest := by
  refine forall₂_congr fun x hx => not_congr ?_
  rw [infix_cons_iff, or_iff_right]
  rintro ⟨tail, htail⟩
  obtain ⟨rfl, rfl⟩ := List.cons.inj htail
  exact hs rfl x (by simp) hx

/-- Barriers stay unless they stand in front of a step that waits by itself. -/
theorem dropBarriers_eq_self_iff :
    dropBarriers u = u ↔ ∀ s, s.TakesAll → ¬ [.barrier, s] <:+: u := by
  fun_induction dropBarriers u with
  | case1 => simp
  | case2 next rest hnext _ =>
    have hne := (edits_dropBarriers [] (next :: rest)).reduces.ne_cons (s := .barrier) rfl
    refine iff_of_false hne fun h => h next (gathers_iff.1 hnext) ?_
    exact (prefix_append [.barrier, next] rest).isInfix
  | case3 next rest hnext ih =>
    have hs : ∀ x ∈ (next :: rest).head?, ¬ x.TakesAll := by simpa [← gathers_iff] using hnext
    rw [List.cons.injEq, eq_self, true_and, forall_not_infix_cons_iff fun _ => hs]
    exact ih
  | case4 s rest hother ih =>
    have hs : s = .barrier → ∀ x ∈ rest.head?, ¬ x.TakesAll := by
      rintro rfl x hx
      obtain ⟨tail, rfl⟩ := head?_eq_some_iff.1 hx
      exact absurd rfl (hother x tail rfl)
    rw [List.cons.injEq, eq_self, true_and, forall_not_infix_cons_iff hs]
    exact ih

/-- Steps stay unless they select what has just been labelled. -/
lemma dropReselectAfter_eq_self_iff {before : List Step} : dropReselectAfter before u = u ↔
    ∀ a s b, u = a ++ s :: b → selectsJustLabelled (a.reverse ++ before) s = false := by
  fun_induction dropReselectAfter before u with
  | case1 => simp
  | case2 before s rest hs ih =>
    have hpending : s.isPending = true := by
      obtain ⟨l, e, before', -, rfl, -⟩ := selectsJustLabelled_iff.1 hs
      rfl
    have hne := (edits_dropReselectAfter before rest).reduces.ne_cons hpending
    refine iff_of_false hne fun h => ?_
    simpa [hs] using h [] s rest rfl
  | case3 before s rest hs ih =>
    rw [List.cons.injEq, eq_self, true_and, ih]
    constructor
    · intro h a x b heq
      cases a with
      | nil =>
        obtain ⟨rfl, -⟩ := List.cons.inj heq
        simpa using hs
      | cons s' a =>
        obtain ⟨rfl, hrest⟩ := List.cons.inj heq
        simpa using h a x b hrest
    · intro h a x b heq
      simpa using h (s :: a) x b (by rw [heq, cons_append])

theorem dropReselect_eq_self_iff : dropReselect u = u ↔ ∀ e l, e.GivesElement →
    ¬ [e, .as l, .select [l]] <:+: u := by
  rw [dropReselect, dropReselectAfter_eq_self_iff]
  constructor
  · rintro h e l he ⟨a, b, rfl⟩
    have hselects := h (a ++ [e, .as l]) (.select [l]) b (by simp)
    simp [selectsJustLabelled, givesElement_iff.2 he] at hselects
  · intro h a s b heq
    rw [Bool.eq_false_iff]
    intro hselects
    obtain ⟨l, e, rest, hbefore, rfl, he⟩ := selectsJustLabelled_iff.1 hselects
    have ha : a = rest.reverse ++ [e, .as l] := by
      rw [append_nil] at hbefore
      rw [← reverse_reverse a, hbefore]
      simp
    exact h e l (givesElement_iff.1 he) ⟨rest.reverse, b, by simp [heq, ha]⟩

lemma values_notMem_of_eq_self (h : readViaProperties u = u) (keys : List String) :
    .values keys ∉ u := by
  rw [← h, readViaProperties, mem_flatMap]
  rintro ⟨s, -, hs⟩
  revert hs
  fun_cases viaProperties s with
  | case1 | case2 => simp
  | case3 s _ hmany => exact fun hs => hmany keys (mem_singleton.1 hs).symm

lemma nativePredicate_ne_self (h : test.IsOfText) (argument : Value) :
    nativePredicate (.custom test (some argument)) ≠ .custom test (some argument) := by
  cases h <;> simp [nativePredicate, nativeTest?]

lemma not_testsFor_of_eq_self (h : useNativeTests u = u) (htest : test.IsOfText)
    (argument : Value) : ∀ s ∈ u, ¬ s.TestsFor (.custom test (some argument)) := by
  have hfixed : ∀ s ∈ u, nativeStep s = s :=
    map_inj_left.1 (show u.map nativeStep = u.map id by rwa [map_id])
  rintro s hs (_ | key)
  · exact nativePredicate_ne_self htest argument (Step.is.inj (hfixed _ hs))
  · exact nativePredicate_ne_self htest argument (Step.has.inj (hfixed _ hs)).2

end Pass

namespace Dialect

open Traversal

variable {name : DialectName} {t t' : Traversal}

lemma mem_onTraversals_of_mem_tidying (hname : name ≠ .empty) {pass : Pass}
    (hpass : pass ∈ tidying) : pass ∈ (ofName name).onTraversals := by
  cases name with
  | gremlin => exact hpass
  | cosmosdb | neptune => exact mem_append_left _ hpass
  | empty => exact absurd rfl hname

lemma tidy_of_round_eq (hname : name ≠ .empty) (h : (ofName name).round t = .ok t) : Tidy t where
  identity := by
    have hfixed := onTraversals_fixed h (mem_onTraversals_of_mem_tidying hname (.head _)) rfl
    have hall : ∀ s ∈ walk t, s ≠ .identity := forall_mem_walk_iff_nested.2 fun u hu s hs heq =>
      Pass.identity_notMem_of_eq_self (hfixed u hu) (heq ▸ hs)
    exact fun hmem => hall _ hmem rfl
  barrier u hu := by
    have hmem : .barriers ∈ (ofName name).onTraversals :=
      mem_onTraversals_of_mem_tidying hname (by simp [tidying])
    exact Pass.dropBarriers_eq_self_iff.1 (onTraversals_fixed h hmem rfl u hu)
  reselection u hu := by
    have hmem : .reselection ∈ (ofName name).onTraversals :=
      mem_onTraversals_of_mem_tidying hname (by simp [tidying])
    exact Pass.dropReselect_eq_self_iff.1 (onTraversals_fixed h hmem rfl u hu)
  label l hl hput := by
    have hmem : .unusedLabels ∈ (ofName name).onProgram := by
      cases name <;> first | exact .head _ | exact absurd rfl hname
    have hfixed : Pass.dropUnusedLabels t = t := Except.ok.inj (onProgram_fixed h hmem)
    have hkept : ∀ s ∈ walk t, Pass.putsUnused ((walk t).flatMap Pass.uses) s = false := by
      refine forall_mem_walk_iff_nested.2 fun u hu s hs => ?_
      simpa using filter_eq_self.1
        (Reduces.forall_mem_nested_eq (fun t => (Pass.edits_filter_putsUnused _ t).reduces) hfixed u
        hu) s hs
    by_contra hunused
    have hnotMem : l ∉ (walk t).flatMap Pass.uses := by simpa [Pass.mem_uses_iff] using hunused
    have hdropped := Pass.putsUnused_iff.2 ⟨l, rfl, Pass.isSynthetic_iff.2 hl, hnotMem⟩
    exact absurd (hkept _ hput) (by simp [hdropped])

/-- A program that a round leaves as it is is one that the engine takes as it is. -/
theorem normal_of_round_eq (h : (ofName name).round t = .ok t) : Normal name t := by
  have hcustom : name = .neptune → ∀ s ∈ walk t, ∀ symbol, ¬ s.UsesSymbol symbol := by
    rintro rfl s hs symbol
    have hmem : .customSymbols ∈ (ofName .neptune).onProgram := by simp [ofName, neptune]
    obtain ⟨_, hrefuse, -⟩ := bind_eq_ok.1 (onProgram_fixed h hmem)
    exact Pass.not_usesSymbol_of_refuseCustomSymbols hrefuse hs
  constructor
  case tidy => exact fun hname => tidy_of_round_eq hname h
  case values =>
    rintro rfl keys hmem
    have haccess : .propertyAccess ∈ (ofName .cosmosdb).onTraversals := by simp [ofName, cosmosdb]
    have hfixed := onTraversals_fixed h haccess rfl
    have hall : ∀ s ∈ walk t, s ≠ .values keys := forall_mem_walk_iff_nested.2 fun u hu s hs heq =>
      Pass.values_notMem_of_eq_self (hfixed u hu) keys (heq ▸ hs)
    exact hall _ hmem rfl
  case text =>
    intro hname test htest argument
    have hmem : .nativeTests ∈ (ofName name).onTraversals := by
      rcases hname with rfl | rfl <;> simp [ofName, cosmosdb, neptune]
    have hfixed := onTraversals_fixed h hmem rfl
    exact forall_mem_walk_iff_nested.2 fun u hu =>
      Pass.not_testsFor_of_eq_self (hfixed u hu) htest argument
  case function => exact fun hname f hmem => hcustom hname _ hmem _ (.apply f)
  case test =>
    rintro hname test argument s hs (_ | key)
    · exact hcustom hname _ hs _ (.is test argument)
    · exact hcustom hname _ hs _ (.has key test argument)
  case choice =>
    exact fun hname test argument yes no hmem =>
      hcustom hname _ hmem _ (.choose test argument yes no)

lemma applyTo_eq_ok {dialect : Dialect} :
    dialect.applyTo t = .ok t' ↔ dialect.rounds maxRounds t = .ok (some t') ∧
      checkLabels t' = .ok () := by
  rw [applyTo, bind_eq_ok]
  constructor
  · rintro ⟨settled, hrounds, h⟩
    cases settled with
    | none => cases h
    | some settled =>
      obtain ⟨_, hlabels, h⟩ := bind_eq_ok.1 h
      obtain rfl := pure_eq_ok.1 h
      exact ⟨hrounds, hlabels⟩
  · rintro ⟨hrounds, hlabels⟩
    exact ⟨some t', hrounds, bind_eq_ok.2 ⟨(), hlabels, rfl⟩⟩

/-- A dialect gives a program that its engine takes as it is, and gives back such a program
unchanged. -/
theorem apply_normal {s s' : Statement} (h : (ofName name).apply s = .ok s') :
    Normal name s'.traversal ∧ (ofName name).apply s' = .ok s' := by
  obtain ⟨t', happly, hs'⟩ := bind_eq_ok.1 h
  obtain rfl := pure_eq_ok.1 hs'
  obtain ⟨hrounds, hlabels⟩ := applyTo_eq_ok.1 happly
  obtain ⟨hround, hsame⟩ := fixed_of_rounds maxRounds s.traversal (some t') hrounds t' rfl
  refine ⟨normal_of_round_eq hround, ?_⟩
  have hstop : (ofName name).rounds maxRounds t' = .ok (some t') := by
    rw [maxRounds, rounds, hround]
    exact if_pos hsame
  have hagain : (ofName name).applyTo t' = .ok t' := applyTo_eq_ok.2 ⟨hstop, hlabels⟩
  exact bind_eq_ok.2 ⟨t', hagain, rfl⟩

/-- Ten steps become seven: it takes a round to drop the number on the nodes, after which it is seen
that their name is selected again for nothing. -/
theorem apply_normal_reselected : ∃ s' : Statement,
    (ofName .cosmosdb).apply ⟨[.V, .as (.token (.generated 0)), .as (.named "n"),
      .select [.named "n"],
      .values ["name"], .is (.custom .startsWith (some (.string "A"))), .identity, .barrier,
      .barrier, .fold], []⟩ = .ok s' ∧
      s'.traversal.length = 7 ∧ Normal .cosmosdb s'.traversal ∧ (ofName .cosmosdb).apply s' =
      .ok s' := by
  obtain ⟨s', h, hlen⟩ : ∃ s' : Statement, (ofName .cosmosdb).apply
    ⟨[.V, .as (.token (.generated 0)),
      .as (.named "n"), .select [.named "n"], .values ["name"],
      .is (.custom .startsWith (some (.string "A"))),
      .identity, .barrier, .barrier, .fold], []⟩ = .ok s' ∧ s'.traversal.length = 7 := by
      decide +kernel
  exact ⟨s', h, hlen, apply_normal h⟩

end Dialect

end CypherGremlin
