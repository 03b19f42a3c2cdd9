import CypherGremlin.Proofs.Dialect.NormalForm
import CypherGremlin.Proofs.Dialect.Validity

/-!
# Where custom tests stay

The pass that puts built-in tests of text in place of custom ones looks at fewer places than the
check that refuses custom symbols: it leaves the conditions of choices as they are.
`Pass.useNativeTests_leaves` says which custom tests are left after it, at any depth, and so when
the check still names them.
-/

namespace CypherGremlin

open List Traversal

variable {s : Step} {test : CustomPredicate} {argument : Option Value} {t : Traversal}

/-- The step holds the predicate, as its test or as the condition of its choice. -/
inductive Step.Poses (p : Predicate) : Step → Prop
  | test {s : Step} (h : s.TestsFor p) : Poses p s
  | choice (yes no : Traversal) : Poses p (.choose (.predicate p) yes no)

/-- A change of each step by itself, which leaves what is inside, changes the steps at any depth one
by one. -/
lemma Traversal.walk_mapBottomUp_map {g : Step → Step} (hg : ∀ s, (g s).children = s.children)
    (t : Traversal) :
    walk (mapBottomUp (map g) t) = (walk t).map fun s => g (s.mapInside (map g)) := by
  induction t using inductChildren with
  | nil => rfl
  | cons s rest hchild hrest =>
    have hinside : (s.children.map (mapBottomUp (map g))).flatMap walk =
        (s.children.flatMap walk).map fun s => g (s.mapInside (map g)) := by
      rw [flatMap_map, map_flatMap]
      exact flatMap_congr hchild
    rw [mapBottomUp] at hrest ⊢
    rw [mapInside, map_cons, walk, walk, hrest, Step.walk_eq, Step.walk_eq, hg,
      Step.children_mapInside, hinside, map_append, map_cons]

lemma Step.poses_iff {p : Predicate} : s.Poses p ↔ s.ownPredicate? = some p := by
  constructor
  · rintro (⟨_ | _⟩ | _) <;> rfl
  · intro h
    rw [Step.ownPredicate?.eq_def] at h
    split at h <;> cases h
    exacts [.test (.has _), .test .is, .choice _ _]

/-- No custom function has the name of a test of text. -/
lemma Step.usesSymbol_iff_poses (htest : test.IsOfText) :
    s.UsesSymbol test.name ↔ ∃ argument, s.Poses (.custom test argument) := by
  have hfun : ∀ f : CustomFunction, test.name ≠ f.name := by
    rintro (_ | _) <;> cases htest <;> decide
  have hinj : ∀ p : CustomPredicate, test.name = p.name → p = test := by
    rintro (_ | _) <;> cases htest <;> decide
  constructor
  · intro h
    generalize hname : test.name = name at h
    cases h with
    | apply f => exact absurd hname (hfun f)
    | is p argument => exact hinj p hname ▸ ⟨argument, .test .is⟩
    | has key p argument => exact hinj p hname ▸ ⟨argument, .test (.has key)⟩
    | choose p argument yes no => exact hinj p hname ▸ ⟨argument, .choice yes no⟩
  · rintro ⟨argument, ⟨_ | key⟩ | ⟨yes, no⟩⟩
    exacts [.is test argument, .has key test argument, .choose test argument yes no]

namespace Pass

/-- The pass puts no custom test anywhere.  It leaves a test that is not built in, and all
conditions of choices. -/
lemma poses_nativeStep_iff :
    (nativeStep (s.mapInside useNativeTests)).Poses (.custom test argument) ↔
    (s.TestsFor (.custom test argument) ∧ nativePredicate (.custom test argument) =
      .custom test argument) ∨
        ∃ yes no, s = .choose (.predicate (.custom test argument)) yes no := by
  constructor
  · intro h
    have hp := Step.poses_iff.1 h
    cases s with
    | is p =>
      obtain rfl := eq_custom_of_nativePredicate (Option.some.inj hp)
      exact .inl ⟨.is, Option.some.inj hp⟩
    | has key p =>
      obtain rfl := eq_custom_of_nativePredicate (Option.some.inj hp)
      exact .inl ⟨.has key, Option.some.inj hp⟩
    | choose c yes no =>
      cases c with
      | predicate p => exact .inr ⟨yes, no, Option.some.inj hp ▸ rfl⟩
      | traversal c => cases hp
    | _ => cases hp
  · rintro (⟨_ | key, h⟩ | ⟨yes, no, rfl⟩)
    · exact Step.poses_iff.2 (congrArg some h)
    · exact Step.poses_iff.2 (congrArg some h)
    · exact .choice _ _

lemma exists_poses_useNativeTests_iff :
    (∃ s, Occurs s (mapBottomUp useNativeTests t) ∧ s.Poses (.custom test argument)) ↔
      ((∃ s, Occurs s t ∧ s.TestsFor (.custom test argument)) ∧
        nativePredicate (.custom test argument) = .custom test argument) ∨
      ∃ yes no, Occurs (.choose (.predicate (.custom test argument)) yes no) t := by
  have hchild : ∀ s, (nativeStep s).children = s.children :=
    fun s => by fun_cases nativeStep s <;> rfl
  have hwalk : walk (mapBottomUp useNativeTests t) = _ := walk_mapBottomUp_map hchild t
  constructor
  · rintro ⟨_, hs, hposes⟩
    obtain ⟨s, hmem, rfl⟩ := mem_map.1 (hwalk ▸ hs.mem_walk)
    rcases poses_nativeStep_iff.1 hposes with ⟨htests, hkept⟩ | ⟨yes, no, rfl⟩
    · exact .inl ⟨⟨s, occurs_of_mem_walk t s hmem, htests⟩, hkept⟩
    · exact .inr ⟨yes, no, occurs_of_mem_walk t _ hmem⟩
  · intro h
    have himage : ∀ s, Occurs s t → Occurs (nativeStep (s.mapInside useNativeTests))
        (mapBottomUp useNativeTests t) :=
      fun s hs => occurs_of_mem_walk _ _ (hwalk ▸ mem_map_of_mem hs.mem_walk)
    rcases h with ⟨⟨s, hs, htests⟩, hkept⟩ | ⟨yes, no, hs⟩
    · exact ⟨_, himage s hs, poses_nativeStep_iff.2 (.inl ⟨htests, hkept⟩)⟩
    · exact ⟨_, himage _ hs, poses_nativeStep_iff.2 (.inr ⟨yes, no, rfl⟩)⟩

/-- What the check refuses, it refuses by name. -/
lemma exists_refuseCustomSymbols_iff {name : String} :
    (∃ names, refuseCustomSymbols t = .error (.customSymbols names) ∧ name ∈ names) ↔
      ∃ s, Occurs s t ∧ s.UsesSymbol name := by
  simp_rw [refuseCustomSymbols_eq_error, QueryFault.customSymbols.injEq, ← mem_customNames_iff]
  constructor
  · rintro ⟨_, ⟨-, rfl⟩, hname⟩
    exact hname
  · exact fun hname => ⟨_, ⟨ne_nil_of_mem hname, rfl⟩, hname⟩

/-- A custom test of text with an argument stays in conditions of choices and nowhere else.  The
check that follows names the test if it stands in such a condition, or if a step tests for it
without an argument. -/
theorem useNativeTests_leaves (t : Traversal) (htest : test.IsOfText) :
    (∀ argument, (∃ s, Occurs s (mapBottomUp useNativeTests t) ∧
      s.Poses (.custom test (some argument))) ↔
        ∃ yes no, Occurs (.choose (.predicate (.custom test (some argument))) yes no) t) ∧
      ((∃ names, refuseCustomSymbols (mapBottomUp useNativeTests t) =
      .error (.customSymbols names) ∧ test.name ∈ names) ↔
        (∃ argument yes no, Occurs (.choose (.predicate (.custom test argument)) yes no) t) ∨
          ∃ s, Occurs s t ∧ s.TestsFor (.custom test none)) := by
  have hleft : ∀ argument, (∃ s, Occurs s (mapBottomUp useNativeTests t) ∧
      s.Poses (.custom test (some argument))) ↔
      ∃ yes no, Occurs (.choose (.predicate (.custom test (some argument))) yes no) t :=
      fun argument => by
    rw [exists_poses_useNativeTests_iff,
      or_iff_right fun h => nativePredicate_ne_self htest argument h.2]
  refine ⟨hleft, ?_⟩
  have hnamed : (∃ s, Occurs s (mapBottomUp useNativeTests t) ∧ s.UsesSymbol test.name) ↔
      ∃ argument s, Occurs s (mapBottomUp useNativeTests t) ∧ s.Poses (.custom test argument) := by
    simp_rw [Step.usesSymbol_iff_poses htest, ← exists_and_left]
    exact exists_comm
  have hnone : nativePredicate (.custom test none) = .custom test none := rfl
  rw [exists_refuseCustomSymbols_iff, hnamed, Option.exists, Option.exists,
    exists_poses_useNativeTests_iff]
  simp_rw [hleft, hnone, and_true]
  rw [or_assoc, or_comm]

/-- What is inside a filter is changed, and the condition of the choice is not. -/
theorem useNativeTests_leaves_condition :
    CustomPredicate.startsWith.IsOfText ∧
      (∃ s, Occurs s (mapBottomUp useNativeTests
          [.V, .filter [.values ["k"], .is (.custom .startsWith (some (.string "b")))],
            .choose (.predicate (.custom .startsWith (some (.string "a")))) [.id] [.label]]) ∧
        s.Poses (.custom .startsWith (some (.string "a")))) :=
  ⟨.startsWith, ((useNativeTests_leaves _ .startsWith).1 _).2 ⟨[.id], [.label], .own (by simp)⟩⟩

/-- A test of text with an argument is refused where it is the condition of a choice. -/
theorem refuseCustomSymbols_useNativeTests :
    refuseCustomSymbols (mapBottomUp useNativeTests
      [.V, .choose (.predicate (.custom .startsWith (some (.string "a")))) [.id] [.label]]) =
        .error (.customSymbols ["startsWith"]) := rfl

end Pass

end CypherGremlin
