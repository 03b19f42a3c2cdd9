import CypherGremlin.Proofs.Dialect.Rounds

/-!
# What passes do to a traversal

All passes that change programs do the same kind of thing to a traversal: they drop some steps, and
put simple steps in the place of others.  `Pass.Edit` lists what can become of one step, and
`Pass.Edits` follows the passes along a traversal.  `Pass.IsLocal.edits` and
`Pass.edits_filter_putsUnused` say that no pass does anything else, so that whatever is kept by
every edit is kept by every pass.
-/

namespace CypherGremlin

variable {s : Step} {t t' : Traversal} {before after : List Step}

open List

/-- A pass can put a built-in test in place of the predicate. -/
def Predicate.isReplaceable : Predicate → Bool
  | .custom test (some _) => (Pass.nativeTest? test).isSome
  | _ => false

/-- The steps that passes put in place of others.  No pass has anything to do with them. -/
def Step.isSimple : Step → Bool
  | .properties _ | .hasKey _ | .value => true
  | .is p | .has _ p => !p.isReplaceable
  | _ => false

lemma Step.children_of_isSimple (h : s.isSimple = true) : s.children = [] := by
  cases s <;> simp_all [isSimple, children]

namespace Pass

lemma isReplaceable_nativePredicate (p : Predicate) :
    (nativePredicate p).isReplaceable = false := by
  fun_cases nativePredicate p with
  | case1 => rfl
  | case2 test argument hnone => simp [Predicate.isReplaceable, hnone]
  | case3 p hcustom =>
    cases p with
    | custom test argument => cases argument <;> first | rfl | exact absurd rfl (hcustom _ _)
    | _ => rfl

lemma nativePredicate_eq_self {p : Predicate} (h : p.isReplaceable = false) :
    nativePredicate p = p := by
  fun_cases nativePredicate p with
  | case1 test argument text htext => simp [Predicate.isReplaceable, htext] at h
  | case2 => rfl
  | case3 => rfl

/-- What can become of a step behind the given ones, from the last one on, where the given labels
may be dropped:  the steps in its place, and the steps from which it goes on. -/
inductive Edit (spare : Label → Prop) (before : List Step) : Step → Traversal → List Step → Prop
  | identity : Edit spare before .identity [] []
  | barrier : Edit spare before .barrier [] []
  | label {l : Label} (hl : spare l) : Edit spare before (.as l) [] []
  | reselect {l : Label} {e : Step} {rest : List Step} (heq : before = .as l :: e :: rest)
    (he : givesElement e = true) : Edit spare before (.select [l]) [] before
  | value (key : String) : Edit spare before (.values [key]) [.properties [key], .hasKey key,
    .value] []
  | values (keys : List String) : Edit spare before (.values keys) [.properties keys, .value] []
  | is {p : Predicate} (hp : p.isReplaceable = true) : Edit spare before (.is p)
    [.is (nativePredicate p)] []
  | has {p : Predicate} (key : String) (hp : p.isReplaceable = true) :
    Edit spare before (.has key p) [.has key (nativePredicate p)] []

/-- The second traversal is what becomes of the first one behind the given steps. -/
inductive Edits (spare : Label → Prop) : List Step → Traversal → Traversal → Prop
  | nil {before : List Step} : Edits spare before [] []
  | keep {before : List Step} (s : Step) {a b : Traversal} :
    Edits spare (s :: before) a b → Edits spare before (s :: a) (s :: b)
  | edit {before after : List Step} {s : Step} {r a b : Traversal} :
    Edit spare before s r after → Edits spare after a b → Edits spare before (s :: a) (r ++ b)

variable {spare : Label → Prop} {r : Traversal}

lemma Edit.isSimple (h : Edit spare before s r after) : ∀ x ∈ r, x.isSimple = true := by
  cases h <;> simp [Step.isSimple, isReplaceable_nativePredicate]

namespace Edits

/-- Every step was there before, or has taken the place of one. -/
lemma mem (h : Edits spare before t t') :
    ∀ x ∈ t', x ∈ t ∨ ∃ s ∈ t, ∃ before r after, Edit spare before s r after ∧ x ∈ r := by
  induction h with
  | nil => simp
  | keep s _ ih => grind
  | edit hedit _ ih => grind

lemma mem_or_children (h : Edits spare before t t') : ∀ x ∈ t', x ∈ t ∨ x.children = [] := by
  intro x hx
  rcases h.mem x hx with hx | ⟨s, -, _, r, _, hedit, hx⟩
  · exact .inl hx
  · exact .inr (Step.children_of_isSimple (hedit.isSimple x hx))

/-- No pass touches a step that starts a program. -/
lemma start {rest : Traversal} (h : Edits spare before (s :: rest) t') (hs : s.isStart = true) :
    ∃ rest', t' = s :: rest' := by
  cases h with
  | keep _ _ => exact ⟨_, rfl⟩
  | edit hedit _ => cases hedit <;> cases hs

/-- A change that works on each step by itself. -/
lemma stepwise {f : Traversal → Traversal} {g : Step → Traversal} (hnil : f [] = [])
    (hcons : ∀ s rest, f (s :: rest) = g s ++ f rest)
    (hg : ∀ before s, g s = [s] ∨ Edit spare before s (g s) []) (before : List Step)
    (t : Traversal) : Edits spare before t (f t) := by
  induction t generalizing before with
  | nil =>
    rw [hnil]
    exact nil
  | cons s rest ih =>
    rw [hcons]
    rcases hg before s with heq | hedit
    · rw [heq]
      exact keep s (ih _)
    · exact edit hedit (ih _)

end Edits

/-! ## Passes -/

lemma selectsJustLabelled_iff : selectsJustLabelled before s = true ↔
      ∃ l e rest, before = .as l :: e :: rest ∧ s = .select [l] ∧ givesElement e = true := by
  constructor
  · intro h
    fun_cases selectsJustLabelled before s with
    | case1 l e rest l' =>
      obtain ⟨hl, he⟩ : l' = l ∧ givesElement e = true := by simpa [selectsJustLabelled] using h
      exact ⟨l, e, rest, rfl, by rw [hl], he⟩
    | case2 => simp [selectsJustLabelled] at h
  · rintro ⟨l, e, rest, rfl, rfl, he⟩
    simp [selectsJustLabelled, he]

lemma putsUnused_iff {used : List Label} :
    putsUnused used s = true ↔ ∃ l, s = .as l ∧ l.isSynthetic = true ∧ l ∉ used := by
  cases s <;> simp [putsUnused]

lemma edits_dropReselectAfter (before : List Step) (t : Traversal) :
    Edits (fun _ => False) before t (dropReselectAfter before t) := by
  fun_induction dropReselectAfter before t with
  | case1 => exact .nil
  | case2 before s rest hs ih =>
    obtain ⟨l, e, before', heq, rfl, he⟩ := selectsJustLabelled_iff.1 hs
    exact .edit (.reselect heq he) ih
  | case3 before s rest _ ih => exact .keep s ih

lemma edits_dropBarriers (before : List Step) (t : Traversal) :
    Edits (fun _ => False) before t (dropBarriers t) := by
  fun_induction dropBarriers t generalizing before with
  | case1 => exact .nil
  | case2 next rest _ ih => exact .edit .barrier (ih _)
  | case3 next rest _ ih | case4 next rest _ ih => exact .keep _ (ih _)

lemma edit_nativeStep (before : List Step) (s : Step) :
    [nativeStep s] = [s] ∨ Edit (fun _ => False) before s [nativeStep s] [] := by
  fun_cases nativeStep s with
  | case1 p =>
    cases hp : p.isReplaceable with
    | true => exact .inr (.is hp)
    | false => exact .inl (by rw [nativePredicate_eq_self hp])
  | case2 key p =>
    cases hp : p.isReplaceable with
    | true => exact .inr (.has key hp)
    | false => exact .inl (by rw [nativePredicate_eq_self hp])
  | case3 => exact .inl rfl

/-- The changes of single traversals drop no labels. -/
theorem IsLocal.edits {f : Traversal → Traversal} (hf : IsLocal f) (t : Traversal) :
    Edits (fun _ => False) [] t (f t) := by
  cases hf with
  | dropIdentity =>
    refine .stepwise rfl (fun s rest => filter_append [s] rest) (fun _ s => ?_) [] t
    cases s with
    | identity => exact .inr .identity
    | _ => exact .inl rfl
  | dropReselect => exact edits_dropReselectAfter [] t
  | dropBarriers => exact edits_dropBarriers [] t
  | readViaProperties =>
    refine .stepwise rfl (fun _ _ => rfl) (fun _ s => ?_) [] t
    fun_cases viaProperties s with
    | case1 key => exact .inr (.value key)
    | case2 keys _ => exact .inr (.values keys)
    | case3 => exact .inl rfl
  | useNativeTests => exact .stepwise rfl (fun _ _ => rfl) edit_nativeStep [] t

theorem edits_filter_putsUnused (used : List Label) (t : Traversal) :
    Edits (fun l => l.isSynthetic = true ∧ l ∉ used) [] t (t.filter (!putsUnused used ·)) := by
  refine .stepwise rfl (fun s rest => filter_append [s] rest) (fun _ s => ?_) [] t
  cases hs : putsUnused used s with
  | true =>
    obtain ⟨l, rfl, hl⟩ := putsUnused_iff.1 hs
    rw [filter_cons_of_neg (by simp [hs])]
    exact .inr (.label hl)
  | false => exact .inl (filter_cons_of_pos (by simp [hs]))

end Pass

end CypherGremlin
