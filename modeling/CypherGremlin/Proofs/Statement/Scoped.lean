import CypherGremlin.Proofs.Traversal.Anchored
import CypherGremlin.Proofs.Traversal.Scoping

/-!
# Labels in lowered traversals

Lowering refers to a label only where it is visible.  `Scoped first V t` is the grammar of
traversals that do so where the labels of `V` are visible from the beginning.  The grammar also says
where labels stand, which is what dialects have to know:

* a numbered label of an element is selected at the very beginning of a traversal inside a step and
  nowhere else, and `first` says that the traversal stands at such a place;
* the number of a row is put only behind a step that gives maps.

`Scoped.exists_checkScope` is the main consequence: the check of labels accepts such a traversal.
The other is `Scoped.anchored`: labels keep to their places in it.
-/

namespace CypherGremlin

variable {s : Step} {visible : List Label}

open List Traversal

/-! ## Where steps stand -/

namespace Step

/-- The step can stand anywhere in a traversal, as far as its labels matter. -/
def StandsAnywhere : Step → Prop
  | .as l => l.isRow = false
  | .select [l] => l.isSynthetic = true → l.isRow = true
  | .cap _ => False
  | _ => True

/-- The step has nothing to do with the labels that other steps put. -/
def isBland : Step → Bool
  | .as _ | .select _ | .whereLabel _ _ | .addE _ _ _ | .cap _ => false
  | _ => true

lemma standsAnywhere_of_isBland (h : s.isBland = true) : s.StandsAnywhere := by
  cases s <;> simp_all [isBland, StandsAnywhere]

lemma StandsAnywhere.standsAfter (h : s.StandsAnywhere) (before : Option Step) :
    s.StandsAfter before := by
  fun_cases StandsAfter before s <;> simp_all [StandsAnywhere]

lemma references_of_isBland (h : s.isBland = true) : s.references = [] := by
  cases s <;> simp_all [isBland, references]

end Step

/-- No step at any depth has to do with labels. -/
def Traversal.isBland (t : Traversal) : Bool := (walk t).all Step.isBland

/-! ## The grammar -/

/-- A traversal that refers to labels only where they are visible. -/
inductive Scoped : Bool → Set Label → Traversal → Prop
  | nil {first : Bool} {V : Set Label} : Scoped first V []
  | step {first : Bool} {V : Set Label} {s : Step} (stands : s.StandsAnywhere)
    (references : ∀ l ∈ s.references, l ∈ V)
    (children : ∀ t ∈ s.children, Scoped true V t) : Scoped first V [s]
  /-- The first step inside another one can select any visible label. -/
  | select {V : Set Label} {l : Label} (visible : l ∈ V) : Scoped true V [.select [l]]
  | append {first : Bool} {V : Set Label} {a b : Traversal} :
    Scoped first V a → Scoped false (V ∪ puts a) b → Scoped first V (a ++ b)
  /-- A row is numbered behind a step that gives maps. -/
  | row {first : Bool} {V : Set Label} {a : Traversal} {s : Step} (solid : s.isSolid = true)
    (n : UInt32) : Scoped first V (a ++ [s]) → Scoped first V (a ++ [s, .as (.token (.freshId n))])

namespace Scoped

variable {first : Bool} {V W : Set Label} {t a b : Traversal}

/-- More labels may be visible. -/
lemma mono (h : Scoped first V t) (hsub : V ⊆ W) : Scoped first W t := by
  induction h generalizing W with
  | nil => exact nil
  | step stands references _ ih =>
    exact step stands (fun l hl => hsub (references l hl)) fun t ht => ih t ht hsub
  | select visible => exact select (hsub visible)
  | append _ _ iha ihb => exact append (iha hsub) (ihb (Set.union_subset_union_left _ hsub))
  | row solid n _ ih => exact row solid n (ih hsub)

/-- What can stand anywhere can stand at the beginning. -/
lemma inner (h : Scoped first V t) : Scoped true V t := by
  induction h with
  | nil => exact nil
  | step stands references children _ => exact step stands references children
  | select visible => exact select visible
  | append _ hb iha _ => exact append iha hb
  | row solid n _ ih => exact row solid n ih

/-- One after the other, where the second needs nothing of the first. -/
lemma andThen (ha : Scoped first V a) (hb : Scoped false V b) : Scoped first V (a ++ b) :=
  append ha (hb.mono Set.subset_union_left)

lemma flatten {ts : List Traversal} (h : ∀ t ∈ ts, Scoped false V t) :
    Scoped false V ts.flatten := by
  induction ts with
  | nil => exact nil
  | cons t rest ih =>
    obtain ⟨ht, hrest⟩ := forall_mem_cons.1 h
    exact ht.andThen (ih hrest)

lemma of_forall (h : ∀ s ∈ t, Scoped false V [s]) : Scoped false V t := by
  induction t with
  | nil => exact nil
  | cons s rest ih =>
    obtain ⟨hs, hrest⟩ := forall_mem_cons.1 h
    exact hs.andThen (ih hrest)

lemma inside (stands : s.StandsAnywhere) (references : s.references = [])
    (h : ∀ t ∈ s.children, Scoped true V t) : Scoped first V [s] :=
  step stands (by simp [references]) h

/-- A traversal that has nothing to do with labels. -/
lemma bland (h : isBland t = true) : Scoped first V t := by
  suffices hfalse : ∀ first : Bool, Scoped first V t from hfalse first
  rw [isBland, all_eq_true] at h
  induction t using inductChildren with
  | nil => exact fun _ => nil
  | cons s rest hchild hrest =>
    obtain ⟨hs, hinside, hafter⟩ := forall_mem_walk_cons.1 h
    intro first
    refine andThen (a := [s]) ?_ (hrest hafter false)
    exact inside (Step.standsAnywhere_of_isBland hs) (Step.references_of_isBland hs) fun t ht =>
      hchild t ht (hinside t ht) true

/-! ## The check of labels -/

lemma unresolved?_eq_none (references : ∀ l ∈ s.references, l ∈ V) (stands : s.StandsAnywhere)
    {buckets : List Label} (hvis : ∀ l ∈ V, l ∈ visible) :
    s.unresolved? visible buckets = none := by
  rw [Step.unresolved?, find?_eq_none]
  intro l hl
  have hmem := hvis l (references l hl)
  cases s <;> simp_all [Step.resolves, Step.StandsAnywhere]

lemma exists_foldlM_checkScope {ts : List Traversal}
    (h : ∀ t ∈ ts, ∀ buckets, ∃ out, checkScope visible buckets t = .ok out)
    (buckets : List Label) : ∃ out, ts.foldlM (checkScope visible) buckets = .ok out := by
  induction ts generalizing buckets with
  | nil => exact ⟨buckets, rfl⟩
  | cons t rest ih =>
    obtain ⟨ht, hrest⟩ := forall_mem_cons.1 h
    obtain ⟨mid, hmid⟩ := ht buckets
    obtain ⟨out, hout⟩ := ih hrest mid
    exact ⟨out, bind_eq_ok.2 ⟨mid, hmid, hout⟩⟩

lemma exists_checkScope_singleton {buckets : List Label} (h : s.unresolved? visible buckets = none)
    (hchild : ∀ t ∈ s.children, ∀ buckets, ∃ out, checkScope visible buckets t = .ok out) :
    ∃ out, checkScope visible buckets [s] = .ok out := by
  obtain ⟨out, hout⟩ := exists_foldlM_checkScope hchild buckets
  exact ⟨s.bucketsAfter out, by rw [checkScope_cons h, hout]; rfl⟩

/-- The check of labels accepts what refers to labels only where they are visible. -/
theorem exists_checkScope (h : Scoped first V t) (hvis : ∀ l ∈ V, l ∈ visible)
    (buckets : List Label) : ∃ out, checkScope visible buckets t = .ok out := by
  induction h generalizing visible buckets with
  | nil => exact ⟨buckets, rfl⟩
  | step stands references _ ih =>
    exact exists_checkScope_singleton (unresolved?_eq_none references stands hvis) fun t ht =>
      ih t ht hvis
  | @select V l hl =>
    refine exists_checkScope_singleton ?_ (by simp [Step.children])
    simpa [Step.unresolved?, Step.references, Step.resolves] using hvis l hl
  | @append _ V a b _ _ iha ihb =>
    obtain ⟨mid, hmid⟩ := iha hvis buckets
    have hafter : ∀ l ∈ V ∪ puts a, l ∈ a.foldl Step.visibleAfter visible := fun l hl =>
      mem_foldl_visibleAfter.2 (hl.imp_left (hvis l))
    obtain ⟨out, hout⟩ := ihb hafter mid
    exact ⟨out, by rw [checkScope_append, hmid]; exact hout⟩
  | @row _ _ a s solid n _ ih =>
    obtain ⟨mid, hmid⟩ := ih hvis buckets
    refine ⟨mid, ?_⟩
    rw [← singleton_append, ← append_assoc, checkScope_append, hmid]
    rfl

/-- Labels keep to their places, at the beginning and, unless a label is selected first, anywhere.
-/
lemma anchoredAfter (h : Scoped first V t) {before : Option Step}
    (hfirst : first = true → before = none) :
    AnchoredAfter before t ∧ ∀ s ∈ t, ∀ c ∈ s.children, Anchored c := by
  induction h generalizing before with
  | nil => exact ⟨trivial, by simp⟩
  | step stands _ _ ih =>
    refine ⟨⟨stands.standsAfter before, trivial⟩, forall_mem_singleton.2 fun c hc => ?_⟩
    exact forall_mem_nested_iff.2 (ih c hc fun _ => rfl)
  | select _ => exact ⟨⟨fun _ => .inl (hfirst rfl), trivial⟩, by simp [Step.children]⟩
  | @append _ _ a b _ _ iha ihb =>
    obtain ⟨ha, hinside⟩ := iha hfirst
    obtain ⟨hb, hinside'⟩ := @ihb (a.getLast?.or before) (by simp)
    exact ⟨anchoredAfter_append.2 ⟨ha, hb⟩, forall_mem_append.2 ⟨hinside, hinside'⟩⟩
  | @row _ _ a s solid n _ ih =>
    obtain ⟨has, hinside⟩ := ih hfirst
    have hrow : a ++ [s, .as (.token (.freshId n))] = (a ++ [s]) ++
        [.as (.token (.freshId n))] := by simp
    rw [hrow]
    refine ⟨anchoredAfter_append.2 ⟨has, ?_, trivial⟩,
      forall_mem_append.2 ⟨hinside, by simp [Step.children]⟩⟩
    exact fun _ => ⟨s, by simp, solid⟩

theorem anchored (h : Scoped first V t) : Anchored t :=
  forall_mem_nested_iff.2 (h.anchoredAfter fun _ => rfl)

end Scoped

end CypherGremlin
