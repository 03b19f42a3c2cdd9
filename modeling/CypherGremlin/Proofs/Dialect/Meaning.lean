import CypherGremlin.Proofs.Dialect.Pass

/-!
# Dialects keep the meaning

`Keeps env t t'` says what it means that the outcome `t'` of a dialect is as good as `t`: whatever
`t` gives on a graph, `t'` gives too, and mentions of labels have only been thinned out.  This is a
preorder, so it goes from single passes to the whole dialect.

Not every program is safe with every pass.  One that fills a bucket and labels an object by the same
name, or that takes the entry of a map by a numbered name which is also a label, could be told apart
from what the passes make of it.  `Disciplined` excludes this; it is about mentions of labels, and
thinning them out keeps it.
-/

namespace CypherGremlin

variable {l : Label} {s : Step} {f : Traversal → Traversal} {t : Traversal}

open List Traversal

/-! ## Discipline -/

/-- Labels, buckets and entries of maps are not mistaken for each other. -/
structure Disciplined (mentions : List Mention) : Prop where
  /-- Names cannot be taken for tokens. -/
  clean : ∀ m ∈ mentions, m.label.Clean
  /-- No label is named like a bucket. -/
  put : ∀ l, .put l ∈ mentions → ¬ IsBucketName l.encode
  filled : ∀ l, .filled l ∈ mentions → IsBucketName l.encode
  /-- A numbered name of an entry that is a label too is compared with. -/
  keyed : ∀ l, .keyed l ∈ mentions → .put l ∈ mentions → l.isSynthetic = true →
    .compared l ∈ mentions

lemma Disciplined.thin {a b : List Mention} (h : Disciplined a) (hthins : Thins a b) :
    Disciplined b where
  clean m hm := h.clean m (hthins.subset hm)
  put l hl := h.put l (hthins.subset hl)
  filled l hl := h.filled l (hthins.subset hl)
  keyed l hkeyed hput hl :=
    hthins.compared_mem (h.keyed l (hthins.subset hkeyed) (hthins.subset hput) hl)

/-- The text is a name that some step reads. -/
def ReadIn (mentions : List Mention) (key : String) : Prop :=
  ∃ l : Label, (.read l ∈ mentions ∨ .compared l ∈ mentions ∨ .keyed l ∈ mentions) ∧ l.encode = key

lemma Disciplined.allowed (h : Disciplined (Traversal.mentions t)) :
    Traversal.Allowed (ReadIn (Traversal.mentions t)) t := by
  intro m hm
  cases m with
  | put l => exact h.put l hm
  | filled l => exact h.filled l hm
  | read l => exact ⟨l, .inl hm, rfl⟩
  | compared l => exact ⟨l, .inr (.inl hm), rfl⟩
  | keyed l => exact ⟨l, .inr (.inr hm), rfl⟩

namespace Pass

lemma mem_uses : l ∈ uses s ↔ .read l ∈ s.mentions ∨ .compared l ∈ s.mentions := by
  cases s <;> simp [uses, Step.mentions]

lemma mem_flatMap_uses : l ∈ (walk t).flatMap uses ↔
      .read l ∈ Traversal.mentions t ∨ .compared l ∈ Traversal.mentions t := by
  simp only [Traversal.mentions, collect, mem_flatMap, mem_uses, ← exists_or, ← and_or_left]

lemma not_readIn (h : Disciplined (Traversal.mentions t))
    (hput : .put l ∈ Traversal.mentions t) (hsynthetic : l.isSynthetic = true)
    (hunused : l ∉ (walk t).flatMap uses) : ¬ ReadIn (Traversal.mentions t) l.encode := by
  rintro ⟨l', hread, heq⟩
  rw [mem_flatMap_uses, not_or] at hunused
  have hclean : l'.Clean := by
    rcases hread with hm | hm | hm <;> exact h.clean _ hm
  obtain rfl : l' = l := Label.encode_inj hclean (h.clean _ hput) heq
  rcases hread with hm | hm | hm
  · exact hunused.1 hm
  · exact hunused.2 hm
  · exact hunused.2 (h.keyed l' hm hput hsynthetic)

end Pass

/-! ## Passes -/

lemma Step.mapInside_of_isStart (f : Traversal → Traversal) (h : s.isStart = true) :
    s.mapInside f = s := by
  cases s <;> first | rfl | simp [Step.isStart] at h

/-- A change of all traversals leaves the step alone that starts a program, if it does so in each of
them. -/
lemma Traversal.mapBottomUp_start {spare : Label → Prop} (hf : ∀ t, Pass.Edits spare [] t (f t))
    (hs : s.isStart = true) (rest : Traversal) :
    ∃ rest', mapBottomUp f (s :: rest) = s :: rest' := by
  rw [mapBottomUp, mapInside, Step.mapInside_of_isStart f hs]
  exact (hf _).start hs

/-- The second program gives whatever the first one gives, and mentions of labels have only been
thinned out. -/
structure Keeps (env : Env) (t t' : Traversal) : Prop where
  thins : Thins (Traversal.mentions t) (Traversal.mentions t')
  execute : ∀ {graph : Graph} {r : List RawRow × Graph},
    execute env graph t = .ok r → execute env graph t' = .ok r

namespace Keeps

variable {env : Env} {t' t'' : Traversal}

lemma refl (t : Traversal) : Keeps env t t := ⟨.refl _, fun h => h⟩

lemma trans (h : Keeps env t t') (h' : Keeps env t' t'') : Keeps env t t'' :=
  ⟨h.thins.trans h'.thins, fun hr => h'.execute (h.execute hr)⟩

/-- The outcome of edits in all traversals of a disciplined program, where nothing reads the labels
that are dropped. -/
lemma mapBottomUp {parameters : Parameters} {spare : Label → Prop}
    (hf : ∀ t, Pass.Edits spare [] t (f t)) (ht : Disciplined (Traversal.mentions t))
    (hspare : ∀ l, .put l ∈ Traversal.mentions t → spare l →
      ¬ ReadIn (Traversal.mentions t) l.encode) :
    Keeps (Env.standard parameters) t (mapBottomUp f t) where
  thins := thins_mapBottomUp (fun t => (hf t).thins) t
  execute := by
    refine execute_of_simulates ht.allowed (thins_mapBottomUp (fun t => (hf t).thins) t) ?_
      (simulates_mapBottomUp ht.allowed (fun t => (hf t).thins) fun t' ht' ts ts' hts => ?_)
    · rintro s rest rfl hs
      exact mapBottomUp_start hf hs rest
    · exact (hf t').refines parameters (ht.allowed.of_subset ht') (fun l hl => hspare l (ht' hl))
        (by simp) hts ⟨by simp, by simp⟩

lemma dropUnusedLabels {parameters : Parameters} (ht : Disciplined (Traversal.mentions t)) :
    Keeps (Env.standard parameters) t (Pass.dropUnusedLabels t) :=
  mapBottomUp (Pass.edits_filter_putsUnused _) ht fun _ hput hl => Pass.not_readIn ht hput hl.1 hl.2

end Keeps

/-- What a dialect makes of a disciplined program gives whatever the program gives. -/
theorem Dialect.keeps_applyTo (parameters : Parameters) (name : DialectName) {t' : Traversal}
    (ht : Disciplined (Traversal.mentions t)) (h : (ofName name).applyTo t = .ok t') :
    Keeps (Env.standard parameters) t t' := by
  -- A change keeps only a disciplined program, which stays so because mentions are thinned out.
  refine applyTo_induction (R := fun t t' => Disciplined (Traversal.mentions t) →
    Keeps (Env.standard parameters) t t') (fun t _ => .refl t) ?_ name ?_ ?_ t t' h ht
  · intro t t' t'' hfirst hsecond ht
    have hkeeps := hfirst ht
    exact hkeeps.trans (hsecond (ht.thin hkeeps.thins))
  · exact fun f hf t ht => .mapBottomUp hf.edits ht fun _ _ h => h.elim
  · exact fun t ht => .dropUnusedLabels ht

end CypherGremlin
