import CypherGremlin.Proofs.Traversal.Walk

/-!
# Mentions of labels

What a program needs of labels is where they are put, where they are read, and which buckets are
filled.  `Traversal.mentions` lists all of it, at any depth.

Passes take mentions away and never add any.  Comparisons with a label and fillings of a bucket are
not taken away either.  `Thins` says both of two lists of mentions, and
`Traversal.thins_mapBottomUp` carries it from one traversal to all traversals of a program.
-/

namespace CypherGremlin

variable {a b c : List Mention} {f : Traversal → Traversal}

open List Traversal

/-- What a step does with a label. -/
inductive Mention where
  | put (l : Label)
  /-- Reads it, or the entry of that name if the current object is a map. -/
  | read (l : Label)
  /-- Compares the current object with what it reads. -/
  | compared (l : Label)
  /-- Reads the entry of that name, or the label if there is no entry. -/
  | keyed (l : Label)
  /-- Fills the bucket of that name. -/
  | filled (l : Label)
deriving DecidableEq

namespace Mention

def label : Mention → Label
  | put l | read l | compared l | keyed l | filled l => l

/-- No pass takes the mention away. -/
def isLasting : Mention → Bool
  | compared _ | filled _ => true
  | _ => false

def bucket? : Mention → Option Label
  | filled l => some l
  | _ => none

end Mention

/-- What a step itself does with labels. -/
def Step.mentions : Step → List Mention
  | .as l => [.put l]
  | .select labels => labels.map .read
  | .addE _ source target => [.read source, .read target]
  | .whereLabel _ l => [.compared l]
  | .selectKey l => [.keyed l]
  | .aggregate l => [.filled l]
  | _ => []

/-- What all steps of a traversal do with labels. -/
def Traversal.mentions (t : Traversal) : List Mention := Traversal.collect Step.mentions t

@[simp] lemma Step.mentions_mapInside (f : Traversal → Traversal) (s : Step) :
    (s.mapInside f).mentions = s.mentions := by
  cases s <;> rfl

@[simp] lemma Traversal.mentions_nil : Traversal.mentions [] = [] := rfl

lemma Traversal.mentions_cons (s : Step) (rest : Traversal) : Traversal.mentions (s :: rest) =
      s.mentions ++ (s.children.flatMap Traversal.mentions ++ Traversal.mentions rest) :=
  collect_cons _ s rest

@[simp] lemma Traversal.mentions_append (a b : Traversal) :
    Traversal.mentions (a ++ b) = Traversal.mentions a ++ Traversal.mentions b :=
  collect_append _ a b

/-! ## Thinning -/

/-- The second list has fewer mentions, but all the lasting ones. -/
structure Thins (a b : List Mention) : Prop where
  subset : b ⊆ a
  lasting : b.filter Mention.isLasting = a.filter Mention.isLasting

namespace Thins

lemma refl (a : List Mention) : Thins a a := ⟨List.Subset.refl a, rfl⟩

lemma trans (h : Thins a b) (h' : Thins b c) : Thins a c :=
  ⟨List.Subset.trans h'.subset h.subset, h'.lasting.trans h.lasting⟩

lemma append {d : List Mention} (h : Thins a b) (h' : Thins c d) : Thins (a ++ c) (b ++ d) where
  subset := append_subset.2
    ⟨List.Subset.trans h.subset (subset_append_left a c),
    List.Subset.trans h'.subset (subset_append_right a c)⟩
  lasting := by rw [filter_append, filter_append, h.lasting, h'.lasting]

lemma cons (s : Step) {rest rest' : Traversal}
    (h : Thins (Traversal.mentions rest) (Traversal.mentions rest')) :
    Thins (Traversal.mentions (s :: rest)) (Traversal.mentions (s :: rest')) := by
  rw [mentions_cons, mentions_cons]
  exact (refl _).append ((refl _).append h)

lemma drop (h : ∀ m ∈ a, m.isLasting = false) : Thins a [] where
  subset := nil_subset a
  lasting := by
    symm
    simpa using h

lemma additive : Traversal.Additive Thins := ⟨refl, trans, append⟩

lemma compared_mem (h : Thins a b) {l : Label} (hl : .compared l ∈ a) : .compared l ∈ b := by
  have hlast : Mention.compared l ∈ b.filter Mention.isLasting := by
    rw [h.lasting]
    exact mem_filter.2 ⟨hl, rfl⟩
  exact (mem_filter.1 hlast).1

/-- The same buckets are filled in the same order. -/
lemma filterMap_bucket? (h : Thins a b) :
    b.filterMap Mention.bucket? = a.filterMap Mention.bucket? := by
  have hbuckets (c : List Mention) :
      (c.filter Mention.isLasting).filterMap Mention.bucket? = c.filterMap Mention.bucket? := by
    rw [filterMap_filter]
    congr 1
    funext m
    cases m <;> rfl
  rw [← hbuckets b, h.lasting, hbuckets a]

end Thins

theorem Traversal.thins_mapInside
    (hf : ∀ t, Thins (Traversal.mentions t) (Traversal.mentions (f t))) (t : Traversal) :
    Thins (Traversal.mentions t) (Traversal.mentions (mapInside f t)) :=
  collect_mapInside Thins.additive (Step.mentions_mapInside f) hf t

theorem Traversal.thins_mapBottomUp
    (hf : ∀ t, Thins (Traversal.mentions t) (Traversal.mentions (f t))) (t : Traversal) :
    Thins (Traversal.mentions t) (Traversal.mentions (mapBottomUp f t)) :=
  collect_mapBottomUp Thins.additive (Step.mentions_mapInside f) hf t

end CypherGremlin
