import CypherGremlin.Proofs.Statement.Lowering

/-!
# What steps do to rows that come one after another

An engine that runs a program row by row stops as soon as a step has let enough rows through, and
then the rows that remain have not been through the steps before it.  So a step that writes must not
be followed by one that cuts off rows, unless the rows are gathered in between.

* `Conduct` is what a step does in this respect, and `Step.conduct` says it of each step.
* `CutsShort` says of the conduct of some steps, one after another, that a write is cut short.  It
  can be decided by going through the list once (`cutsShort_iff_hits`).
* `Conduct.Like` compares lists by what they do at any place of a program, so that one conduct can
  stand for those of many steps.
-/

namespace CypherGremlin

open List

/-! ## Conduct -/

/-- What a step does to rows that come one after another. -/
inductive Conduct where
  | writes
  /-- Takes all rows before it lets one through. -/
  | gathers
  /-- Stops when it has let enough rows through. -/
  | cuts
  /-- None of these. -/
  | passes
deriving DecidableEq, Repr

variable {l : List Conduct} {x : Conduct} {s : Step}

/-- A write is followed by a cut, and the rows are not gathered in between. -/
def CutsShort (l : List Conduct) : Prop :=
  ∃ a b c, l = a ++ .writes :: b ++ .cuts :: c ∧ .gathers ∉ b

namespace Conduct

/-- There is a cut, and the rows are not gathered before it. -/
def Reaches (l : List Conduct) : Prop := ∃ b c, l = b ++ .cuts :: c ∧ .gathers ∉ b

lemma reaches_cons : Reaches (x :: l) ↔ x = .cuts ∨ x ≠ .gathers ∧ Reaches l := by
  constructor
  · rintro ⟨b, c, heq, hb⟩
    cases b with
    | nil => exact .inl (List.cons.inj heq).1
    | cons y b =>
      obtain ⟨rfl, rfl⟩ := List.cons.inj heq
      exact .inr ⟨fun hx => hb (hx ▸ mem_cons_self), b, c, rfl,
        fun hmem => hb (mem_cons_of_mem _ hmem)⟩
  · rintro (rfl | ⟨hx, b, c, rfl, hb⟩)
    · exact ⟨[], l, rfl, not_mem_nil⟩
    · exact ⟨x :: b, c, rfl, fun hmem => (mem_cons.1 hmem).elim (fun h => hx h.symm) hb⟩

lemma cutsShort_cons : CutsShort (x :: l) ↔ x = .writes ∧ Reaches l ∨ CutsShort l := by
  constructor
  · rintro ⟨a, b, c, heq, hb⟩
    cases a with
    | nil =>
      obtain ⟨rfl, rfl⟩ := List.cons.inj heq
      exact .inl ⟨rfl, b, c, rfl, hb⟩
    | cons y a =>
      obtain ⟨rfl, rfl⟩ := List.cons.inj heq
      exact .inr ⟨a, b, c, rfl, hb⟩
  · rintro (⟨rfl, b, c, rfl, hb⟩ | ⟨a, b, c, rfl, hb⟩)
    · exact ⟨[], b, c, rfl, hb⟩
    · exact ⟨x :: a, b, c, rfl, hb⟩

/-! ### Scanning -/

/-- Whether there are writes for some rows only, as far as the rows have come. -/
def after (pending : Bool) : Conduct → Bool
  | .writes => true
  | .gathers => false
  | .cuts | .passes => pending

def pending (start : Bool) (l : List Conduct) : Bool := l.foldl after start

/-- A cut meets pending writes. -/
def hits (start : Bool) : List Conduct → Bool
  | [] => false
  | c :: rest => (start && c == .cuts) || hits (c.after start) rest

lemma pending_append (start : Bool) (a b : List Conduct) :
    pending start (a ++ b) = pending (pending start a) b :=
  foldl_append

lemma hits_append (start : Bool) (a b : List Conduct) :
    hits start (a ++ b) = (hits start a || hits (pending start a) b) := by
  induction a generalizing start with
  | nil => rfl
  | cons c rest ih =>
    rw [cons_append, hits, ih, hits, Bool.or_assoc]
    rfl

lemma hits_iff : ∀ {start : Bool}, hits start l = true ↔ start = true ∧ Reaches l ∨
    CutsShort l := by
  induction l with
  | nil => simp [hits, Reaches, CutsShort]
  | cons c rest ih =>
    intro start
    rw [hits, Bool.or_eq_true, Bool.and_eq_true, beq_iff_eq, ih, reaches_cons, cutsShort_cons]
    cases c with
    | gathers | passes => simp [after]
    | writes =>
      simp only [after, reduceCtorEq, ne_eq, not_false_eq_true, true_and, and_false, false_or]
      tauto
    | cuts =>
      simp only [after, reduceCtorEq, ne_eq, not_false_eq_true, true_or, and_true, false_and,
        false_or]
      tauto

end Conduct

open Conduct

lemma cutsShort_iff_hits : CutsShort l ↔ hits false l = true := by
  rw [hits_iff]
  simp

instance (l : List Conduct) : Decidable (CutsShort l) := decidable_of_iff _ cutsShort_iff_hits.symm

/-! ### Lists that do the same -/

namespace Conduct

/-- The lists do the same at any place of a program. -/
def Like (l l' : List Conduct) : Prop :=
  ∀ start, pending start l = pending start l' ∧ hits start l = hits start l'

instance (l l' : List Conduct) : Decidable (Like l l') :=
  inferInstanceAs (Decidable (∀ start, pending start l = pending start l' ∧
    hits start l = hits start l'))

variable {a b c a' b' : List Conduct}

namespace Like

lemma refl (l : List Conduct) : Like l l := fun _ => ⟨rfl, rfl⟩

lemma trans (h : Like a b) (h' : Like b c) : Like a c := fun start =>
  ⟨(h start).1.trans (h' start).1, (h start).2.trans (h' start).2⟩

lemma append (h : Like a a') (h' : Like b b') : Like (a ++ b) (a' ++ b') := fun start => by
  rw [pending_append, pending_append, hits_append, hits_append, (h start).1, (h start).2, (h' _).1,
    (h' _).2]
  exact ⟨rfl, rfl⟩

lemma cutsShort (h : Like a b) : CutsShort a ↔ CutsShort b := by
  rw [cutsShort_iff_hits, cutsShort_iff_hits, (h false).2]

end Like

/-- Steps that do nothing of the kind. -/
lemma like_nil (h : ∀ c ∈ l, c = .passes) : Like l [] := by
  induction l with
  | nil => exact .refl _
  | cons c rest ih =>
    obtain ⟨rfl, hrest⟩ := forall_mem_cons.1 h
    have hfirst : Like [.passes] [] := by decide
    exact hfirst.append (ih hrest)

/-- Something is written or nothing is done. -/
def Writing (b : Bool) (l : List Conduct) : Prop := Like l (if b then [.writes] else [])

namespace Writing

lemma append {x y : Bool} (h : Writing x a) (h' : Writing y b) : Writing (x || y) (a ++ b) := by
  have hjoin : Like ((if x then [.writes] else []) ++ if y then [.writes] else [])
      (if x || y then [.writes] else []) := by
    cases x <;> cases y <;> decide
  exact (Like.append h h').trans hjoin

lemma of_forall (h : ∀ c ∈ l, c = .writes) : Writing (!l.isEmpty) l := by
  induction l with
  | nil => exact .refl _
  | cons c rest ih =>
    obtain ⟨rfl, hrest⟩ := forall_mem_cons.1 h
    exact append (x := true) (.refl [.writes]) (ih hrest)

end Writing

end Conduct

/-! ## Steps -/

/-- The step changes the graph, or collects what is to be deleted. -/
def Step.alters : Step → Bool
  | .addV _ | .addE _ _ _ | .property _ _ | .propertyFrom _ _ | .drop | .aggregate _ => true
  | _ => false

/-- Some step of the traversal, at any depth, changes the graph or collects. -/
def Traversal.alters (t : Traversal) : Bool := (walk t).any Step.alters

/-- What a step of the program does to the rows. -/
def Step.conduct : Step → Conduct
  | .addV _ | .addE _ _ _ | .property _ _ | .propertyFrom _ _ => .writes
  | .sideEffect t => if Traversal.alters t then .writes else .passes
  | .coalesce ts => if ts.any Traversal.alters then .writes else .passes
  | .barrier | .fold | .order _ | .group _ _ => .gathers
  | .limit _ | .range _ _ => .cuts
  | _ => .passes

/-- What the steps of a program do, one after another. -/
def Traversal.conducts (t : Traversal) : List Conduct := t.map Step.conduct

namespace Traversal

variable {a b t : Traversal}

lemma conducts_append (a b : Traversal) : (a ++ b).conducts = a.conducts ++ b.conducts := map_append

lemma alters_append : (a ++ b).alters = (a.alters || b.alters) := by
  simp [alters, walk_eq_flatMap]

lemma Calm.alters (h : t.Calm) : t.alters = false := by
  refine any_eq_false.2 fun s hs haltered => ?_
  have hcalm := h s hs
  cases s <;> simp_all [Step.isCalm, Step.alters]

lemma alters_concat (h : s.alters = true) : alters (a ++ [s]) = true := by
  rw [alters_append, Bool.or_eq_true]
  refine .inr (any_eq_true.2 ⟨s, ?_, h⟩)
  rw [walk, Step.walk_eq]
  exact mem_cons_self

lemma alters_cons (h : s.alters = true) : alters (s :: t) = true := by
  refine any_eq_true.2 ⟨s, ?_, h⟩
  rw [walk, Step.walk_eq]
  exact mem_cons_self

def Passes (t : Traversal) : Prop := ∀ s ∈ t, s.conduct = .passes

lemma Passes.like (h : t.Passes) : Like t.conducts [] := like_nil (forall_mem_map.2 h)

lemma Passes.append (ha : a.Passes) (hb : b.Passes) : Passes (a ++ b) :=
  forall_mem_append.2 ⟨ha, hb⟩

lemma Walks.passes (h : t.Walks) : t.Passes := by
  induction t with
  | nil => exact forall_mem_nil _
  | cons s rest ih =>
    obtain ⟨hs, -, hrest⟩ := allSteps_cons.1 h
    refine forall_mem_cons.2 ⟨?_, ih hrest⟩
    cases s with
    | addV | addE | property | propertyFrom | sideEffect | coalesce => cases hs
    | barrier | fold | order | group | limit | range => cases hs
    | _ => rfl

end Traversal

end CypherGremlin
