import CypherGremlin.Proofs.Statement.Adding
import CypherGremlin.Proofs.Statement.PredicateTypes
import CypherGremlin.Query.Equality

/-!
# What lowering checks of an expression

Lowering refuses what it has no traversal for only when it gets there: a variable that is not in
scope, an aggregate, an operator or a function that it does not know.  It gets to every part of an
expression with one exception.  A comparison with the literal null is never true, and its operands
are not looked at.

* `Expr.Exposes e x` says that `x` occurs in `e` outside such a comparison, at any depth.
* `Expr.Fits names x` is what is checked of `x` by itself, and `Expr.IsProper` asks it of everything
  that is exposed.
* `Expr.Examined names e t` adds that the types that `e` tests are in the traversal, and
  `Expr.Lowers.examined` says this of an expression that is lowered to `t`, whatever it is lowered
  for.
* `Expr.IsProper.of_same` and `Expr.predicateTypes_eq_of_same` are for sort keys, which are not
  lowered if they equal a column.
-/

namespace CypherGremlin

variable {b e : Expr} {as bs : List Hop} {t : Traversal} {scope : Scope} {p : Pattern} {v : String}
  {names : List String}

open List

/-! ## Parts of an expression -/

namespace Expr

/-- The expressions that an expression is made of directly. -/
def parts : Expr → List Expr
  | .property base _ => [base]
  | .list items => items
  | .map entries => entries.map Prod.snd
  | .not inner | .isNull inner | .isNotNull inner => [inner]
  | .and l r | .or l r | .xor l r | .member l r => [l, r]
  | .compare _ l r | .stringMatch _ l r | .arithmetic _ l r => [l, r]
  | .pattern p => Pattern.values p
  | .call _ _ args => args
  | .literal _ | .parameter _ | .var _ | .hasLabels _ _ | .countStar => []

/-- The expression compares something with the literal null. -/
def comparesNull : Expr → Bool
  | .compare _ l r => l.isNullLiteral || r.isNullLiteral
  | _ => false

/-- The second expression occurs in the first one, and not as part of a comparison with null. -/
inductive Exposes : Expr → Expr → Prop
  | self (e : Expr) : Exposes e e
  | part {e part x : Expr} (mem : part ∈ e.parts) (reached : e.comparesNull = false)
    (rest : Exposes part x) : Exposes e x

/-- The name is that of a function that is computed from a row, as opposed to an aggregate. -/
def IsRowFunction (name : String) : Prop :=
  Aggregate.ofName? name = none ∧
    (Function.ofName name ≠ .other ∨ (CustomFunction.ofCypherName? name).isSome = true)

/-- What an expression has to be like apart from its parts: its variables are among the given names,
and it is neither an aggregate nor an operator or a function without a traversal.  A path that names
a pattern which is a test is nothing to the test. -/
def Fits (names : List String) : Expr → Prop
  | .var v | .hasLabels v _ => v ∈ names
  | .pattern p => (∀ v ∈ Pattern.nodeVars p, v ∈ names) ∧ Pattern.relVars p = []
  | .call name _ _ => IsRowFunction name
  | .xor _ _ | .arithmetic _ _ _ | .countStar => False
  | _ => True

/-- Everything that the expression exposes fits. -/
def IsProper (names : List String) (e : Expr) : Prop := ∀ x, e.Exposes x → x.Fits names

variable {names : List String} {l r : Expr}

/-- An expression is proper if it fits by itself and its parts are proper, as far as they matter. -/
lemma isProper_iff : e.IsProper names ↔
    e.Fits names ∧ (e.comparesNull = false → ∀ part ∈ e.parts, part.IsProper names) := by
  constructor
  · intro h
    exact ⟨h e (.self e), fun hreached part hmem x hx => h x (.part hmem hreached hx)⟩
  · rintro ⟨hfits, hparts⟩ x hx
    cases hx with
    | self => exact hfits
    | part hmem hreached hrest => exact hparts hreached _ hmem x hrest

/-- The types that an expression tests are those that its parts test, as far as they matter. -/
lemma predicateTypes_eq_parts (h : ∀ p, e ≠ .pattern p) :
    e.predicateTypes = if e.comparesNull then [] else e.parts.flatMap predicateTypes := by
  cases e with
  | pattern p => exact absurd rfl (h p)
  | list | call => exact allPredicateTypes_eq _
  | map => simp [predicateTypes, entryPredicateTypes_eq, parts, comparesNull, flatMap_map]
  | _ => simp [predicateTypes, parts, comparesNull]

/-- Lowering looks into the expression: it is proper, and the types that it tests reach the
traversal. -/
structure Examined (names : List String) (e : Expr) (t : Traversal) : Prop where
  proper : e.IsProper names
  reaches : Reaches e.predicateTypes t

namespace Examined

/-- Lowering looks into an expression if it looks into the parts, as far as they matter. -/
lemma of_parts (hfits : e.Fits names) (hpat : ∀ p, e ≠ .pattern p)
    (hparts : e.comparesNull = false → ∀ part ∈ e.parts, part.Examined names t) :
    e.Examined names t := by
  refine ⟨isProper_iff.2 ⟨hfits, fun hreached part hpart => (hparts hreached part hpart).proper⟩,
    ?_⟩
  rw [predicateTypes_eq_parts hpat]
  split
  · exact .nil
  · rename_i hreached
    intro type htype
    obtain ⟨part, hpart, htype⟩ := mem_flatMap.1 htype
    exact (hparts (Bool.eq_false_iff.2 hreached) part hpart).reaches htype

lemma intro (hfits : e.Fits names) (hparts : ∀ part ∈ e.parts, part.Examined names t)
    (hpat : ∀ p, e ≠ .pattern p := by simp) : e.Examined names t :=
  of_parts hfits hpat fun _ => hparts

lemma literal (l : Literal) : (Expr.literal l).Examined names t := .intro trivial (by simp [parts])

lemma parameter (name : String) : (Expr.parameter name).Examined names t :=
  .intro trivial (by simp [parts])

lemma var (h : v ∈ names) : (Expr.var v).Examined names t := .intro h (by simp [parts])

variable (h : e.Examined names t)
include h

lemma before (u : Traversal) : e.Examined names (t ++ u) := ⟨h.proper, h.reaches.before u⟩

lemma after (u : Traversal) : e.Examined names (u ++ t) := ⟨h.proper, h.reaches.after u⟩

lemma inside {s : Step} (ht : t ∈ s.children) : e.Examined names [s] :=
  ⟨h.proper, h.reaches.inside ht⟩

lemma ofValue (goal : Goal) : e.Examined names (goal.ofValue t) :=
  ⟨h.proper, h.reaches.ofValue goal⟩

lemma ofTest (goal : Goal) : e.Examined names (goal.ofTest t) := ⟨h.proper, h.reaches.ofTest goal⟩

end Examined

end Expr

/-- The variables in scope are among the given names. -/
def Scope.VarsIn (names : List String) (scope : Scope) : Prop :=
  ∀ v, scope.binds v = true → v ∈ names

namespace Scope.VarsIn

variable {names : List String}

lemma binding? (h : scope.VarsIn names) {binding : Binding} (hv : scope.binding? v = some binding) :
    v ∈ names :=
  h v (Table.has_iff.2 (Table.mem_keys_of_get? hv))

end Scope.VarsIn

section

variable (names : List String)

lemma Expr.Constant.examined {v : Value} (h : e.Constant v) (t : Traversal) :
    e.Examined names t := by
  cases h with
  | literal _ => exact .literal _
  | parameter _ => exact .parameter _

lemma Expr.Candidates.examined {vs : List Value} (h : e.Candidates vs) (t : Traversal) :
    e.Examined names t := by
  cases h with
  | literal _ => exact .literal _
  | list _ => exact .intro trivial (forall_mem_map.2 fun l _ => .literal l)
  | parameter _ => exact .parameter _

end

/-! ## Patterns -/

section

variable {names : List String}

variable (names) in
lemma PropertyTests.isProper {properties : List (String × Expr)} (h : PropertyTests properties t) :
    ∀ entry ∈ properties, entry.2.IsProper names := by
  intro entry hentry
  obtain ⟨_, -, -, v, hv, -⟩ := exists_mem_of_forall₂ h.flip entry hentry
  exact (hv.examined names t).proper

variable (names) in
lemma NodePattern.TestedBy.isProper {node : NodePattern} (h : NodePattern.TestedBy node t) :
    ∀ entry ∈ node.properties, entry.2.IsProper names := by
  obtain ⟨-, htests⟩ := h
  exact htests.isProper names

lemma Scope.Joins.mem (hscope : scope.VarsIn names) {var? : Option String}
    (h : scope.Joins var? t) : ∀ v ∈ var?, v ∈ names := by
  cases h with
  | none hvar => simp [hvar]
  | some hvar hbound =>
    rintro v hv
    obtain rfl := Option.some.inj (hvar.symm.trans hv)
    exact hscope _ hbound

lemma Pattern.TestedBy.isProper (hscope : scope.VarsIn names)
    (h : Pattern.TestedBy scope p t) : (Expr.pattern p).IsProper names := by
  obtain ⟨hvar, hbound, hstart, hhops⟩ := h
  have hhop : ∀ hop ∈ p.hops, ∃ t, Hop.TestedBy scope hop t := fun hop hmem => by
    obtain ⟨t, -, ht⟩ := exists_mem_of_forall₂ hhops.flip hop hmem
    exact ⟨t, ht⟩
  refine Expr.isProper_iff.2 ⟨⟨?_, ?_⟩, fun _ => ?_⟩
  · rw [Pattern.nodeVars]
    intro v hv
    obtain ⟨node, hnode, hv⟩ := mem_filterMap.1 hv
    rcases mem_cons.1 hnode with rfl | hnode
    · obtain rfl := Option.some.inj (hvar.symm.trans hv)
      exact hscope _ hbound
    · obtain ⟨hop, hmem, rfl⟩ := mem_map.1 hnode
      obtain ⟨_, -, -, hjoin, -⟩ := hhop hop hmem
      exact hjoin.mem hscope v hv
  · refine filterMap_eq_nil_iff.2 fun hop hmem => ?_
    obtain ⟨_, hanonymous, -⟩ := hhop hop hmem
    exact hanonymous
  · refine forall_mem_map.2 (forall_mem_append.2 ⟨hstart.isProper names, ?_⟩)
    refine forall_mem_flatMap.2 fun hop hmem => ?_
    obtain ⟨_, -, hrel, -, hnode⟩ := hhop hop hmem
    exact forall_mem_append.2 ⟨hrel.isProper names, hnode.isProper names⟩

end

section

variable {names : List String}

lemma isRowFunction_of_ne {name : String} (hagg : Function.ofName name ≠ .aggregate)
    (hother : Function.ofName name = .other → (CustomFunction.ofCypherName? name).isSome = true) :
    Expr.IsRowFunction name := by
  refine ⟨?_, ?_⟩
  · by_contra hsome
    refine hagg ?_
    rw [Function.ofName, if_pos (Option.isSome_iff_ne_none.2 hsome)]
  · exact (ne_or_eq _ _).imp_right hother

lemma Function.yields_body_other (f : Function) (mode : Mode) (name : String) (arg : Expr) :
    Yields (f.body scope mode name arg) fun _ => f = .other →
    (CustomFunction.ofCypherName? name).isSome = true := by
  rw [Function.body.eq_def]
  split
  case h_7 =>
    split
    · rename_i hcustom
      exact fun _ _ _ => by simp [hcustom]
    · exact .error
  all_goals exact fun _ _ h => by simp at h

end

/-- Lowering looks into an expression, whatever it is lowered for. -/
theorem Expr.Lowers.examined (hscope : scope.VarsIn names) {goal : Goal}
    (h : e.Lowers scope goal t) : e.Examined names t := by
  have hone {x : Expr} {t : Traversal} (hx : x.Examined names t) : ∀ part ∈ [x], part.Examined
      names t :=
    forall_mem_singleton.2 hx
  have htwo {x y : Expr} {t : Traversal} (goal : Goal) (hx : x.Examined names t)
      (hy : y.Examined names t) :
      ∀ part ∈ [x, y], part.Examined names (goal.ofTest t) :=
      forall_mem_cons.2 ⟨hx.ofTest goal, hone (hy.ofTest goal)⟩
  have hzip {α β : Type} {as : List α} {bs : List β} {f : α → Expr} {g : β → Traversal}
      {u : Traversal}
      (hlen : as.length = bs.length) (hes : ∀ p ∈ as.zip bs, (f p.1).Examined names (g p.2))
      (hu : ∀ b ∈ bs, ∀ e : Expr, e.Examined names (g b) → e.Examined names u) : ∀ a ∈ as,
      (f a).Examined names u := by
    have hfst : (as.zip bs).map Prod.fst = as := map_fst_zip hlen.le
    rw [← hfst]
    exact forall_mem_map.2 fun p hp => hu p.2 (of_mem_zip hp).2 _ (hes p hp)
  have hrow {name : String} {f : Function} (hname : Function.ofName name = f)
      (hagg : f ≠ .aggregate) (hother : f ≠ .other) : IsRowFunction name :=
    isRowFunction_of_ne (hname ▸ hagg) fun h => absurd (hname.symm.trans h) hother
  have hvar {v : String} {t : Traversal} (hbound : scope.binds v = true) : (Expr.var v).Examined
      names t :=
    .var (hscope v hbound)
  have hspread {x : Expr} {t : Traversal} {ts : List Traversal} {s : Step} (hx : x.Examined names t)
      (hts : ts = [t] ∨ t = [.and ts] ∨ t = [.or ts]) (hsub : ts ⊆ s.children) : x.Examined
      names [s] :=
    ⟨hx.proper, .insideAll (hx.reaches.spread hts) hsub⟩
  -- The traversals of the parts stand in that of the whole, which says where they are reached.
  induction h with
  | always | never | literal => exact .literal _
  | parameter => exact .parameter _
  | var _ hread => exact hvar hread.bound
  | direct _ hbound _ => exact .intro trivial (hone (.var (hscope.binding? hbound)))
  | property goal _ _ ih => exact .intro trivial (hone ((ih.before _).ofValue goal))
  | not goal _ ih => exact .intro trivial (hone ((ih.inside mem_cons_self).ofTest goal))
  | isNull goal _ ih | isNotNull goal _ ih =>
    exact .intro trivial (hone ((ih.before _).ofTest goal))
  | constants => exact .intro trivial (forall_mem_map.2 fun l _ => .literal l)
  | list goal _ hlen _ ih =>
    refine .intro trivial (hzip (g := id) hlen ih fun t ht e he => ?_)
    exact ((he.inside (s := .union _) ht).before [.fold]).ofValue goal
  | emptyMap => exact .intro trivial (by simp [parts])
  | @map goal entries ts _ hkeys _ _ ih =>
    have hlen : entries.length = ts.length := by simpa using (congrArg List.length hkeys).symm
    refine .intro trivial (forall_mem_map.2 (hzip hlen ih fun t ht e he => ?_))
    exact (he.inside (mem_map_of_mem ht)).ofValue goal
  | @and goal l r left right _ _ ihleft ihright =>
    refine .intro trivial (htwo goal ?_ ?_)
    · exact hspread ihleft ((l.conjuncts_eq left).imp_right .inl) (subset_append_left _ _)
    · exact hspread ihright ((r.conjuncts_eq right).imp_right .inl) (subset_append_right _ _)
  | @or goal l r left right _ _ ihleft ihright =>
    refine .intro trivial (htwo goal ?_ ?_)
    · exact hspread ihleft ((l.disjuncts_eq left).imp_right .inr) (subset_append_left _ _)
    · exact hspread ihright ((r.disjuncts_eq right).imp_right .inr) (subset_append_right _ _)
  | compareNull _ _ hnull =>
    exact .of_parts trivial (by simp) fun hreached => absurd hnull (Bool.eq_false_iff.1 hreached)
  | compareRight goal _ _ hv _ ih =>
    exact .intro trivial (htwo goal (ih.before _) (hv.examined names _))
  | compareLeft goal _ _ hv _ ih =>
    exact .intro trivial (htwo goal (hv.examined names _) (ih.before _))
  | compare goal _ _ _ _ _ _ _ ihright ihleft =>
    refine .intro trivial (htwo goal ?_ ?_)
    · exact (ihleft.after _).before _
    · exact ((ihright.before _).before _).before _
  | stringMatch goal _ hv _ ih =>
    exact .intro trivial (htwo goal (ih.before _) (hv.examined names _))
  | member goal hvs _ ih => exact .intro trivial (htwo goal (ih.before _) (hvs.examined names _))
  | hasLabels _ hbound _ => exact .intro (hscope _ hbound) (by simp [parts])
  | pattern goal htest => exact .ofTest ⟨htest.isProper hscope, htest.reaches⟩ goal
  | coalesce goal hname hlen _ ih =>
    refine .intro (hrow hname (by simp) (by simp)) (hzip (g := id) hlen ih fun t ht e he => ?_)
    exact ((he.before [.notNull]).inside (s := .coalesce _)
      (mem_append_left _ (mem_map.2 ⟨t, ht, rfl⟩))).ofValue goal
  | range _ hname hlits _ =>
    refine .intro (hrow hname (by simp) (by simp)) fun e he => ?_
    obtain ⟨l, rfl⟩ := hlits e he
    exact .literal l
  | pathPart _ _ hname hpath =>
    refine .intro ?_ (hone (hvar hpath.binds))
    rcases hname with hname | hname <;> exact hrow hname (by simp) (by simp)
  | existence goal hname _ _ _ ih =>
    exact .intro (hrow hname (by simp) (by simp))
      (hone (.intro trivial (hone ((ih.before _).ofValue goal))))
  | pathLength _ hname hpath =>
    exact .intro (hrow hname (by simp) (by simp)) (hone (hvar hpath.binds))
  | function goal hname hbody _ ih =>
    refine .intro (isRowFunction_of_ne (fun heq => hname (by simp [heq])) ?_)
      (hone ((ih.before _).ofValue goal))
    exact Function.yields_body_other _ _ _ _ _ hbody

/-! ## Equal expressions -/

section

lemma forall₂_of_sameExprs {as bs : List Expr} (h : sameExprs as bs = true) :
    List.Forall₂ (fun a b => a.same b = true) as bs := by
  induction as generalizing bs with
  | nil => cases bs <;> simp_all [sameExprs]
  | cons a rest ih => cases bs <;> simp_all [sameExprs]

lemma forall₂_of_sameExprEntries {as bs : List (String × Expr)} (h : sameExprEntries as bs = true) :
    List.Forall₂ (fun a b => a.2.same b.2 = true) as bs := by
  induction as generalizing bs with
  | nil => cases bs <;> simp_all [sameExprEntries]
  | cons a rest ih => cases bs <;> simp_all [sameExprEntries]

/-- What equal hops have in common. -/
structure SameHop (a b : Hop) : Prop where
  rel : a.rel.var = b.rel.var
  types : a.rel.types = b.rel.types
  node : a.node.var = b.node.var
  values : List.Forall₂ (fun x y => x.2.same y.2 = true) (a.rel.properties ++ a.node.properties)
    (b.rel.properties ++ b.node.properties)

lemma forall₂_of_sameHops (h : sameHops as bs = true) : List.Forall₂ SameHop as bs := by
  induction as generalizing bs with
  | nil => cases bs <;> simp_all [sameHops]
  | cons a rest ih =>
    cases bs with
    | nil => simp [sameHops] at h
    | cons b rest' =>
      simp only [sameHops, sameRels.eq_def, sameNodes.eq_def, Bool.and_eq_true, beq_iff_eq] at h
      obtain ⟨⟨⟨⟨⟨⟨hrel, htypes⟩, -⟩, hrelValues⟩, -⟩, ⟨hnode, -⟩, hnodeValues⟩, hrest⟩ := h
      refine .cons ⟨hrel, htypes, hnode, ?_⟩ (ih hrest)
      exact rel_append (forall₂_of_sameExprEntries hrelValues)
        (forall₂_of_sameExprEntries hnodeValues)

/-- What equal expressions have in common: equal parts in the same order, and what they have to be
like by themselves. -/
structure SameForm (a b : Expr) : Prop where
  parts : List.Forall₂ (fun x y => x.same y = true) a.parts b.parts
  reached : a.comparesNull = b.comparesNull
  fits : ∀ names, a.Fits names → b.Fits names

/-- The variables and the types of equal hops. -/
lemma vars_eq_of_sameHop (h : List.Forall₂ SameHop as bs) :
    (as.map (·.node)).filterMap (·.var) = (bs.map (·.node)).filterMap (·.var) ∧
      as.filterMap (·.rel.var) = bs.filterMap (·.rel.var) ∧
      (as.flatMap fun hop => hop.rel.types) = bs.flatMap fun hop => hop.rel.types := by
  induction h with
  | nil => exact ⟨rfl, rfl, rfl⟩
  | cons hhop _ ih => simp [filterMap_cons, hhop.node, hhop.rel, hhop.types, ih]

lemma forall₂_values_of_sameHop (h : List.Forall₂ SameHop as bs) :
    List.Forall₂ (fun x y => x.2.same y.2 = true)
    (as.flatMap fun hop => hop.rel.properties ++ hop.node.properties)
    (bs.flatMap fun hop => hop.rel.properties ++ hop.node.properties) := by
  induction h with
  | nil => exact .nil
  | cons hhop _ ih => exact rel_append hhop.values ih

lemma sameForm_pattern {q : Pattern} (h : samePatterns p q = true) :
    SameForm (.pattern p) (.pattern q) := by
  simp only [samePatterns.eq_def, sameNodes.eq_def, Bool.and_eq_true, beq_iff_eq] at h
  obtain ⟨⟨-, ⟨hstart, -⟩, hstartValues⟩, hhops⟩ := h
  have hsame := forall₂_of_sameHops hhops
  obtain ⟨hnodes, hrels, -⟩ := vars_eq_of_sameHop hsame
  have hnodeVars : Pattern.nodeVars p = Pattern.nodeVars q := by
    rw [Pattern.nodeVars, Pattern.nodeVars, filterMap_cons, filterMap_cons, hstart, hnodes]
  refine ⟨?_, rfl, fun names hfits => ?_⟩
  · refine forall₂_map_left_iff.2 (forall₂_map_right_iff.2 ?_)
    exact rel_append (forall₂_of_sameExprEntries hstartValues) (forall₂_values_of_sameHop hsame)
  · exact ⟨fun v hv => hfits.1 v (hnodeVars ▸ hv), hrels.symm.trans hfits.2⟩

lemma isNullLiteral_eq_of_same {a b : Expr} (h : a.same b = true) :
    a.isNullLiteral = b.isNullLiteral := by
  cases a <;> cases b <;> simp_all [Expr.same, Expr.isNullLiteral]
  rename_i l l'
  cases l <;> cases l' <;> simp_all [Literal.same]

lemma sameForm_of_same {a : Expr} (h : a.same b = true) : SameForm a b := by
  have hone {x y : Expr} (hxy : x.same y = true) : List.Forall₂ (fun x y => x.same y = true) [x]
      [y] := .cons hxy .nil
  have htwo {x y z w : Expr} (hxy : x.same y = true) (hzw : z.same w = true) :
      List.Forall₂ (fun x y => x.same y = true) [x, z] [y, w] := .cons hxy (hone hzw)
  cases a <;> cases b <;> simp only [Expr.same, Bool.and_eq_true, Bool.false_eq_true,
    beq_iff_eq] at h
  case pattern.pattern => exact sameForm_pattern h
  case list.list => exact ⟨forall₂_of_sameExprs h, rfl, fun _ _ => trivial⟩
  case map.map =>
    refine ⟨?_, rfl, fun _ _ => trivial⟩
    exact forall₂_map_left_iff.2 (forall₂_map_right_iff.2 (forall₂_of_sameExprEntries h))
  case call.call =>
    obtain ⟨⟨rfl, -⟩, hargs⟩ := h
    exact ⟨forall₂_of_sameExprs hargs, rfl, fun _ hfits => hfits⟩
  case compare.compare =>
    refine ⟨htwo h.1.2 h.2, ?_, fun _ _ => trivial⟩
    rw [Expr.comparesNull, Expr.comparesNull, isNullLiteral_eq_of_same h.1.2,
      isNullLiteral_eq_of_same h.2]
  case var.var => exact ⟨.nil, rfl, fun _ hfits => h ▸ hfits⟩
  case hasLabels.hasLabels => exact ⟨.nil, rfl, fun _ hfits => h.1 ▸ hfits⟩
  case literal.literal | parameter.parameter => exact ⟨.nil, rfl, fun _ _ => trivial⟩
  case countStar.countStar => exact ⟨.nil, rfl, fun _ hfits => hfits⟩
  case property.property => exact ⟨hone h.1, rfl, fun _ _ => trivial⟩
  case not.not | isNull.isNull | isNotNull.isNotNull => exact ⟨hone h, rfl, fun _ _ => trivial⟩
  case and.and | or.or | member.member => exact ⟨htwo h.1 h.2, rfl, fun _ _ => trivial⟩
  case xor.xor => exact ⟨htwo h.1 h.2, rfl, fun _ hfits => hfits⟩
  case stringMatch.stringMatch => exact ⟨htwo h.1.2 h.2, rfl, fun _ _ => trivial⟩
  case arithmetic.arithmetic => exact ⟨htwo h.1.2 h.2, rfl, fun _ hfits => hfits⟩

/-- What an expression exposes has its equal in what an equal expression exposes. -/
lemma Expr.Exposes.of_same {y : Expr} (h : b.Exposes y) : ∀ {a : Expr}, a.same b = true →
    ∃ x, a.Exposes x ∧ x.same y = true := by
  induction h with
  | self b => exact fun hsame => ⟨_, .self _, hsame⟩
  | @part b part y hmem hreached _ ih =>
    intro a hsame
    have hform := sameForm_of_same hsame
    obtain ⟨part', hmem', hpart⟩ := exists_mem_of_forall₂ hform.parts part hmem
    obtain ⟨x, hx, hxy⟩ := ih hpart
    exact ⟨x, .part hmem' (hform.reached.trans hreached) hx, hxy⟩

/-- An expression that equals a proper one is proper. -/
theorem Expr.IsProper.of_same {a : Expr} (ha : a.IsProper names) (h : a.same b = true) :
    b.IsProper names := by
  intro y hy
  obtain ⟨x, hx, hxy⟩ := hy.of_same h
  exact (sameForm_of_same hxy).fits names (ha x hx)

namespace Expr

lemma sizeOf_lt_of_mem_parts {x : Expr} (h : ∀ p, e ≠ .pattern p) (hx : x ∈ e.parts) :
    sizeOf x < sizeOf e := by
  cases e with
  | pattern p => exact absurd rfl (h p)
  | list | call =>
    have hlt := List.sizeOf_lt_of_mem hx
    simp only [parts, list.sizeOf_spec, call.sizeOf_spec] at hlt ⊢
    omega
  | map =>
    obtain ⟨⟨key, x⟩, hentry, rfl⟩ := mem_map.1 hx
    have hlt := List.sizeOf_lt_of_mem hentry
    simp only [Prod.mk.sizeOf_spec, map.sizeOf_spec] at hlt ⊢
    omega
  | _ =>
    simp only [parts, mem_cons, not_mem_nil, or_false] at hx
    all_goals obtain rfl | rfl := hx <;> simp <;> omega

/-- Equal expressions test the same types. -/
theorem predicateTypes_eq_of_same {a : Expr} (h : a.same b = true) :
    a.predicateTypes = b.predicateTypes := by
  induction hsize : sizeOf a using Nat.strong_induction_on generalizing a b with
  | _ n ih =>
    obtain ⟨hparts, hreached, -⟩ := sameForm_of_same h
    by_cases hpat : ∃ p, a = .pattern p
    · obtain ⟨p, rfl⟩ := hpat
      cases b <;> simp only [same, samePatterns.eq_def, Bool.and_eq_true, Bool.false_eq_true] at h
      exact (vars_eq_of_sameHop (forall₂_of_sameHops h.2)).2.2
    · have ha : ∀ p, a ≠ .pattern p := not_exists.1 hpat
      have hb : ∀ q, b ≠ .pattern q := by
        rintro q rfl
        cases a <;> simp_all [same]
      have htypes : a.parts.map predicateTypes = b.parts.map predicateTypes := by
        rw [← forall₂_eq_eq_eq, forall₂_map_left_iff, forall₂_map_right_iff]
        refine ((forall₂_and_left _ _).2 ⟨fun x => sizeOf_lt_of_mem_parts ha, hparts⟩).imp
          fun x y hxy => ?_
        exact ih _ (hsize ▸ hxy.1) hxy.2 rfl
      rw [predicateTypes_eq_parts ha, predicateTypes_eq_parts hb, hreached, flatMap_def,
        flatMap_def, htypes]

end Expr

end

end CypherGremlin
