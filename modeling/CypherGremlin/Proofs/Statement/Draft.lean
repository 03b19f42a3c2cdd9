import CypherGremlin.Proofs.Statement.Lowers.Matching
import CypherGremlin.Proofs.Statement.Scoped.Expression
import CypherGremlin.Statement.Deleting

/-!
# Between clauses

Clauses are lowered one after another.  Of the steps of each two things are shown together, by
`Formed`: lowering can produce them, and they refer to visible labels only.

Between clauses a `Draft` says what the program so far has to offer.  `Draft.Holds V F draft` is the
invariant: the scope is clean, variables in scope and elements of paths are among the visible labels
`V`, and buckets in use are among the filled ones `F`.  A clause adds steps and leaves a draft;
`Continues` says that the steps are formed and that the draft holds after them.
-/

namespace CypherGremlin

variable {T : Sources} {F V : Set Label} {a b t : Traversal} {draft draft' : Draft}
  {first nullable : Bool} {l : Label} {kind : VarKind} {var : String} {scope : Scope}

open List Traversal

/-! ## Labels -/

namespace Label

lemma canStay_named {name : String} (h : Plain name) : (named name).CanStay :=
  ⟨h, by simp [IsBucket], by simp⟩

lemma canStay_token {t : Token} (hdelete : t ≠ .delete) (hdetach : t ≠ .detachDelete)
    (hgenerated : ∀ n, t ≠ .generated n) : (token t).CanStay :=
  ⟨trivial, by simp [IsBucket, hdelete, hdetach], by simpa using hgenerated⟩

/-- The label is that of an element of a pattern: a variable or a number. -/
def IsElement (l : Label) : Prop := (∃ var, l = .named var) ∨ ∃ n, l = .token (.unnamed n)

lemma IsElement.isRow (h : l.IsElement) : l.isRow = false := by
  rcases h with ⟨var, rfl⟩ | ⟨n, rfl⟩ <;> rfl

/-- The label can be selected, and it cannot be taken for another one. -/
def IsVisibleIn (V : Set Label) (l : Label) : Prop := l ∈ V ∧ l.Clean

lemma IsVisibleIn.mono {W : Set Label} (h : l.IsVisibleIn V) (hsub : V ⊆ W) :
    l.IsVisibleIn W := h.imp_left fun hl => hsub hl

end Label

/-! ## Steps -/

namespace Lowered

lemma flatMap {α : Type} {f : α → Traversal} {as : List α} (h : ∀ a ∈ as, Lowered T (f a)) :
    Lowered T (as.flatMap f) := by
  rw [List.flatMap_def]
  exact flatten (forall_mem_map.2 h)

lemma ite {c : Prop} [Decidable c] (ha : Lowered T a) (hb : Lowered T b) :
    Lowered T (if c then a else b) := by
  split
  · exact ha
  · exact hb

lemma as (h : l.CanStay) : Lowered T [.as l] := leaf h rfl

lemma selectKey {name : String} (h : Plain name) : Lowered T [.selectKey (.named name)] :=
  leaf ⟨h, .inl ⟨name, rfl⟩⟩ rfl

lemma sideEffect (h : Lowered T t) : Lowered T [.sideEffect t] :=
  step trivial (forall_mem_singleton.2 h)

end Lowered

/-- Lowering can produce the traversal, and it refers to labels only where they are visible. -/
structure Formed (T : Sources) (first : Bool) (V : Set Label) (t : Traversal) : Prop where
  lowered : Lowered T t
  visible : Scoped first V t

namespace Formed

lemma nil : Formed T first V [] := ⟨.nil, .nil⟩

lemma mono {W : Set Label} (h : Formed T first V t) (hsub : V ⊆ W) :
    Formed T first W t := ⟨h.lowered, h.visible.mono hsub⟩

lemma inner (h : Formed T first V t) : Formed T true V t := ⟨h.lowered, h.visible.inner⟩

lemma append (ha : Formed T first V a) (hb : Formed T false (V ∪ puts a) b) :
    Formed T first V (a ++ b) :=
  ⟨.append ha.lowered hb.lowered, ha.visible.append hb.visible⟩

lemma andThen (ha : Formed T first V a) (hb : Formed T false V b) : Formed T first V (a ++ b) :=
  ha.append (hb.mono Set.subset_union_left)

lemma flatMap {α : Type} {f : α → Traversal} {as : List α} (h : ∀ x ∈ as, Formed T false V (f x)) :
    Formed T false V (as.flatMap f) := by
  refine ⟨.flatMap fun x hx => (h x hx).lowered, ?_⟩
  rw [flatMap_def]
  exact .flatten (forall_mem_map.2 fun x hx => (h x hx).visible)

lemma of_forall (h : ∀ s ∈ t, Formed T false V [s]) : Formed T false V t := by
  simpa using flatMap h

lemma ite {c : Prop} [Decidable c] (ha : Formed T first V a) (hb : Formed T first V b) :
    Formed T first V (if c then a else b) := by
  split
  · exact ha
  · exact hb

/-- What has nothing to do with labels. -/
lemma bland (hbland : isBland t = true) (h : Lowered T t) : Formed T first V t := ⟨h, .bland hbland⟩

/-- A step with traversals inside, which has nothing to do with labels itself. -/
lemma frame {s : Step} (hbland : s.isBland = true) (own : s.Own T)
    (h : ∀ c ∈ s.children, Formed T true V c) :
    Formed T first V [s] :=
  ⟨.step own fun c hc => (h c hc).lowered, .inside (Step.standsAnywhere_of_isBland hbland)
    (Step.references_of_isBland hbland) fun c hc => (h c hc).visible⟩

lemma leaf {s : Step} (hbland : s.isBland = true) (own : s.Own T) (h : s.children = []) :
    Formed T first V [s] :=
  frame hbland own (by simp [h])

lemma put (h : l.CanStay) (hrow : l.isRow = false) : Formed T first V [.as l] :=
  ⟨.as h, .inside hrow rfl (forall_mem_nil _)⟩

lemma select (h : l.IsVisibleIn V) : Formed T true V [.select [l]] := ⟨.select h.2, .select h.1⟩

lemma whereLabel (h : l.IsVisibleIn V) (comparison : LabelComparison) :
    Formed T first V [.whereLabel comparison l] :=
  ⟨.leaf h.2 rfl, .whereLabel h.1 comparison⟩

lemma sideEffect (h : Formed T true V t) : Formed T first V [.sideEffect t] :=
  frame rfl trivial (forall_mem_singleton.2 h)

lemma project {entries : List (Label × Traversal)} (hne : entries ≠ [])
    (h : ∀ entry ∈ entries, entry.1.Clean ∧ Formed T false V entry.2) :
    Formed T first V [.project entries] :=
  frame rfl ⟨hne, fun entry hentry => (h entry hentry).1⟩
    (forall_mem_map.2 fun entry hentry => (h entry hentry).2.inner)

end Formed

/-! ## The state between clauses -/

/-- The elements of a hop of a named path: the marker of the relationship, and the label of the
node. -/
def hopElements (hop : String × Label) : List PathElement :=
  [⟨.token (.pathEdge hop.1), .relationship⟩, ⟨hop.2, .node⟩]

/-- The path has markers where it starts and on its relationships, and nowhere else. -/
def PathShape.Marked (shape : PathShape) : Prop :=
  ∃ (path : String) (hops : List (String × Label)),
    shape.elements = ⟨.token (.pathStart path), .node⟩ :: hops.flatMap hopElements ∧
    ∀ hop ∈ hops, hop.2.IsElement

namespace Draft

/-- What the draft says of the program so far is true, where some labels are visible and some
buckets filled. -/
structure Holds (V F : Set Label) (draft : Draft) : Prop where
  clean : draft.scope.Clean
  scope : draft.scope.VisibleIn V
  marked : ∀ entry ∈ draft.scope.paths, entry.2.Marked
  plain : draft.buckets.plain = true → Deleting.plainBucket ∈ F
  detached : draft.buckets.detached = true → Deleting.detachedBucket ∈ F

namespace Holds

lemma mono {W : Set Label} {G : Set Label} (h : draft.Holds V F) (hV : V ⊆ W) (hF : F ⊆ G) :
    draft.Holds W G :=
  ⟨h.clean, h.scope.mono hV, h.marked, fun hplain => hF (h.plain hplain),
    fun hdetached => hF (h.detached hdetached)⟩

lemma renumber (h : draft.Holds V F) (hnext : draft.Counts draft') : draft'.Holds V F := by
  constructor
  · exact hnext.scope ▸ h.clean
  · exact hnext.scope ▸ h.scope
  · exact hnext.scope ▸ h.marked
  · exact hnext.buckets ▸ h.plain
  · exact hnext.buckets ▸ h.detached

lemma visible (h : draft.Holds V F) (hvar : draft.scope.binds var = true) :
    (Label.named var).IsVisibleIn V :=
  ⟨h.scope.binds hvar, h.clean.binds hvar⟩

lemma reads (h : draft.Holds V F) (hreads : ∀ s ∈ t, s.Reads T draft.scope) : Formed T false V t :=
  ⟨.reads h.clean hreads, .reads h.scope hreads⟩

lemma declare (h : draft.Holds V F) (hvar : (Label.named var).IsVisibleIn V) (kind : VarKind)
    (nullable : Bool) :
    Holds V F { draft with scope := draft.scope.declare var kind nullable } := by
  have hkeys {P : String → Prop} (hvar : P var) (hold : ∀ v ∈ Table.keys draft.scope.vars, P v) :
      ∀ v ∈ Table.keys (draft.scope.declare var kind nullable).vars, P v := fun v hv =>
    (Table.mem_keys_put.1 hv).elim (fun heq => heq ▸ hvar) (hold v)
  exact ⟨⟨hkeys hvar.2 h.clean.vars, h.clean.paths⟩, ⟨hkeys hvar.1 h.scope.vars, h.scope.paths⟩,
    h.marked, h.plain, h.detached⟩

lemma declarePath (h : draft.Holds V F) (hvar : (Label.named var).IsVisibleIn V) {shape : PathShape}
    (hshape : ∀ element ∈ shape.elements, element.label.IsVisibleIn V) (hmarked : shape.Marked) :
    Holds V F { draft with scope := draft.scope.declarePath var shape } := by
  have hvars := h.declare hvar .path false
  have hpaths {P : PathShape → Prop} (hshape : P shape)
      (hold : ∀ entry ∈ draft.scope.paths, P entry.2) :
      ∀ entry ∈ (draft.scope.declarePath var shape).paths, P entry.2 := fun entry hentry =>
    (Table.mem_of_mem_put hentry).elim (fun heq => heq ▸ hshape) (hold entry)
  have hsome : shape.elements ≠ [] := by
    obtain ⟨_, _, heq, -⟩ := hmarked
    simp [heq]
  exact ⟨⟨hvars.clean.vars, hpaths ⟨hsome, fun element helem => (hshape element helem).2⟩
    h.clean.paths⟩,
    ⟨hvars.scope.vars, hpaths (fun element helem => (hshape element helem).1) h.scope.paths⟩,
    hpaths hmarked h.marked, h.plain, h.detached⟩

end Holds

end Draft

/-- The steps are formed where some labels are visible, and the draft holds after them. -/
structure Continues (T : Sources) (V F : Set Label) (steps : Traversal) (draft : Draft) : Prop where
  formed : Formed T false V steps
  holds : draft.Holds (V ∪ puts steps) (F ∪ fills steps)

namespace Continues

/-- Steps after which nothing new is in scope. -/
lemma of_holds (hsteps : Formed T false V a) (h : draft.Holds V F) : Continues T V F a draft :=
  ⟨hsteps, h.mono Set.subset_union_left Set.subset_union_left⟩

lemma append (ha : Formed T false V a) (hb : Continues T (V ∪ puts a) (F ∪ fills a) b draft) :
    Continues T V F (a ++ b) draft := by
  refine ⟨ha.append hb.formed, ?_⟩
  rw [puts_append, fills_append, ← Set.union_assoc, ← Set.union_assoc]
  exact hb.holds

/-- Steps after the last ones. -/
lemma andThen (ha : Continues T V F a draft) (hb : Formed T false (V ∪ puts a) b)
    (hnext : draft.Counts draft') : Continues T V F (a ++ b) draft' :=
  append ha.formed (of_holds hb (ha.holds.renumber hnext))

end Continues

/-! ## What the clauses have in common -/

namespace Draft

lemma Computes.formed {goal : Goal} {e : Expr} (h : draft.Computes goal e t draft')
    (hdraft : draft.Holds V F) (hT : e.Within T) : Formed T false V t :=
  have hcomposed := h.lowers.composed hT
  ⟨hcomposed.lowered hdraft.clean, hcomposed.scoped hdraft.scope⟩

lemma Tests.formed {e : Option Expr} (h : draft.Tests e t draft') (hdraft : draft.Holds V F)
    (hT : ∀ e' ∈ e, e'.Within T) : Formed T false V t := by
  cases h with
  | none => exact .nil
  | some h => exact .frame rfl trivial (forall_mem_singleton.2 (h.formed hdraft (hT _ rfl)).inner)

namespace Labels

variable {var : Option String} (h : draft.Labels kind nullable var l draft')
include h

lemma isElement : l.IsElement := by
  cases h with
  | number => exact .inr ⟨_, rfl⟩
  | var => exact .inl ⟨_, rfl⟩

lemma canStay : l.CanStay := by
  cases h with
  | number => exact Label.canStay_token (by simp) (by simp) (by simp)
  | var hplain => exact Label.canStay_named hplain

/-- Steps that end in putting the label. -/
lemma continues (ha : Formed T false V a) (hdraft : draft.Holds V F) :
    Continues T V F (a ++ [.as l]) draft' := by
  have hholds : draft'.Holds (V ∪ {l}) F := by
    have hdraft := hdraft.mono (W := V ∪ {l}) Set.subset_union_left subset_rfl
    cases h with
    | number => exact hdraft.renumber (.succ draft)
    | var hplain => exact hdraft.declare ⟨by simp, hplain⟩ kind nullable
  refine ⟨ha.andThen (.put h.canStay h.isElement.isRow), hholds.mono ?_ Set.subset_union_left⟩
  rw [puts_append, puts_as]
  exact Set.union_subset_union_right V Set.subset_union_right

lemma visible (V : Set Label) (a : Traversal) : l.IsVisibleIn (V ∪ puts (a ++ [.as l])) :=
  ⟨.inr (by simp [mem_puts]), h.canStay.1⟩

end Labels

end Draft

lemma mem_puts_rebinding {row : Label} {vars : List String} (h : var ∈ vars) :
    .named var ∈ puts (rebinding row vars) := by
  rw [mem_puts, rebinding]
  exact mem_cons_of_mem _ (mem_flatMap.2 ⟨var, h, by simp⟩)

/-- Rows are numbered behind a step that gives maps, and variables are read from the map of the row.
-/
lemma Formed.rebinding {s : Step} (h : Formed T first V (a ++ [s])) (hs : s.isSolid = true)
    (n : UInt32) {vars : List String}
    (hvars : ∀ var ∈ vars, Plain var) :
    Formed T first V (a ++ [s] ++ rebinding (.token (.freshId n)) vars) := by
  have hstay : (Label.token (.freshId n)).CanStay :=
    Label.canStay_token (by simp) (by simp) (by simp)
  have hrow : Formed T first V (a ++ [s, .as (.token (.freshId n))]) := by
    refine ⟨?_, h.visible.row hs n⟩
    simpa using Lowered.append h.lowered (.as hstay)
  have hsplit : a ++ [s] ++ CypherGremlin.rebinding (.token (.freshId n)) vars = a ++
      [s, .as (.token (.freshId n))] ++
      vars.flatMap fun var => [.select [.token (.freshId n)], .selectKey (.named var),
      .as (.named var)] := by
    simp [CypherGremlin.rebinding]
  rw [hsplit]
  refine hrow.append (.flatMap fun var hvar => ?_)
  have hsel : Formed T false (V ∪ puts (a ++ [s, .as (.token (.freshId n))]))
      [.select [.token (.freshId n)]] := by
    refine ⟨.select trivial, .step (fun _ => rfl) ?_ (forall_mem_nil _)⟩
    exact forall_mem_singleton.2 (.inr (by simp [mem_puts]))
  exact (hsel.andThen (.bland rfl (.selectKey (hvars var hvar)))).andThen
    (.put (Label.canStay_named (hvars var hvar)) rfl)

end CypherGremlin
