import CypherGremlin.Proofs.Statement.Examined

/-!
# Reserved texts in a statement

No name and no string of a query gets into its traversal if it begins like an encoded token.  There
is one exception, the types of the relationships of a pattern that is a test.
`Query.yields_lowered` says that there is no other; `Query.yields_reaches` says that it is a true
exception, because each of these types does get into the traversal.  Together they give the exact
condition, `Query.reserved_iff`.

Names and tokens are kept apart in this way, so different labels of a traversal stay different when
they are written (`Query.label_encode_ne`).
-/

namespace CypherGremlin

variable {e : Expr} {ps : List Pattern} {condition : Option Expr}
  {p : Projection} {draft draft' : Draft} {t : Traversal}

open List

/-! ## MATCH -/

lemma Matching.All.reaches {isOptional : Bool}
    (h : All isOptional draft ps condition t draft') :
    ∀ e ∈ condition, Reaches e.predicateTypes t := by
  obtain ⟨-, htests⟩ := h
  exact fun e he => ((htests.examined (Draft.varsIn_keys _) e he).after _).reaches

lemma Matching.Tries.reaches (h : Tries draft ps condition t draft') :
    ∀ e ∈ condition, Reaches e.predicateTypes t := by
  have hchoice {matched : Traversal} {draft' : Draft}
      (hall : All true draft ps condition matched draft')
      (vars : List String) : ∀ e ∈ condition, Reaches e.predicateTypes [choice matched vars] :=
      fun e he =>
    ((hall.reaches e he).before _).inside mem_cons_self
  cases h with
  | checks hall => exact hchoice hall _
  | binds hall => exact fun e he => (hchoice hall _ e he).before _

/-! ## WITH, RETURN and UNWIND -/

namespace Projecting

variable {mode : Mode} {columns : List (Item Expr)} {scope : Scope} {names : List String}

/-- The argument of an aggregate has all the types of its column. -/
lemma Columns.reaches (h : Columns scope p columns)
    (hx : ∀ column ∈ columns, ColumnExamined names column t) :
    (∀ column ∈ columns, Reaches column.expr.predicateTypes t) ∧
      ∀ item ∈ p.items, ∃ column ∈ columns, column.expr = item.expr := by
  obtain ⟨-, -, listed, rfl, hlisted⟩ := h
  refine ⟨forall_mem_append.2 ⟨?_, fun column hcol => ?_⟩, fun item hitem => ?_⟩
  · rw [starred]
    split
    · exact forall_mem_map.2 fun _ _ => .nil
    · simp
  · obtain ⟨item, -, hlists⟩ := exists_mem_of_forall₂ hlisted column hcol
    have hcol := hx column (mem_append_right _ hcol)
    obtain ⟨name, e, role⟩ := column
    obtain ⟨-, -, hexpr, hplays⟩ := hlists
    rw [← hexpr] at hplays
    cases hplays with
    | key => exact hcol.reaches
    | countAll => exact .nil
    | aggregate => simpa [Expr.predicateTypes, Expr.allPredicateTypes] using hcol.reaches
  · obtain ⟨column, hcol, hlists⟩ := exists_mem_of_forall₂ hlisted.flip item hitem
    exact ⟨column, mem_append_right _ hcol, hlists.expr⟩

lemma IsColumn.predicateTypes_subset {column : Item Expr} (h : IsColumn e column) :
    e.predicateTypes ⊆ column.expr.predicateTypes := by
  rcases h with hsame | rfl
  · rw [Expr.predicateTypes_eq_of_same hsame]
    exact List.Subset.refl _
  · exact nil_subset _

/-- The rows and the modifiers of a projection together have the types of its columns and sort keys.
-/
lemma Makes.reaches_projection {rows modifiers : Traversal} {draft₁ : Draft}
    (h : Makes mode draft columns rows draft₁) (hmods : Modifies draft₁ p columns modifiers draft')
    (hcols : Columns draft.scope p columns) :
    ∀ e ∈ p.items.map (·.expr) ++ p.orderBy.map (·.expr), Reaches e.predicateTypes
    (rows ++ modifiers) := by
  obtain ⟨hrows, hitems⟩ := hcols.reaches (h.examined draft.varsIn_keys)
  obtain ⟨horder, -⟩ := hmods
  simp only [forall_mem_append, forall_mem_map]
  refine ⟨fun item hitem => ?_, fun sort hsort => ?_⟩
  · obtain ⟨column, hcol, heq⟩ := hitems item hitem
    exact heq ▸ (hrows column hcol).before _
  · rcases horder.examined draft₁.varsIn_keys sort hsort with ⟨column, hcol, his⟩ | hkey
    · exact Reaches.before (List.Subset.trans his.predicateTypes_subset (hrows column hcol)) _
    · refine Reaches.after (Reaches.before (Reaches.after ?_ _) _) _
      obtain ⟨_, hmem, -⟩ := id hkey
      rw [if_neg (by rintro hempty; simp [List.isEmpty_iff.1 hempty] at hmem)]
      exact (hkey.inside).reaches

lemma Carries.reaches (h : Carries draft p t draft') :
    ∀ e ∈ p.items.map (·.expr) ++ p.orderBy.map (·.expr) ++ p.condition.toList,
      Reaches e.predicateTypes t := by
  obtain ⟨-, hcols, hrows, hmods, htests⟩ := h
  refine forall_mem_append.2 ⟨fun e he => ?_, fun e he => ?_⟩
  · exact ((hrows.reaches_projection hmods hcols e he).before _).before _
  · exact ((htests.examined (Draft.varsIn_keys _) e (Option.mem_toList.1 he)).after _).reaches

lemma Unwinds.reaches {name : String} (h : Unwinds draft e name t draft') :
    Reaches e.predicateTypes t := by
  obtain ⟨-, hval⟩ := h
  have hval := (hval.examined draft.varsIn_keys).before [.notNull, .unfold]
  exact ((hval.inside mem_cons_self).before _).reaches

end Projecting

namespace Creating

lemma Hops.reaches {hops : List Hop} {previous : Label} (h : Hops previous draft hops t draft') :
    ∀ hop ∈ hops, (∀ entry ∈ hop.rel.properties, Reaches entry.2.predicateTypes t) ∧
      ∀ entry ∈ hop.node.properties, Reaches entry.2.predicateTypes t := by
  induction h with
  | nil => exact forall_mem_nil _
  | cons hnode hrel _ ih =>
    obtain ⟨-, -, -, hstores, -⟩ := hrel
    refine forall_mem_cons.2 ⟨⟨fun entry hentry => ?_, fun entry hentry => ?_⟩,
      fun other hother => ?_⟩
    · exact (((((hstores.examined (Draft.varsIn_keys _) entry hentry).after [_]).before _).after
        _).before _).reaches
    · exact (((hnode.examined (Draft.varsIn_keys _) entry hentry).before _).before _).reaches
    · exact (ih other hother).imp (fun h entry hentry => (h entry hentry).after _)
        fun h entry hentry =>
        (h entry hentry).after _

lemma CreatesAll.reaches (h : CreatesAll draft ps t draft') :
    ∀ p ∈ ps, ∀ e ∈ p.values, Reaches e.predicateTypes t := by
  induction h with
  | nil => exact forall_mem_nil _
  | cons hp _ ih =>
    obtain ⟨-, hstart, hhops⟩ := hp
    refine forall_mem_cons.2 ⟨Pattern.forall_mem_values.2 ⟨fun entry hentry => ?_,
      fun hop hhop => ?_⟩, ?_⟩
    · exact (((hstart.examined (Draft.varsIn_keys _) entry hentry).before _).before _).reaches
    · exact (hhops.reaches hop hhop).imp (fun h entry hentry => ((h entry hentry).after _).before _)
        fun h entry hentry => ((h entry hentry).after _).before _
    · exact fun other hother e he => (ih other hother e he).after _

end Creating

/-! ## Queries -/

lemma Clause.Lowers.reaches {clause : Clause} {columns : List Column}
    (h : clause.Lowers draft columns t draft') :
    ∀ e ∈ clause.exprs, Reaches e.predicateTypes t := by
  cases h with
  | «match» h | optionalMatch h => exact fun e he => h.reaches e (Option.mem_toList.1 he)
  | unwind h => exact forall_mem_singleton.2 h.reaches
  | «with» h => exact h.reaches
  | «return» h =>
    obtain ⟨-, hcols, hrows, hmods⟩ := h
    exact hrows.reaches_projection hmods hcols
  | create h => exact forall_mem_flatMap.2 h.reaches
  | set h =>
    exact forall_mem_map.2 fun item hitem => (h.examined draft.varsIn_keys item hitem).2.reaches
  | merge | remove | delete => simp [Clause.exprs]

lemma LowersAll.reaches {root : Traversal} {clauses : List Clause} {statement : Statement}
    (h : LowersAll root draft clauses statement draft') :
    (∀ types, Reaches types root → Reaches types statement.traversal) ∧
      ∀ clause ∈ clauses, ∀ e ∈ clause.exprs, Reaches e.predicateTypes statement.traversal := by
  induction h with
  | nil => exact ⟨fun _ h => h, forall_mem_nil _⟩
  | cons _ hclause _ ih =>
    obtain ⟨hroot, hrest⟩ := ih
    refine ⟨fun types htypes => hroot types ?_, ?_⟩
    · -- A first row replaces only a program without steps.
      rw [Clause.started]
      split
      · rename_i hempty
        simp only [Bool.and_eq_true, List.isEmpty_iff] at hempty
        rw [hempty.1] at htypes
        exact List.Subset.trans htypes (nil_subset _)
      · exact htypes.before _
    · exact forall_mem_cons.2 ⟨fun e he => hroot _ ((hclause.reaches e he).after _), hrest⟩

theorem Query.yields_reaches (q : Query) :
    Yields q.statement fun s => Reaches q.predicateTypes s.traversal := by
  intro s h type htype
  obtain ⟨statement, draft, hall, -, htrav⟩ := Query.lowersAll h
  obtain ⟨clause, hclause, htype⟩ := mem_flatMap.1 htype
  obtain ⟨e, he, htype⟩ := mem_flatMap.1 htype
  rw [htrav]
  exact (hall.reaches.2 clause hclause e he).before _ htype

/-- The texts that a query brings into its traversal do not begin like an encoded token: those of
constants, keys of properties, labels of nodes and types of new relationships, names of labels, and
names of columns.  The one exception is the type of a relationship that the traversal follows: it
begins so exactly if it is a type in one of the query's pattern predicates. -/
theorem Query.reserved_iff {q : Query} {s : Statement} (h : q.statement = .ok s) :
    (∀ text ∈ Traversal.collect Step.texts s.traversal, isReserved text = false) ∧
    (∀ name, .named name ∈ Traversal.collect Step.labels s.traversal → isReserved name = false) ∧
    (∀ column ∈ s.columns, isReserved column.name = false) ∧
    ∀ type, isReserved type = true →
      (type ∈ Traversal.collect Step.edgeTypes s.traversal ↔ type ∈ q.predicateTypes) := by
  obtain ⟨hlow, hcols⟩ := q.yields_lowered s h
  refine ⟨hlow.texts_plain, fun name hname => hlow.labels_clean _ hname, hcols, ?_⟩
  intro type hreserved
  constructor
  · intro htype
    rcases hlow.types_plain type htype with hplain | hmem
    · exact absurd hreserved (by simp [show isReserved type = false from hplain])
    · exact hmem
  · exact fun htype => q.yields_reaches s h htype

/-- `MATCH (a) WHERE (a)-[:x]->() RETURN a`, where the type begins with two blanks. -/
def Query.forging : Query := ⟨[
  .match false [{ start := { var := some "a" } }]
    (some (.pattern { start := { var := some "a" }, hops := [⟨{ types := ["  x"] }, {}⟩] })),
  .return { items := [⟨.var "a", none⟩] }]⟩

/-- A type in a pattern predicate is not checked: a reserved text gets into the traversal. -/
theorem Query.forging_reserved : ∃ s, Query.forging.statement = .ok s ∧
    ∃ type ∈ Traversal.collect Step.edgeTypes s.traversal, isReserved type = true := by
  decide +kernel

/-- Everything else in the traversal of that query is checked. -/
theorem Query.reserved_iff_forging : ∃ s, Query.forging.statement = .ok s ∧
    (∀ text ∈ Traversal.collect Step.texts s.traversal, isReserved text = false) ∧
    (∀ name, .named name ∈ Traversal.collect Step.labels s.traversal → isReserved name = false) ∧
    (∀ column ∈ s.columns, isReserved column.name = false) ∧
    "  x" ∈ Traversal.collect Step.edgeTypes s.traversal := by
  obtain ⟨s, hs⟩ : ∃ s, Query.forging.statement = .ok s := by decide +kernel
  obtain ⟨htexts, hlabels, hcols, htypes⟩ := Query.reserved_iff hs
  exact ⟨s, hs, htexts, hlabels, hcols, (htypes "  x" (by decide)).2 (by decide)⟩

/-- A token is read back from its encoding, which is reserved, so no two tokens have the same
encoding.  The markers of different paths or different hops are different, and different labels of a
traversal have different encodings. -/
theorem Query.label_encode_ne {q : Query} {s : Statement} (h : q.statement = .ok s) :
    (∀ t : Token, Token.decode? t.encode = some t ∧ isReserved t.encode = true) ∧
    Function.Injective Token.encode ∧
    (∀ (path path' : String) (n n' : Nat), (path, n) ≠ (path', n') →
      (Token.pathEdge (path ++ "." ++ toString n)).encode ≠
      (Token.pathEdge (path' ++ "." ++ toString n')).encode) ∧
    (∀ name, .named name ∈ Traversal.collect Step.labels s.traversal → isReserved name = false) ∧
    ∀ l ∈ Traversal.collect Step.labels s.traversal, ∀ l' ∈ Traversal.collect Step.labels
      s.traversal, l ≠ l' → l.encode ≠ l'.encode := by
  have hclean := (q.yields_lowered s h).1.labels_clean
  refine ⟨fun t => ⟨Token.decode?_encode t, Token.isReserved_encode t⟩, Token.encode_injective, ?_,
    fun name hname => hclean _ hname, fun l hl l' hl' hne heq => ?_⟩
  · intro path path' n n' hne heq
    obtain ⟨rfl, rfl⟩ := Token.hop_inj (Token.pathEdge.inj (Token.encode_injective heq))
    exact hne rfl
  · exact hne (Label.encode_inj (hclean l hl) (hclean l' hl') heq)

/-- `MATCH p = (a)-->(b)-->(c) RETURN p`. -/
def Query.twoHops : Query := ⟨[
  .match false [{ path := some "p", start := { var := some "a" },
                  hops := [⟨{}, { var := some "b" }⟩, ⟨{}, { var := some "c" }⟩] }] none,
  .return { items := [⟨.var "p", none⟩] }]⟩

/-- The two relationships of the path and its name have labels of their own. -/
theorem Query.label_encode_ne_twoHops : ∃ s, Query.twoHops.statement = .ok s ∧
    ([.named "p", .token (.pathEdge "p.1"), .token (.pathEdge "p.2")] : List Label) ⊆
      Traversal.collect Step.labels s.traversal ∧
    ∀ l ∈ Traversal.collect Step.labels s.traversal, ∀ l' ∈ Traversal.collect Step.labels
      s.traversal, l ≠ l' → l.encode ≠ l'.encode := by
  obtain ⟨s, hs, hlabels⟩ : ∃ s, Query.twoHops.statement = .ok s ∧
      ([.named "p", .token (.pathEdge "p.1"), .token (.pathEdge "p.2")] : List Label) ⊆
        Traversal.collect Step.labels s.traversal := by
    decide +kernel
  exact ⟨s, hs, hlabels, (Query.label_encode_ne hs).2.2.2.2⟩

end CypherGremlin
