import CypherGremlin.Proofs.Statement.OfQuery
import CypherGremlin.Proofs.Statement.Operand

/-!
# Reading variables and entries of maps

A variable and an entry of a map are read by the same instruction.  It looks for an entry of the
object at hand, then for a bucket, and then for a label.  Names of a query are never those of
buckets, so a name stands for an entry or a label (`Query.run_select`).  Which of them it is depends
on the object at hand alone: a map takes the place of a variable whose name is one of its keys, and
a variable takes the place of an entry that is missing.
-/

namespace CypherGremlin

/-- What may be done with the labels of a program may be done with those of each of its steps. -/
lemma Traversal.Allowed.of_mem_walk {K : String → Prop} {t : Traversal}
    (h : Traversal.Allowed K t) : ∀ s ∈ walk t, Traversal.Allowed K [s] := by
  induction t using inductChildren with
  | nil => simp [walk]
  | cons s rest hchild hrest =>
    obtain ⟨-, hinner, hafter⟩ := h.cons
    exact forall_mem_walk_cons.2 ⟨h.head, fun t ht => hchild t ht (hinner t ht), hrest hafter⟩

lemma Traversal.Allowed.bucketed_run {K : String → Prop} {s : Step} (h : Traversal.Allowed K [s])
    {env : Env} {ts ts' : List Traverser} {w w' : World} (hw : w.Bucketed)
    (hrun : s.run env ts w = .ok (ts', w')) : w'.Bucketed :=
  (Step.simulates_self h ts ts (.refl ts) w hw ts' w' hrun).1

/-- What a name of a query stands for at a traverser: an entry of the map at hand, else a label. -/
def Traverser.named? (t : Traverser) (v : String) : Option Obj := t.obj.get? v <|> t.label? v

lemma Traverser.find?_eq_named? {w : World} (hw : w.Bucketed) {v : String} (hv : Plain v)
    (t : Traverser) : t.find? w.buckets v = t.named? v := by
  cases hentry : t.obj.get? v with
  | none => simp [named?, hentry, t.find?_eq_label? hw hv.not_isBucketName hentry]
  | some x => simp [named?, find?, hentry]

/-- The program of a query reads a name as the entry of the map at hand, or else as the value that
was bound to the name, wherever it does so and whatever has been run before.  So it gives the value
of a variable exactly if the object at hand has no other value under the name, and it gives nothing
exactly if there is no entry and the name is not bound. -/
theorem Query.run_select {q : Query} {s : Statement} (h : q.statement = .ok s) :
    (∀ graph, (World.start graph (Traversal.buckets s.traversal)).Bucketed) ∧
    ∀ step ∈ Traversal.walk s.traversal, ∀ env w, w.Bucketed →
      (∀ ts ts' w', step.run env ts w = .ok (ts', w') → w'.Bucketed) ∧
      ∀ v, step = .select [.named v] ∨ step = .selectKey (.named v) →
        Traversal.bytecode [step] = Traversal.bytecode [.select [.named v]] ∧ ∀ t : Traverser,
        Bytecode.run env (Traversal.bytecode [step])
        [t] w = .ok (((t.named? v).map t.carry).toList, w) ∧
        (∀ x, t.label? v = some x →
        (Bytecode.run env (Traversal.bytecode [step]) [t] w = .ok ([t.carry x], w) ↔
          ∀ y, t.obj.get? v = some y → y = x)) ∧
        (Bytecode.run env (Traversal.bytecode [step]) [t] w = .ok ([], w) ↔
          t.obj.get? v = none ∧ t.label? v = none) := by
  have hlow := (q.yields_lowered s h).1
  have hallowed := hlow.disciplined.allowed
  refine ⟨hallowed.bucketed_start, fun step hstep env w hw => ⟨fun ts ts' w' hrun => ?_,
    fun v hv => ⟨?_, fun t => ?_⟩⟩⟩
  · exact (hallowed.of_mem_walk step hstep).bucketed_run hw hrun
  · rcases hv with rfl | rfl <;> rfl
  · have hmem : .named v ∈ Traversal.collect Step.labels s.traversal :=
      List.mem_flatMap.2 ⟨step,
        hstep, by rcases hv with rfl | rfl <;> exact List.mem_singleton_self _⟩
    have hplain : Plain v := hlow.labels_clean _ hmem
    have hsel : Bytecode.run env (Traversal.bytecode [step]) [t] w =
        .ok (((t.named? v).map t.carry).toList, w) := by
      rw [Bytecode.run_bytecode, Traversal.run_singleton, ← t.find?_eq_named? hw hplain]
      rcases hv with rfl | rfl <;> exact Returns.selectOne_toList t v
    refine ⟨hsel, fun x hx => ?_, ?_⟩
    · cases hentry : t.obj.get? v with
      | none => simp [hsel, Traverser.named?, hentry, hx]
      | some y => simp [hsel, Traverser.named?, hentry, Traverser.carry]
    · simp [hsel, Traverser.named?]

/-- `WITH {b: 1} AS m, 5 AS a, 6 AS k UNWIND [{a: 1}] AS x RETURN a, m.k`. -/
def Query.capturing : Query := ⟨[
  .with { items := [⟨.map [("b", .literal (.int 1))], some "m"⟩, ⟨.literal (.int 5), some "a"⟩,
                    ⟨.literal (.int 6), some "k"⟩] },
  .unwind (.list [.map [("a", .literal (.int 1))]]) "x",
  .return { items := [⟨.var "a", none⟩, ⟨.property (.var "m") "k", none⟩] }]⟩

/-- The variable is read from the map that was unwound, and the missing entry from another variable.
-/
theorem Query.run_capturing : (do
    let s ← Query.capturing.statement.toOption
    let r ← (Bytecode.execute (Env.standard []) .empty (Traversal.bytecode s.traversal)).toOption
    return r.1) = some [[("a", .int 1), ("m.k", .int 6)]] := by
  with_unfolding_all rfl

/-- The row of that query, where the map is at hand: the value of the variable is not given. -/
theorem Query.run_select_capturing : ∃ s, Query.capturing.statement = .ok s ∧
    .select [.named "a"] ∈ Traversal.walk s.traversal ∧
    ∀ env w, w.Bucketed → ∀ t : Traverser, t.obj = .map [(.string "a", .int 1)] →
      t.label? "a" = some (.int 5) →
      Bytecode.run env (Traversal.bytecode [.select [.named "a"]])
      [t] w = .ok ([t.carry (.int 1)], w) ∧
      Bytecode.run env (Traversal.bytecode [.select [.named "a"]])
      [t] w ≠ .ok ([t.carry (.int 5)], w) := by
  obtain ⟨s, hs⟩ : ∃ s, Query.capturing.statement = .ok s := by decide +kernel
  have hmem : .select [.named "a"] ∈ Traversal.walk s.traversal := by
    obtain rfl := Except.ok.inj hs
    exact List.mem_of_getElem? (i := 25) (by with_unfolding_all rfl)
  refine ⟨s, hs, hmem, fun env w hw t hobj hlabel => ?_⟩
  obtain ⟨hread, hval, -⟩ := ((Query.run_select hs).2 _ hmem env w hw).2 "a" (.inl rfl) |>.2 t
  have hentry : t.obj.get? "a" = some (.int 1) := by rw [hobj]; rfl
  constructor
  · simpa [Traverser.named?, hentry] using hread
  · rw [ne_eq, hval _ hlabel, hentry]
    simp

end CypherGremlin
