import CypherGremlin.Program.Groovy
import CypherGremlin.Proofs.Statement.OfQuery

/-!
# Pages

SKIP and LIMIT take a part of the rows.  The two together are one step, for the rows between two
bounds, and the second bound is a sum.  What the query writes fits into signed integers, but the sum
need not.  Text shows it as it is, and bytecode shows the largest signed integer in its place; then
some rows of the page are left out if there are that many.

* `Step.bounds` is the numbers by which a step pages, and `Projection.bounds` those that a query
  asks for.
* `Projecting.Paged.returns_iff` says when the rows of the page are returned.
* `Query.statement_pages` is the result, and `Query.statement_pages_apart` a query for which the
  formats are apart.
-/

namespace CypherGremlin

variable {p : Projection} {clause : Clause} {t : Traversal} {skip limit : Option UInt64}
  {n : UInt64}

open List Traversal

/-! ## Bounds -/

/-- The numbers by which a step pages. -/
def Step.bounds : Step → List UInt64
  | .limit n | .skip n => [n]
  | .range low high => [low, high]
  | _ => []

lemma Step.Own.bounds {T : Sources} {s : Step} (h : s.Own T) :
    ∀ n ∈ s.bounds, n = 0 ∨ T.bounds n.toNat := by
  cases s with
  | limit n | skip n => exact forall_mem_singleton.2 h
  | range low high => exact forall_mem_cons.2 ⟨.inr h.1, forall_mem_singleton.2 (.inr h.2)⟩
  | _ => exact forall_mem_nil _

lemma Lowered.bounds {T : Sources} (h : Lowered T t) :
    ∀ s ∈ walk t, ∀ n ∈ s.bounds, n = 0 ∨ T.bounds n.toNat :=
  h.forall_mem_walk (fun _ own => own.bounds) (fun _ => forall_mem_nil _) fun _ _ =>
    forall_mem_nil _

/-- Both formats show the bounds of a step, each with integers of its own. -/
lemma Step.instructions_bounds {ι : Type} (ints : Integers ι) {s : Step} (h : s.bounds ≠ []) :
    s.instructions ints = [.call s.name (s.bounds.map fun n => .int (ints.ofBound n))] := by
  cases s with
  | limit | skip | range => rfl
  | _ => exact absurd rfl h

lemma toInt_capped (n : UInt64) :
    (Integers.capped.ofBound n).toInt = (min n.toNat largestInt64 : Nat) :=
  Int64.toInt_ofNat_of_lt (lt_of_le_of_lt (Nat.min_le_right _ _) (by decide))

/-- The rows of the page. -/
def Projection.page {α : Type} (p : Projection) (rows : List α) : List α :=
  match p.limit.bind Expr.natural? with
  | some n => (rows.drop p.skipped).take n
  | none => rows.drop p.skipped

namespace Projecting.Paged

lemma bounds_pageSteps (h : Paged p skip limit) :
    ((pageSteps skip limit).flatMap Step.bounds).map (·.toNat) = p.bounds := by
  have hfits := h.fits
  rw [Projection.bounds, Projection.skipped, h.natural?.1, h.natural?.2]
  fun_cases pageSteps skip limit with
  | case1 s l =>
    simp only [Option.toList_some, singleton_append, forall_mem_cons] at hfits
    simp [Step.bounds, toNat_saturatingAdd hfits.1 hfits.2.1]
  | case2 | case3 | case4 => simp [Step.bounds]

/-- What the query writes is not capped. -/
lemma boundOf_eq (h : Paged p skip limit) :
    ∀ n ∈ skip.toList ++ limit.toList, boundOf n = n.toNat := by
  intro n hn
  have hle := n.toInt64.toInt_le
  rw [h.fits n hn] at hle
  have hlargest : largestInt64 = Int64.maxValue.toInt.toNat := rfl
  exact Nat.min_eq_left (by omega)

/-- The rows of the page are returned, unless there are more rows than a bound can say and the page
goes that far. -/
theorem run_pageSteps (h : Paged p skip limit) (env : Env) (w : World) (rows : List Traverser) :
    run env (pageSteps skip limit) rows w = .ok (p.page rows, w) ↔
      (∀ n ∈ p.bounds, n ≤ largestInt64) ∨ rows.length ≤ largestInt64 := by
  have hfits := h.fits
  have hbound := h.boundOf_eq
  have hsmall : ∀ n ∈ skip.toList ++ limit.toList, n.toNat ≤ largestInt64 := fun n hn =>
    hbound n hn ▸ Nat.min_le_right _ _
  have hret (s : Step) (out : List Traverser) (hrun : s.run env rows = pure out) :
      run env [s] rows w = .ok (p.page rows, w) ↔ out = p.page rows := by
    rw [run_singleton, hrun]
    exact ⟨fun heq => congrArg Prod.fst (Except.ok.inj heq), fun heq => heq ▸ rfl⟩
  simp only [Projection.page, Projection.bounds, Projection.skipped, h.natural?] at hret ⊢
  fun_cases pageSteps skip limit with
  | case1 s l =>
    simp only [Option.toList_some, singleton_append, forall_mem_cons] at hfits hbound hsmall
    rw [hret _ ((rows.drop (boundOf s)).take (boundOf (saturatingAdd s l) - boundOf s)) rfl,
      hbound.1, boundOf, toNat_saturatingAdd hfits.1 hfits.2.1]
    simp [take_eq_take_iff]
    omega
  | case2 s =>
    rw [hret _ (rows.drop (boundOf s)) rfl, hbound s (by simp)]
    simpa using .inl (hsmall s (by simp))
  | case3 l =>
    rw [hret _ (rows.take (boundOf l)) rfl, hbound l (by simp)]
    simpa using .inl (hsmall l (by simp))
  | case4 => exact iff_of_true rfl (.inl (by simp))

end Projecting.Paged

/-! ## Clauses -/

/-- The steps take the page of the projection. -/
def TakesPage (p : Projection) (t : Traversal) : Prop :=
  ∃ skip limit, Projecting.Paged p skip limit ∧ pageSteps skip limit <:+: t

lemma TakesPage.append (h : TakesPage p t) (a b : Traversal) : TakesPage p (a ++ t ++ b) := by
  obtain ⟨skip, limit, hpaged, hinfix⟩ := h
  exact ⟨skip, limit, hpaged, hinfix.trans (infix_append a t b)⟩

lemma Projecting.Modifies.takesPage {draft draft' : Draft} {columns : List (Item Expr)}
    (h : Modifies draft p columns t draft') : TakesPage p t := by
  obtain ⟨-, hpage⟩ := h
  obtain ⟨skip, limit, hpaged, rfl⟩ := (delivers_paging p).result _ hpage
  exact ⟨skip, limit, hpaged, (suffix_append _ _).isInfix⟩

lemma Clause.Lowers.takesPage {draft draft' : Draft} {columns : List Column}
    (h : clause.Lowers draft columns t draft') (hp : clause = .with p ∨ clause = .return p) :
    TakesPage p t := by
  rcases hp with rfl | rfl
  · cases h with | «with» hcarries =>
    obtain ⟨-, -, -, hmods, -⟩ := hcarries
    simpa using hmods.takesPage.append _ _
  · cases h with | «return» hret =>
    obtain ⟨-, -, -, hmods⟩ := hret
    simpa using hmods.takesPage.append _ []

lemma LowersAll.takesPages {root : Traversal} {draft draft' : Draft} {clauses : List Clause}
    {statement : Statement} (h : LowersAll root draft clauses statement draft') :
    root <+: statement.traversal ∧
      ∀ p, .with p ∈ clauses ∨ .return p ∈ clauses → TakesPage p statement.traversal := by
  induction h with
  | nil => exact ⟨prefix_rfl, by simp⟩
  | @cons root steps _ _ _ clause _ _ _ _ hclause _ ih =>
    obtain ⟨⟨after, hafter⟩, hothers⟩ := ih
    have hroot : root <+: clause.started root := by
      rw [Clause.started]
      split <;> simp_all
    refine ⟨hroot.trans ⟨steps ++ after, by rw [← hafter, append_assoc]⟩, fun p hp => ?_⟩
    rw [mem_cons, mem_cons] at hp
    by_cases hfirst : clause = .with p ∨ clause = .return p
    · exact hafter ▸ (hclause.takesPage hfirst).append _ after
    · exact hothers p (by tauto)

/-- The bounds of a program are those that its query asks for, besides those that keep no rows at
all.  Both formats show them, and show the same integer if it fits into 64 bits with a sign, but not
if it is a sum that does not.  Each page that the query asks for is taken, and consists of the rows
that are left when some are skipped and then at most some are kept; a larger sum leaves some of them
out if there are more rows than the largest signed integer. -/
theorem Query.statement_pages {q : Query} {s : Statement} (h : q.statement = .ok s) :
    (∀ step ∈ walk s.traversal, step.bounds ≠ [] → ∀ (ι : Type) (ints : Integers ι),
      step.instructions ints = [.call step.name (step.bounds.map fun n => .int (ints.ofBound n))]) ∧
    (∀ step ∈ walk s.traversal, ∀ n ∈ step.bounds, (n = 0 ∨
      n.toNat ∈ q.clauses.flatMap Clause.bounds) ∧
      ((Integers.capped.ofBound n).toInt = Integers.unbounded.ofBound n ↔ n.toNat ≤ largestInt64)) ∧
    ∀ p, .with p ∈ q.clauses ∨ .return p ∈ q.clauses → ∃ page, page <:+: s.traversal ∧
      (page.flatMap Step.bounds).map (·.toNat) = p.bounds ∧ ∀ env w rows,
        (run env page rows w = .ok (p.page rows, w) ↔
          (∀ n ∈ p.bounds, n ≤ largestInt64) ∨ rows.length ≤ largestInt64) := by
  obtain ⟨statement, draft, hlowers, -, htrav⟩ := Query.lowersAll h
  refine ⟨fun step _ hstep ι ints => step.instructions_bounds ints hstep,
    fun step hstep n hn => ⟨?_, ?_⟩, fun p hp => ?_⟩
  · exact (q.yields_lowered s h).1.bounds step hstep n hn
  · rw [toInt_capped]
    exact Int.ofNat_inj.trans (by omega)
  · obtain ⟨skip, limit, hpaged, hinfix⟩ :=
      (hlowers.takesPages.2 p hp).append [] (closing draft.buckets q.returns)
    exact ⟨_, htrav ▸ hinfix, hpaged.bounds_pageSteps, hpaged.run_pageSteps⟩

def Projection.ofPage (skip limit : Int64) : Projection where
  items := [⟨.literal (.int 1), some "v"⟩]
  skip := some (.literal (.int skip))
  limit := some (.literal (.int limit))

/-- `RETURN 1 AS v SKIP s LIMIT l`. -/
def Query.ofPage (skip limit : Int64) : Query := ⟨[.return (.ofPage skip limit)]⟩

/-- The second page of three rows each. -/
theorem Query.statement_pages_second : ∃ s, (Query.ofPage 3 3).statement = .ok s ∧
    ∃ page, page <:+: s.traversal ∧ (page.flatMap Step.bounds).map (·.toNat) = [3, 6] ∧
    ∀ env w rows, run env page rows w = .ok ((rows.drop 3).take 3, w) := by
  obtain ⟨s, hs⟩ : ∃ s, (Query.ofPage 3 3).statement = .ok s := by decide +kernel
  obtain ⟨-, -, hpages⟩ := Query.statement_pages hs
  obtain ⟨page, hpage, hbounds, hrows⟩ := hpages (.ofPage 3 3) (.inr (by simp [Query.ofPage]))
  exact ⟨s, hs, page, hpage, hbounds, fun env w rows => (hrows env w rows).2 (.inl (by decide))⟩

/-- The page from the second row on, with as many rows as can be asked for: the bound at its end
does not fit into a signed integer, and bytecode shows another integer than text. -/
theorem Query.statement_pages_apart : ∃ s, (Query.ofPage 1 Int64.maxValue).statement = .ok s ∧
    ∃ step ∈ walk s.traversal, ∃ n ∈ step.bounds,
      Integers.unbounded.ofBound n = 9223372036854775808 ∧ (Integers.capped.ofBound n).toInt =
      9223372036854775807 := by
  decide +kernel

end CypherGremlin
