import CypherGremlin.Proofs.Statement.Proper
import CypherGremlin.Proofs.Statement.Sorting

/-!
# Expressions that clauses look into

A clause lowers the expressions that it holds and puts their traversals into its own, so what
lowering checks of an expression and what it keeps of it holds of all of them (`Expr.Examined`).
The exceptions are an aggregate, of which only the argument is lowered, and a sort key that is a
column.
-/

namespace CypherGremlin

variable {e : Expr} {columns : List (Item Expr)} {draft draft' : Draft} {names : List String}
  {t : Traversal} {entries : List (Label × Traversal)} {ts : List Traversal}

open List

/-! ## Drafts -/

/-- The variables in scope are among the given names. -/
def Draft.VarsIn (names : List String) (draft : Draft) : Prop := draft.scope.VarsIn names

namespace Draft

lemma varsIn_keys (draft : Draft) : draft.VarsIn (Table.keys draft.scope.vars) :=
  fun _ => Table.has_iff.1

lemma Counts.varsIn (h : draft.Counts draft') (hdraft : draft.VarsIn names) :
    draft'.VarsIn names := by
  rw [VarsIn, h.scope]
  exact hdraft

lemma Computes.examined {goal : Goal} (h : draft.Computes goal e t draft')
    (hdraft : draft.VarsIn names) : e.Examined names t := h.lowers.examined hdraft

lemma Tests.examined {condition : Option Expr} (h : draft.Tests condition t draft')
    (hdraft : draft.VarsIn names) : ∀ e ∈ condition, e.Examined names t := by
  cases h with
  | none => simp
  | @some _ t _ htest =>
    rintro _ ⟨⟩
    exact (htest.examined hdraft).inside mem_cons_self

end Draft

/-- Lowering looks into the expression for one of the traversals. -/
def Expr.ExaminedIn (names : List String) (e : Expr) (ts : List Traversal) : Prop :=
  ∃ t ∈ ts, e.Examined names t

namespace Expr.ExaminedIn

lemma cons (h : e.ExaminedIn names ts) (t : Traversal) : e.ExaminedIn names (t :: ts) := by
  obtain ⟨u, hu, he⟩ := h
  exact ⟨u, mem_cons_of_mem _ hu, he⟩

lemma inside {s : Step} (h : e.ExaminedIn names s.children) : e.Examined names [s] := by
  obtain ⟨u, hu, he⟩ := h
  exact he.inside hu

end Expr.ExaminedIn

/-! ## Projections -/

namespace Projecting

variable {mode : Mode}

/-- Lowering looks into the expression of the column, or into the argument of its aggregate. -/
def ColumnExamined (names : List String) (column : Item Expr) (t : Traversal) : Prop :=
  match column.role with
  | .key => column.expr.Examined names t
  | .countAll => True
  | .aggregate _ _ arg => arg.Examined names t

lemma Entries.examined {α : Type} {items : List (Item α)}
    (h : Entries mode draft items entries draft') (hdraft : draft.VarsIn names) :
    ∀ item ∈ items, item.expr.ExaminedIn names (entries.map Prod.snd) := by
  induction h with
  | nil => exact forall_mem_nil _
  | cons hval _ ih =>
    refine forall_mem_cons.2 ⟨⟨_, mem_cons_self, hval.examined hdraft⟩, fun item hitem => ?_⟩
    exact (ih (hval.counts.varsIn hdraft) item hitem).cons _

/-- A column that is no aggregate stays as it is, and the argument of an aggregate becomes an entry.
-/
lemma Inputs.examined {inputs : List (Item Label)}
    (h : Inputs mode draft columns inputs entries draft') (hdraft : draft.VarsIn names)
    (hentries : ∀ e : Expr, e.ExaminedIn names (entries.map Prod.snd) → e.Examined names t)
    (hkeys : ∀ input ∈ inputs, input.isAggregate = false → input.expr.Examined names t) :
    ∀ column ∈ columns, ColumnExamined names column t := by
  induction h with
  | nil => exact forall_mem_nil _
  | key _ ih =>
    obtain ⟨hkey, hkeys⟩ := forall_mem_cons.1 hkeys
    exact forall_mem_cons.2 ⟨hkey rfl, ih hdraft hentries hkeys⟩
  | countAll _ ih =>
    exact forall_mem_cons.2 ⟨trivial, ih hdraft hentries (forall_mem_cons.1 hkeys).2⟩
  | aggregate hval _ ih =>
    refine forall_mem_cons.2 ⟨hentries _ ⟨_, mem_cons_self, hval.examined hdraft⟩, ?_⟩
    exact ih (hval.counts.varsIn hdraft) (fun e he => hentries e (he.cons _))
      (forall_mem_cons.1 hkeys).2

lemma columnExamined_of_key {column : Item Expr} (h : column.isAggregate = false)
    (hx : column.expr.Examined names t) : ColumnExamined names column t := by
  obtain ⟨name, e, role⟩ := column
  cases role with
  | key => exact hx
  | countAll | aggregate => cases h

lemma examined_groupRows (h : e.ExaminedIn names (entries.map Prod.snd)) :
    e.Examined names (groupRows entries) := by
  rw [groupRows]
  split
  · rename_i hempty
    obtain ⟨_, ht, -⟩ := h
    simp [List.isEmpty_iff.1 hempty] at ht
  · exact (h.inside).before [.fold]

lemma Makes.examined (h : Makes mode draft columns t draft') (hdraft : draft.VarsIn names) :
    ∀ column ∈ columns, ColumnExamined names column t := by
  cases h with
  | @perRow entries _ hplain hvals =>
    intro column hcol
    have hkey : column.isAggregate = false := by simpa using any_eq_false.1 hplain column hcol
    exact columnExamined_of_key hkey ((hvals.examined hdraft column hcol).inside)
  | overall _ hinputs hall =>
    refine hinputs.examined hdraft (fun e he => (examined_groupRows he).before _) fun input hinput
      hkey => ?_
    simp [all_eq_true.1 hall input hinput] at hkey
  | @perGroup _ entries keys _ _ _ hinputs _ _ hvals =>
    have hgroup {e : Expr} {u : Traversal} (he : e.Examined names u)
        (hu : u ∈ (Step.group [.project keys] (groupRows entries)).children) :=
        (he.inside hu).before
    have hproper := hvals.examined (hinputs.counts.varsIn hdraft)
    refine hinputs.examined hdraft (fun e he => ?_) fun input hinput hkey => ?_
    · exact hgroup (examined_groupRows he) (mem_cons_of_mem _ mem_cons_self) _
    · exact hgroup (hproper input (mem_filter.2 ⟨hinput, by simp [hkey]⟩)).inside mem_cons_self _

lemma Orders.examined {sorts : List SortItem} {keys : List (Traversal × SortOrder)}
    (h : Orders columns draft sorts keys draft') (hdraft : draft.VarsIn names) : ∀ sort ∈ sorts,
      (∃ column ∈ columns, IsColumn sort.expr column) ∨ sort.expr.ExaminedIn names
      (keys.map Prod.fst) := by
  induction h with
  | nil => exact forall_mem_nil _
  | cons hkey _ ih =>
    refine forall_mem_cons.2 ⟨?_, fun sort hsort =>
      (ih (hkey.counts.varsIn hdraft) sort hsort).imp_right fun h => (h.cons _).cons _⟩
    cases hkey with
    | @column column hcol =>
      have hfound := find?_some (show columns.find? _ = some column from hcol)
      exact .inl ⟨column, mem_of_find?_eq_some hcol, isColumn_iff.1 hfound⟩
    | value _ _ hval => exact .inr ⟨_, mem_cons_self, (hval.examined hdraft).before _⟩

end Projecting

lemma Creating.Stores.examined {entries : List (String × Expr)} (h : Stores draft entries t draft')
    (hdraft : draft.VarsIn names) : ∀ entry ∈ entries, entry.2.Examined names t := by
  induction h with
  | nil => exact forall_mem_nil _
  | null _ _ ih => exact forall_mem_cons.2 ⟨.literal _, ih hdraft⟩
  | constant _ _ hv _ ih =>
    exact forall_mem_cons.2 ⟨hv.examined names _,
      fun entry hentry => (ih hdraft entry hentry).after [_]⟩
  | @computed _ _ _ key _ _ value _ _ _ hval _ ih =>
    have hstep := (hval.examined hdraft).inside (s := .propertyFrom key value) mem_cons_self
    refine forall_mem_cons.2 ⟨hstep.before _, fun entry hentry => ?_⟩
    exact (ih (hval.counts.varsIn hdraft) entry hentry).after [_]

lemma Creating.Node.examined {pattern : NodePattern} {l : Label} (h : Node draft pattern l t draft')
    (hdraft : draft.VarsIn names) : ∀ entry ∈ pattern.properties, entry.2.Examined names t := by
  cases h with
  | known _ _ hempty => simp [hempty]
  | new _ _ _ hstores =>
    exact fun entry hentry => ((hstores.examined hdraft entry hentry).after [_]).before _

lemma Updating.Sets.examined {items : List Assignment} (h : Sets draft items t draft')
    (hdraft : draft.VarsIn names) :
    ∀ item ∈ items, item.var ∈ names ∧ item.value.Examined names t := by
  induction h with
  | nil => exact forall_mem_nil _
  | @cons _ _ _ item _ target write _ htarget _ hwritten _ ih =>
    have hvar : item.var ∈ names := by
      obtain ⟨hbound⟩ := htarget
      exact hdraft.binding? hbound
    have hwrite : item.value.Examined names write := by
      cases hwritten with
      | null hnull => exact hnull ▸ .literal _
      | constant _ hv => exact hv.examined names _
      | computed _ hval =>
        exact (hval.examined hdraft).inside (s := .propertyFrom _ _) mem_cons_self
    have hstep := (hwrite.after target).inside (s := .sideEffect (target ++ write)) mem_cons_self
    refine forall_mem_cons.2 ⟨⟨hvar, hstep.before _⟩, fun other hother => ?_⟩
    exact (ih (hwritten.counts.varsIn hdraft) other hother).imp_right fun h => h.after [_]

end CypherGremlin
