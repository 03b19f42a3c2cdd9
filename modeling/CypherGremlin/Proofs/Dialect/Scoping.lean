import CypherGremlin.Proofs.Dialect.Convergence
import Mathlib.Logic.Relation

/-!
# Dialects leave labels in scope

`Dialect.apply` checks the scoping of labels again when its rounds have settled.  Whatever the
program, this check finds nothing that was not found before: each pass leaves a program that passes
it whenever the old one did (`Dialect.checkLabels_round`).

No pass adds a reference, and the steps that a pass takes out bind nothing, with one exception:
`Pass.dropUnusedLabels` takes out bindings of labels that no step of the whole program refers to.
So the check has to be followed along two traversals where the second one may lack some labels that
are not missed, and `KeepsScope` is about both at once.
-/

namespace CypherGremlin

variable {f : Traversal → Traversal} {s : Step}

open List Traversal

/-! ## Steps that bind nothing -/

namespace Step

/-- The step holds no traversal, puts no label and fills no bucket. -/
structure IsMute (s : Step) : Prop where
  children : s.children = []
  visible : ∀ visible, s.visibleAfter visible = visible
  buckets : ∀ buckets, s.bucketsAfter buckets = buckets

lemma isMute_of_isSimple (h : s.isSimple = true) : s.IsMute ∧ s.references = [] := by
  cases s with
  | properties | hasKey | value | is | has => exact ⟨⟨rfl, fun _ => rfl, fun _ => rfl⟩, rfl⟩
  | _ => cases h

/-- A step that refers to none of the missing labels still finds what it refers to. -/
lemma unresolved?_eq_none {missing : Set Label} {visible visible' buckets : List Label}
    (hs : ∀ l ∈ Pass.uses s, l ∉ missing) (hvis : ∀ l ∈ visible, l ∈ visible' ∨ l ∈ missing)
    (h : s.unresolved? visible buckets = none) : s.unresolved? visible' buckets = none := by
  refine Option.eq_none_iff_forall_not_mem.2 fun l hl => ?_
  have hmem : l ∈ s.references := mem_of_find?_eq_some hl
  have hmissing := unresolved?_without hvis h l hl
  cases s with
  | cap => exact Option.some_ne_none _ (hl.symm.trans h)
  | _ => exact hs l hmem hmissing

end Step

/-! ## Keeping to the scope -/

/-- What the check accepts of the first traversal it accepts of the second, even where labels that
are not missed are not visible. -/
def KeepsScope (missing : Set Label) (t t' : Traversal) : Prop :=
  ∀ ⦃visible visible' buckets out : List Label⦄, (∀ l ∈ visible, l ∈ visible' ∨ l ∈ missing) →
    checkScope visible buckets t = .ok out → checkScope visible' buckets t' = .ok out

namespace KeepsScope

variable {missing : Set Label} {a b c : Traversal}

lemma nil : KeepsScope missing [] [] := fun _ _ _ _ _ h => h

lemma trans (h : KeepsScope missing a b) (h' : KeepsScope missing b c) : KeepsScope missing a c :=
  fun _ _ _ _ hvis hok => h' (fun _ hl => .inl hl) (h hvis hok)

/-- The traversals inside a step are checked one after another. -/
lemma foldlM {visible visible' : List Label} (hvis : ∀ l ∈ visible, l ∈ visible' ∨ l ∈ missing)
    {g : Traversal → Traversal} {ts : List Traversal} (h : ∀ t ∈ ts, KeepsScope missing t (g t))
    {buckets out : List Label} (hok : ts.foldlM (checkScope visible) buckets = .ok out) :
    (ts.map g).foldlM (checkScope visible') buckets = .ok out := by
  induction ts generalizing buckets with
  | nil => exact hok
  | cons t rest ih =>
    obtain ⟨ht, hrest⟩ := forall_mem_cons.1 h
    obtain ⟨mid, hmid, hok⟩ := bind_eq_ok.1 hok
    exact bind_eq_ok.2 ⟨mid, ht hvis hmid, ih hrest hok⟩

lemma cons (hs : ∀ l ∈ Pass.uses s, l ∉ missing)
    (hchild : ∀ t ∈ s.children, KeepsScope missing t (mapBottomUp f t))
    (h : KeepsScope missing a b) : KeepsScope missing (s :: a) (s.mapInside f :: b) := by
  intro visible visible' buckets out hvis hok
  have hsame : (s.mapInside f).unresolved? visible' buckets = s.unresolved? visible' buckets ∧
      (∀ v, (s.mapInside f).visibleAfter v = s.visibleAfter v) ∧
      ∀ v, (s.mapInside f).bucketsAfter v = s.bucketsAfter v := by
    cases s <;> exact ⟨rfl, fun _ => rfl, fun _ => rfl⟩
  cases hfound : s.unresolved? visible buckets with
  | some l => simp [checkScope, hfound] at hok
  | none =>
    rw [checkScope_cons hfound] at hok
    obtain ⟨mid, hmid, hok⟩ := bind_eq_ok.1 hok
    have hfound' := Step.unresolved?_eq_none hs hvis hfound
    rw [checkScope_cons (hsame.1.trans hfound'), Step.children_mapInside]
    refine bind_eq_ok.2 ⟨mid, foldlM hvis hchild hmid, ?_⟩
    rw [hsame.2.1, hsame.2.2]
    refine h (fun l hl => ?_) hok
    rw [mem_visibleAfter] at hl ⊢
    rcases hl with hl | hput
    · exact (hvis l hl).imp_left .inl
    · exact .inl (.inr hput)

/-- A step that binds nothing is dropped, or one that puts a label which is not missed. -/
lemma drop (hs : s.IsMute ∨ ∃ l ∈ missing, s = .as l) (h : KeepsScope missing a b) :
    KeepsScope missing (s :: a) b := by
  intro visible visible' buckets out hvis hok
  cases hfound : s.unresolved? visible buckets with
  | some l => simp [checkScope, hfound] at hok
  | none =>
    rw [checkScope_cons hfound] at hok
    rcases hs with hs | ⟨l, hl, rfl⟩
    · rw [hs.children, hs.visible] at hok
      simp only [hs.buckets] at hok
      exact h hvis hok
    · exact h (forall_mem_cons.2 ⟨.inr hl, hvis⟩) hok

/-- Steps that bind nothing and refer to nothing are put in. -/
lemma add {r : Traversal} (hr : ∀ x ∈ r, x.IsMute ∧ x.references = [])
    (h : KeepsScope missing a b) : KeepsScope missing a (r ++ b) := by
  intro visible visible' buckets out hvis hok
  induction r with
  | nil => exact h hvis hok
  | cons x rest ih =>
    obtain ⟨⟨hx, hrefs⟩, hrest⟩ := forall_mem_cons.1 hr
    have hfound : x.unresolved? visible' buckets = none := by rw [Step.unresolved?, hrefs]; rfl
    rw [cons_append, checkScope_cons hfound, hx.children, hx.visible]
    simp only [hx.buckets]
    exact ih hrest

lemma refl (t : Traversal) : KeepsScope ∅ t t := by
  intro visible visible' buckets out hvis hok
  rcases checkScope_without hvis hok with hok | ⟨l, hl, -⟩
  · exact hok
  · exact hl.elim

lemma keep (s : Step) (h : KeepsScope ∅ a b) : KeepsScope ∅ (s :: a) (s :: b) := by
  have hid : s.mapInside (fun t => t) = s := Step.mapInside_eq_self fun t _ => mapInside_id t
  have hchild : ∀ t ∈ s.children, KeepsScope ∅ t (mapBottomUp (fun t => t) t) := by
    intro t _
    rw [mapBottomUp, mapInside_id]
    exact refl t
  have hcons := cons (by simp) hchild h
  rwa [hid] at hcons

lemma mapBottomUp (hf : ∀ t, KeepsScope ∅ t (f t)) (t : Traversal) :
    KeepsScope ∅ t (mapBottomUp f t) := by
  suffices hinside : KeepsScope ∅ t (mapInside f t) from hinside.trans (hf _)
  induction t using inductChildren with
  | nil => exact nil
  | cons s rest hchild hrest => exact cons (by simp) (fun c hc => (hchild c hc).trans (hf _)) hrest

lemma checkLabels (h : KeepsScope missing a b) (hok : Traversal.checkLabels a = .ok ()) :
    Traversal.checkLabels b = .ok () := by
  rw [Traversal.checkLabels] at hok ⊢
  cases hscope : checkScope [] [] a with
  | ok out => rw [h (by simp) hscope]; rfl
  | error e => simp [hscope, Except.map] at hok

end KeepsScope

namespace Pass

lemma Edit.isMute {before after : List Step} {r : Traversal}
    (h : Edit (fun _ => False) before s r after) : s.IsMute := by
  cases h with
  | label hl => exact hl.elim
  | _ => exact ⟨rfl, fun _ => rfl, fun _ => rfl⟩

lemma Edits.keepsScope {before : List Step} {t t' : Traversal}
    (h : Edits (fun _ => False) before t t') : KeepsScope ∅ t t' := by
  induction h with
  | nil => exact .nil
  | keep s _ ih => exact ih.keep s
  | edit hedit _ ih =>
    have hr := fun x hx => Step.isMute_of_isSimple (hedit.isSimple x hx)
    exact (ih.add hr).drop (.inl hedit.isMute)

/-- A label that is dropped is not missed, since no step at any depth refers to it. -/
lemma keepsScope_dropUnusedLabels (t : Traversal) :
    KeepsScope {l | l ∉ (walk t).flatMap uses} t (dropUnusedLabels t) := by
  have hwalk : ∀ s ∈ walk t, ∀ l ∈ uses s, l ∈ (walk t).flatMap uses := fun s hs l hl =>
    mem_flatMap.2 ⟨s, hs, hl⟩
  rw [dropUnusedLabels]
  generalize (walk t).flatMap uses = used at hwalk ⊢
  induction t using inductChildren with
  | nil => exact .nil
  | cons s rest hchild hrest =>
    obtain ⟨⟨hs, hinside⟩, hafter⟩ := forall_mem_cons.1 (forall_mem_walk_iff.1 hwalk)
    rw [← forall_mem_walk_iff] at hafter
    rw [mapBottomUp, mapInside]
    cases hput : putsUnused used s with
    | true =>
      obtain ⟨l, rfl, -, hl⟩ := putsUnused_iff.1 hput
      rw [filter_cons_of_neg (by simpa [Step.mapInside] using hput)]
      exact (hrest hafter).drop (.inr ⟨l, hl, rfl⟩)
    | false =>
      have hput' : putsUnused used (s.mapInside fun t => t.filter (!putsUnused used ·)) =
          false := by
        cases s <;> exact hput
      rw [filter_cons_of_pos (by simp [hput'])]
      exact .cons (fun l hl => not_not.2 (hs l hl)) (fun c hc => hchild c hc (hinside c hc))
        (hrest hafter)

end Pass

/-! ## Dialects -/

namespace Dialect

variable {name : DialectName} {t t' : Traversal}

/-- The program is what rounds of the dialect make of another one. -/
def RoundsTo (dialect : Dialect) : Traversal → Traversal → Prop :=
  Relation.ReflTransGen fun t t' => dialect.round t = .ok t'

lemma checkLabels_round (hround : (ofName name).round t = .ok t') (hok : checkLabels t = .ok ()) :
    checkLabels t' = .ok () := by
  refine round_induction (R := fun t t' => checkLabels t = .ok () → checkLabels t' = .ok ())
    (fun _ h => h) (fun h h' hok => h' (h hok)) name ?_ ?_ t t' hround hok
  · exact fun f hf t => (KeepsScope.mapBottomUp (fun t => (hf.edits t).keepsScope) t).checkLabels
  · exact fun t => (Pass.keepsScope_dropUnusedLabels t).checkLabels

lemma roundsTo_of_rounds {n : Nat} (h : (ofName name).rounds n t = .ok (some t')) :
    (ofName name).RoundsTo t t' := by
  induction n generalizing t with
  | zero => cases h
  | succ n ih =>
    obtain ⟨mid, hmid, h⟩ := bind_eq_ok.1 h
    split at h
    · cases h
      exact .single hmid
    · exact .head hmid (ih h)

lemma checkLabels_of_roundsTo (h : (ofName name).RoundsTo t t') (hok : checkLabels t = .ok ()) :
    checkLabels t' = .ok () := by
  induction h with
  | refl => exact hok
  | tail _ hround ih => exact checkLabels_round hround ih

/-- Whatever the program, a dialect leaves its labels in scope: each round gives a program that the
check of labels accepts, or refuses custom symbols, and the check at the end reports nothing. -/
theorem labels_stay_inScope (name : DialectName) (s : Statement)
    (h : checkLabels s.traversal = .ok ()) :
    (∀ t, (ofName name).RoundsTo s.traversal t → checkLabels t = .ok () ∧
      ((∃ t', (ofName name).round t = .ok t' ∧ checkLabels t' = .ok ()) ∨
        name = .neptune ∧ ∃ names, (ofName name).round t = .error (.customSymbols names))) ∧
    ∀ l, (ofName name).apply s ≠ .error (.undefinedLabel l) := by
  refine ⟨fun t ht => ⟨checkLabels_of_roundsTo ht h, ?_⟩, fun l hl => ?_⟩
  · cases hround : (ofName name).round t with
    | ok t' => exact .inl ⟨t', rfl, checkLabels_round hround (checkLabels_of_roundsTo ht h)⟩
    | error e =>
      obtain ⟨hname, names, rfl⟩ := error_of_round hround
      exact .inr ⟨hname, names, rfl⟩
  · rcases bind_eq_error.1 hl with hl | ⟨_, -, hdone⟩
    · rcases bind_eq_error.1 hl with hrounds | ⟨settled, hsettled, hl⟩
      · obtain ⟨-, names, hnames⟩ := error_of_rounds hrounds
        cases hnames
      · cases settled with
        | none => cases hl
        | some t' =>
          rcases bind_eq_error.1 hl with hlabels | ⟨_, -, hdone⟩
          · rw [checkLabels_of_roundsTo (roundsTo_of_rounds hsettled) h] at hlabels
            cases hlabels
          · cases hdone
    · cases hdone

/-- A label that nothing refers to, a label that is read inside a step, and one that is selected at
once. -/
def labelled : Statement where
  traversal := [.V, .as (.token (.unnamed 0)), .outE [], .inV, .as (.named "a"),
    .select [.named "a"],
    .filter [.select [.named "a"], .values ["age"]], .aggregate (.token .delete), .barrier,
    .cap (.token .delete)]
  columns := []

theorem labels_stay_inScope_labelled :
    checkLabels labelled.traversal = .ok () ∧
    (ofName .cosmosdb).RoundsTo labelled.traversal
      [.V, .outE [], .inV, .as (.named "a"),
        .filter [.select [.named "a"], .properties ["age"], .hasKey "age", .value],
        .aggregate (.token .delete), .barrier, .cap (.token .delete)] ∧
    (∀ t, (ofName .cosmosdb).RoundsTo labelled.traversal t → checkLabels t = .ok () ∧
      ((∃ t', (ofName .cosmosdb).round t = .ok t' ∧ checkLabels t' = .ok ()) ∨
        DialectName.cosmosdb = .neptune ∧ ∃ names, (ofName .cosmosdb).round t =
        .error (.customSymbols names))) ∧
    ∀ l, (ofName .cosmosdb).apply labelled ≠ .error (.undefinedLabel l) :=
  ⟨by rfl, .single (by rfl), labels_stay_inScope .cosmosdb labelled (by rfl)⟩

end Dialect

end CypherGremlin
