import CypherGremlin.Proofs.Except
import CypherGremlin.Proofs.Traversal.Walk
import CypherGremlin.Traversal.Scoping
import Mathlib.Data.Set.Insert

/-!
# What the check of labels sees

`Traversal.checkScope` goes through a traversal with the labels that are visible and the buckets
that are filled.  What it finds depends on them as sets.

* `Traversal.checkScope_cons` and `Traversal.checkScope_append` are its recursion, with the
  traversals inside a step taken one after another.
* `Traversal.Visits` gives every step of a program where it stands, with the steps that it can look
  back to.
* `Traversal.checkScope_verdict` says what the check finds: all references resolved, with the
  buckets that are filled, or the first one that is not.  `Traversal.checkLabels_correct` is the
  case of a whole program.
* `Traversal.checkScope_without` says what happens if some labels are taken away: nothing else, or
  one of them is reported.
-/

namespace CypherGremlin

variable {out visible' buckets visible : List Label} {ts : List Traversal} {e : QueryFault}
  {s : Step} {t : Traversal}
  {l : Label} {x : Except QueryFault (List Label)} {f : List Label → Except QueryFault (List Label)}

open List Traversal

/-! ## Labels and buckets -/

def Traversal.puts (t : Traversal) : Set Label := {l | .as l ∈ t}

/-- The buckets that the traversal fills, at any depth. -/
def Traversal.fills (t : Traversal) : Set Label := {l | .aggregate l ∈ walk t}

namespace Traversal

variable {a b : Traversal}

lemma mem_puts : l ∈ puts a ↔ .as l ∈ a := Iff.rfl

@[simp] lemma puts_nil : puts [] = ∅ := by simp [puts]

@[simp] lemma puts_append : puts (a ++ b) = puts a ∪ puts b := by
  ext
  simp [puts]

lemma puts_subset_append (a b : Traversal) : puts a ⊆ puts (a ++ b) := by
  rw [puts_append]
  exact Set.subset_union_left

lemma puts_cons : puts (s :: b) = puts [s] ∪ puts b := puts_append (a := [s])

@[simp] lemma puts_as : puts [.as l] = {l} := by
  ext l'
  simp [puts, eq_comm]

@[simp] lemma fills_nil : fills [] = ∅ := by simp [fills, walk]

@[simp] lemma fills_append : fills (a ++ b) = fills a ∪ fills b := by
  ext
  simp [fills, walk_eq_flatMap]

end Traversal

/-! ## The recursion -/

section

lemma Traversal.checkScopes_eq (ts : List Traversal) :
    checkScopes visible buckets ts = ts.foldlM (checkScope visible) buckets := by
  induction ts generalizing buckets with
  | nil => rfl
  | cons t rest ih => simp only [checkScopes, foldlM_cons, ih]

lemma Traversal.checkEntryScopes_eq (entries : List (Label × Traversal)) :
    checkEntryScopes visible buckets entries = (entries.map Prod.snd).foldlM
    (checkScope visible) buckets := by
  induction entries generalizing buckets with
  | nil => rfl
  | cons entry rest ih => simp only [checkEntryScopes, map_cons, foldlM_cons, ih]

lemma Traversal.checkKeyScopes_eq (keys : List (Traversal × SortOrder)) :
    checkKeyScopes visible buckets keys = (keys.map Prod.fst).foldlM
    (checkScope visible) buckets := by
  induction keys generalizing buckets with
  | nil => rfl
  | cons key rest ih => simp only [checkKeyScopes, map_cons, foldlM_cons, ih]

lemma Step.checkInside_eq (s : Step) :
    s.checkInside visible buckets = s.children.foldlM (checkScope visible) buckets := by
  have hok : (.ok buckets : Except QueryFault (List Label)) = pure buckets := rfl
  cases s with
  | choose c yes no => cases c <;> simp [Step.checkInside, Condition.checkScope, Step.children, hok]
  | _ => simp [Step.checkInside, Step.children, checkScopes_eq, checkEntryScopes_eq,
      checkKeyScopes_eq, hok]

namespace Traversal

lemma checkScope_cons {rest : Traversal} (h : s.unresolved? visible buckets = none) :
    checkScope visible buckets (s :: rest) = s.children.foldlM
    (checkScope visible) buckets >>= fun buckets =>
      checkScope (s.visibleAfter visible) (s.bucketsAfter buckets) rest := by
  rw [checkScope, h, Step.checkInside_eq]

lemma checkScope_append (a b : Traversal) : checkScope visible buckets (a ++ b) =
    checkScope visible buckets a >>= fun buckets => checkScope
    (a.foldl Step.visibleAfter visible) buckets b := by
  induction a generalizing visible buckets with
  | nil => rfl
  | cons s rest ih =>
    rw [cons_append]
    cases h : s.unresolved? visible buckets with
    | some l => simp [checkScope, h, bind, Except.bind]
    | none => simp only [checkScope_cons h, ih, bind_assoc, foldl_cons]

lemma mem_visibleAfter : l ∈ s.visibleAfter visible ↔ l ∈ visible ∨ l ∈ puts [s] := by
  cases s <;> simp [Step.visibleAfter, puts, or_comm]

lemma mem_foldl_visibleAfter : l ∈ t.foldl Step.visibleAfter visible ↔ l ∈ visible ∨
    l ∈ puts t := by
  induction t generalizing visible with
  | nil => simp
  | cons s rest ih =>
    rw [foldl_cons, ih, mem_visibleAfter, puts_cons (b := rest), Set.mem_union, or_assoc]

end Traversal

end

/-! ## Sites -/

/-- A step where it stands in a program. -/
structure Site where
  /-- The steps that it can look back to: those before it in its own traversal and, for each
  traversal around it, those before the step that it is inside of. -/
  above : List Step
  /-- All steps that come before it in the order of `Traversal.walk`. -/
  earlier : List Step
  step : Step

namespace Site

variable {site : Site}

/-- A reference of the step to the label finds the step that introduces it. -/
def Finds (site : Site) (l : Label) : Prop :=
  match site.step with
  | .cap _ => .aggregate l ∈ site.earlier
  | .whereLabel _ _ => .as l ∈ site.above ∨ .aggregate l ∈ site.earlier
  | _ => .as l ∈ site.above

/-- All references of the step do. -/
def Resolved (site : Site) : Prop := ∀ l ∈ site.step.references, site.Finds l

/-- The label is the first that the step refers to and does not find. -/
def Misses (site : Site) (l : Label) : Prop :=
  ∃ front back, site.step.references = front ++ l :: back ∧ (∀ l' ∈ front, site.Finds l') ∧
    ¬ site.Finds l

lemma Misses.not_resolved (h : site.Misses l) : ¬ site.Resolved := by
  obtain ⟨front, back, hrefs, -, hl⟩ := h
  exact fun hall => hl (hall l (by simp [hrefs]))

end Site

def FirstMiss (sites : Site → Prop) (l : Label) : Prop :=
  ∃ site, sites site ∧ site.Misses l ∧
    ∀ other, sites other → other.earlier.length < site.earlier.length → other.Resolved

namespace Traversal

variable {above earlier : List Step} {site : Site} {rest : Traversal}

/-- The site is one of the traversal, at any depth, where some steps are above the traversal and
some come earlier. -/
inductive Visits : List Step → List Step → Traversal → Site → Prop
  | here {above earlier : List Step} {s : Step} {rest : Traversal} :
    Visits above earlier (s :: rest) ⟨above, earlier, s⟩
  | inside {above earlier : List Step} {s : Step} {rest c : Traversal} {left right : List Traversal}
    {site : Site} (children : s.children = left ++ c :: right)
    (visits : Visits above (earlier ++ [s] ++ left.flatMap walk) c site) : Visits above earlier
    (s :: rest) site
  | after {above earlier : List Step} {s : Step} {rest : Traversal} {site : Site}
    (visits : Visits (above ++ [s]) (earlier ++ s.walk) rest site) : Visits above earlier
    (s :: rest) site

lemma Visits.walk_eq (h : Visits above earlier t site) :
    ∃ front back, site.earlier = earlier ++ front ∧ walk t = front ++ site.step :: back := by
  induction h with
  | here => exact ⟨[], _, (append_nil _).symm, by rw [walk, Step.walk_eq]; rfl⟩
  | @inside _ _ s rest _ left right _ children _ ih =>
    obtain ⟨front, back, hearlier, hwalk⟩ := ih
    exact ⟨s :: left.flatMap walk ++ front, back ++ right.flatMap walk ++ walk rest, by
      simp [hearlier], by simp [walk, Step.walk_eq, children, hwalk]⟩
  | @after _ _ s _ _ _ ih =>
    obtain ⟨front, back, hearlier, hwalk⟩ := ih
    exact ⟨s.walk ++ front, back, by simp [hearlier], by simp [walk, hwalk]⟩

lemma Visits.position (h : Visits above earlier t site) :
    earlier.length ≤ site.earlier.length ∧ site.earlier.length < (earlier ++ walk t).length := by
  obtain ⟨front, back, hearlier, hwalk⟩ := h.walk_eq
  simp [hearlier, hwalk]

/-- The site is in one of some traversals that come one after another. -/
def VisitsAmong (above earlier : List Step) (ts : List Traversal) (site : Site) : Prop :=
  ∃ left c right, ts = left ++ c :: right ∧ Visits above (earlier ++ left.flatMap walk) c site

lemma VisitsAmong.position (h : VisitsAmong above earlier ts site) :
    earlier.length ≤ site.earlier.length ∧
      site.earlier.length < (earlier ++ ts.flatMap walk).length := by
  obtain ⟨left, c, right, rfl, h⟩ := h
  have hpos := h.position
  simp only [length_append, flatMap_append, flatMap_cons] at hpos ⊢
  omega

lemma visitsAmong_cons : VisitsAmong above earlier (t :: ts) site ↔
    Visits above earlier t site ∨ VisitsAmong above (earlier ++ walk t) ts site := by
  constructor
  · rintro ⟨left, c, right, hts, h⟩
    rcases cons_eq_append_iff.1 hts with ⟨rfl, hc⟩ | ⟨left, rfl, rfl⟩
    · obtain ⟨rfl, rfl⟩ := List.cons.inj hc
      exact .inl (by simpa using h)
    · exact .inr ⟨left, c, right, rfl, by simpa using h⟩
  · rintro (h | ⟨left, c, right, rfl, h⟩)
    · exact ⟨[], t, ts, rfl, by simpa using h⟩
    · exact ⟨t :: left, c, right, rfl, by simpa using h⟩

lemma visits_cons : Visits above earlier (s :: rest) site ↔ site = ⟨above, earlier, s⟩ ∨
    VisitsAmong above (earlier ++ [s]) s.children site ∨ Visits (above ++ [s])
    (earlier ++ s.walk) rest site := by
  constructor
  · intro h
    cases h with
    | here => exact .inl rfl
    | inside children visits => exact .inr (.inl ⟨_, _, _, children, visits⟩)
    | after visits => exact .inr (.inr visits)
  · rintro (rfl | ⟨left, c, right, children, visits⟩ | visits)
    · exact .here
    · exact .inside children visits
    · exact .after visits

end Traversal

/-! ## What the check finds -/

/-- What a check of the sites gives: the buckets that the steps fill, or the first reference that
finds nothing. -/
inductive Verdict (sites : Site → Prop) (steps : List Step) : Except QueryFault (List Label) → Prop
  | ok {out : List Label} (filled : ∀ l, l ∈ out ↔ .aggregate l ∈ steps) (all : ∀ site, sites site →
    site.Resolved) : Verdict sites steps (.ok out)
  | error {l : Label} (first : FirstMiss sites l) : Verdict sites steps
    (.error (.undefinedLabel l.encode))

lemma Verdict.seq {first second sites : Site → Prop} {mid steps : List Step}
    (hsites : ∀ site, sites site ↔ first site ∨ second site)
    (horder : ∀ site other, first site → second other → site.earlier.length < other.earlier.length)
    (hx : Verdict first mid x)
    (hf : ∀ out, (∀ l, l ∈ out ↔ .aggregate l ∈ mid) → Verdict second steps (f out)) :
    Verdict sites steps (x >>= f) := by
  cases hx with
  | error hmiss =>
    obtain ⟨site, hsite, hmisses, hbefore⟩ := hmiss
    refine .error ⟨site, (hsites site).2 (.inl hsite), hmisses, fun other hother hlt => ?_⟩
    rcases (hsites other).1 hother with hother | hother
    · exact hbefore other hother hlt
    · exact absurd hlt (Nat.lt_asymm (horder site other hsite hother))
  | @ok out filled all =>
    change Verdict sites steps (f out)
    have hrest := hf out filled
    cases hfout : f out with
    | ok out' =>
      rw [hfout] at hrest
      cases hrest with
      | ok filled' all' =>
        exact .ok filled' fun site hsite => ((hsites site).1 hsite).elim (all site) (all' site)
    | error e =>
      rw [hfout] at hrest
      cases hrest with
      | error hmiss =>
        obtain ⟨site, hsite, hmisses, hbefore⟩ := hmiss
        refine .error ⟨site, (hsites site).2 (.inr hsite), hmisses, fun other hother hlt => ?_⟩
        exact ((hsites other).1 hother).elim (all other) fun hother => hbefore other hother hlt

section

variable {above earlier : List Step}

lemma Step.resolves_iff (hvis : ∀ l, l ∈ visible ↔ .as l ∈ above)
    (hbuckets : ∀ l, l ∈ buckets ↔ .aggregate l ∈ earlier) :
    s.resolves visible buckets l = true ↔ Site.Finds ⟨above, earlier, s⟩ l := by
  cases s <;> simp [Step.resolves, Site.Finds, hvis, hbuckets]

lemma verdict_foldlM
    (hts : ∀ t ∈ ts, ∀ {earlier buckets}, (∀ l, l ∈ buckets ↔ .aggregate l ∈ earlier) →
      Verdict (Visits above earlier t) (earlier ++ walk t) (checkScope visible buckets t))
    (hbuckets : ∀ l, l ∈ buckets ↔ .aggregate l ∈ earlier) :
    Verdict (VisitsAmong above earlier ts) (earlier ++ ts.flatMap walk)
    (ts.foldlM (checkScope visible) buckets) := by
  induction ts generalizing earlier buckets with
  | nil =>
    refine .ok (by simpa using hbuckets) ?_
    rintro site ⟨left, c, right, hts, -⟩
    simp at hts
  | cons t rest ih =>
    obtain ⟨ht, hrest⟩ := forall_mem_cons.1 hts
    rw [flatMap_cons, ← append_assoc]
    refine .seq (fun site => visitsAmong_cons) (fun site other hsite hother => ?_) (ht hbuckets)
      fun out hout =>
      ih hrest hout
    exact hsite.position.2.trans_le hother.position.1

/-- The check finds the buckets that are filled, or the first reference that finds nothing. -/
theorem Traversal.checkScope_verdict (hvis : ∀ l, l ∈ visible ↔ .as l ∈ above)
    (hbuckets : ∀ l, l ∈ buckets ↔ .aggregate l ∈ earlier) :
    Verdict (Visits above earlier t) (earlier ++ walk t) (checkScope visible buckets t) := by
  induction t using inductChildren generalizing visible buckets above earlier with
  | nil =>
    refine .ok (by simpa [walk] using hbuckets) fun site hsite => ?_
    cases hsite
  | cons s rest hchild hrest =>
    have hresolves (l : Label) := Step.resolves_iff (s := s) (l := l) hvis hbuckets
    cases hs : s.unresolved? visible buckets with
    | some l =>
      obtain ⟨hl, front, back, hrefs, hfront⟩ := find?_eq_some_iff_append.1 hs
      simp only [hresolves, Bool.not_eq_true', ← Bool.not_eq_true] at hl hfront
      simp only [checkScope, hs]
      refine .error ⟨_, .here, ⟨front, back, hrefs, by simpa using hfront, hl⟩,
        fun other hother hlt => ?_⟩
      exact absurd hlt (Nat.not_lt.2 hother.position.1)
    | none =>
      have hhead : Site.Resolved ⟨above, earlier, s⟩ := fun l hl =>
        (hresolves l).1 (by simpa using find?_eq_none.1 hs l hl)
      have hafter : ∀ l, l ∈ s.bucketsAfter buckets ↔ .aggregate l ∈ earlier ++ [s] := by
        cases s <;> simp [Step.bucketsAfter, hbuckets, or_comm]
      have hwalk : earlier ++ [s] ++ s.children.flatMap walk = earlier ++ s.walk := by
        simp [Step.walk_eq]
      -- a step that fills a bucket has nothing inside, so it can as well be filled first
      have hcheck : checkScope visible buckets (s :: rest) = pure (s.bucketsAfter buckets) >>=
          fun buckets =>
          s.children.foldlM (checkScope visible) buckets >>= fun buckets =>
            checkScope (s.visibleAfter visible) buckets rest := by
        rw [checkScope_cons hs]
        cases s <;> rfl
      rw [hcheck, walk, ← append_assoc]
      refine .seq (fun site => visits_cons) ?_ (.ok hafter fun site hsite => hsite ▸ hhead)
        fun buckets hbuckets =>
        .seq (fun site => .rfl) ?_ (verdict_foldlM (fun t ht _ _ => hchild t ht hvis) hbuckets)
          fun out hout =>
          hrest (fun l => ?_) (hwalk ▸ hout)
      · rintro site other rfl (hother | hother)
        · exact lt_of_lt_of_le (by simp) hother.position.1
        · exact lt_of_lt_of_le (by simp [Step.walk_eq]) hother.position.1
      · intro site other hsite hother
        exact (hwalk ▸ hsite.position.2).trans_le hother.position.1
      · rw [mem_visibleAfter, hvis, mem_puts, mem_append]

theorem Traversal.mem_of_checkScope
    (h : checkScope visible buckets t = .ok out) : ∀ l, l ∈ buckets ∨ l ∈ fills t → l ∈ out := by
  have hverdict : Verdict (Visits (visible.map .as) (buckets.map .aggregate) t) _
      (checkScope visible buckets t) :=
    checkScope_verdict (by simp) (by simp)
  rw [h] at hverdict
  cases hverdict with
  | ok filled => exact fun l hl => (filled l).2 (by simpa [fills] using hl)

lemma Traversal.checkLabels_verdict (t : Traversal) :
    Verdict (Visits [] [] t) (walk t) (checkScope [] [] t) :=
  checkScope_verdict (by simp) (by simp)

lemma Traversal.exists_of_checkLabels_error (h : checkLabels t = .error e) :
    ∃ l, e = .undefinedLabel l := by
  have hverdict := checkLabels_verdict t
  rw [checkLabels] at h
  generalize checkScope [] [] t = x at h hverdict
  cases hverdict with
  | ok => cases h
  | @error l => exact ⟨l.encode, (Except.error.inj h).symm⟩

/-- The check accepts exactly the programs whose references all find the step that introduces their
label.  Of any other program it reports the first reference that does not. -/
theorem Traversal.checkLabels_correct (t : Traversal) :
    (checkLabels t = .ok () ↔ ∀ site, Visits [] [] t site → site.Resolved) ∧
      ∀ e, checkLabels t = .error e → ∃ l, FirstMiss (Visits [] [] t) l ∧
      e = .undefinedLabel l.encode := by
  have hverdict := checkLabels_verdict t
  rw [checkLabels]
  generalize checkScope [] [] t = x at hverdict
  cases hverdict with
  | ok filled all => exact ⟨iff_of_true rfl all, fun e he => by cases he⟩
  | @error l hmiss =>
    refine ⟨iff_of_false (fun h => by cases h) fun hall => ?_,
      fun e he => ⟨l, hmiss, (Except.error.inj he).symm⟩⟩
    obtain ⟨site, hsite, hmisses, -⟩ := hmiss
    exact hmisses.not_resolved (hall site hsite)

end

/-! ## Fewer labels -/

section

variable {extra : Set Label}

/-- The check gives the same as another one, or reports one of the labels. -/
def Reports (extra : Set Label) (out : List Label) (x : Except QueryFault (List Label)) : Prop :=
  x = .ok out ∨ ∃ l ∈ extra, x = .error (.undefinedLabel l.encode)

lemma Reports.bind {mid : List Label} (hx : Reports extra mid x) (hf : Reports extra out (f mid)) :
    Reports extra out (x >>= f) := by
  rcases hx with rfl | ⟨l, hl, rfl⟩
  · exact hf
  · exact .inr ⟨l, hl, rfl⟩

lemma reports_foldlM (hts : ∀ t ∈ ts, ∀ {buckets out}, checkScope visible buckets t = .ok out →
      Reports extra out (checkScope visible' buckets t))
      (h : ts.foldlM (checkScope visible) buckets = .ok out) :
    Reports extra out (ts.foldlM (checkScope visible') buckets) := by
  induction ts generalizing buckets with
  | nil => exact .inl h
  | cons t rest ih =>
    obtain ⟨ht, hrest⟩ := forall_mem_cons.1 hts
    obtain ⟨mid, hmid, h⟩ := bind_eq_ok.1 h
    exact (ht hmid).bind (ih hrest h)

/-- A reference that finds nothing any more is one to a label that has been taken away. -/
lemma Step.unresolved?_without
    (hvis : ∀ l ∈ visible, l ∈ visible' ∨ l ∈ extra) (h : s.unresolved? visible buckets = none) :
    ∀ l ∈ s.unresolved? visible' buckets, l ∈ extra := by
  intro l hl
  have hmem : l ∈ s.references := mem_of_find?_eq_some hl
  have hnow := find?_some hl
  have hbefore := find?_eq_none.1 h l hmem
  by_contra hextra
  have hsame : l ∈ visible → l ∈ visible' := fun hl => (hvis l hl).resolve_right hextra
  cases s <;> simp_all [Step.resolves, Step.references]

/-- Where some labels are taken away, the check finds the same as before or reports one of them. -/
theorem Traversal.checkScope_without
    (hvis : ∀ l ∈ visible, l ∈ visible' ∨ l ∈ extra) (h : checkScope visible buckets t = .ok out) :
    Reports extra out (checkScope visible' buckets t) := by
  induction t using inductChildren generalizing visible visible' buckets out with
  | nil => exact .inl h
  | cons s rest hchild hrest =>
    cases hs : s.unresolved? visible buckets with
    | some l => simp [checkScope, hs] at h
    | none =>
      have hextra := Step.unresolved?_without hvis hs
      cases hs' : s.unresolved? visible' buckets with
      | some l => exact .inr ⟨l, hextra l hs', by simp [checkScope, hs']⟩
      | none =>
        rw [checkScope_cons hs] at h
        obtain ⟨mid, hmid, h⟩ := bind_eq_ok.1 h
        rw [checkScope_cons hs']
        refine (reports_foldlM (fun t ht _ _ => hchild t ht hvis) hmid).bind
          (hrest (fun l hl => ?_) h)
        rw [mem_visibleAfter] at hl ⊢
        rcases hl with hl | hput
        · exact (hvis l hl).imp_left .inl
        · exact .inl (.inr hput)

end

end CypherGremlin
