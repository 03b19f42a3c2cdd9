import CypherGremlin.Query.Basic

/-!
# Equality of expressions

A sort key that equals a projected expression sorts by the projected column.  Equality is by
structure, with numbers compared by value: an expression that holds not-a-number equals nothing, and
the two zeros are equal.
-/

namespace CypherGremlin

mutual

/-- Equality of expressions. -/
def Expr.same : Expr → Expr → Bool
  | .literal a, .literal b => a.same b
  | .parameter a, .parameter b => a == b
  | .var a, .var b => a == b
  | .property a k, .property b l => a.same b && k == l
  | .list as, .list bs => sameExprs as bs
  | .map as, .map bs => sameExprEntries as bs
  | .not a, .not b => a.same b
  | .and a c, .and b d => a.same b && c.same d
  | .or a c, .or b d => a.same b && c.same d
  | .xor a c, .xor b d => a.same b && c.same d
  | .compare o a c, .compare p b d => o == p && a.same b && c.same d
  | .stringMatch o a c, .stringMatch p b d => o == p && a.same b && c.same d
  | .isNull a, .isNull b => a.same b
  | .isNotNull a, .isNotNull b => a.same b
  | .member a c, .member b d => a.same b && c.same d
  | .hasLabels v ls, .hasLabels w ms => v == w && ls == ms
  | .pattern p, .pattern q => samePatterns p q
  | .arithmetic o a c, .arithmetic p b d => o == p && a.same b && c.same d
  | .call n d as, .call m e bs => n == m && d == e && sameExprs as bs
  | .countStar, .countStar => true
  | _, _ => false
termination_by structural e => e

def sameExprs : List Expr → List Expr → Bool
  | [], [] => true
  | a :: as, b :: bs => a.same b && sameExprs as bs
  | _, _ => false
termination_by structural e => e

/-- Equality of the entries of two maps, or of the properties of two elements. -/
def sameExprEntries : List (String × Expr) → List (String × Expr) → Bool
  | [], [] => true
  | (k, a) :: as, (l, b) :: bs => k == l && a.same b && sameExprEntries as bs
  | _, _ => false
termination_by structural e => e

def sameNodes : NodePatternOf Expr → NodePatternOf Expr → Bool
  | ⟨v, ls, ps⟩, ⟨w, ms, qs⟩ => v == w && ls == ms && sameExprEntries ps qs
termination_by structural e => e

/-- Equality of two relationships. -/
def sameRels : RelPatternOf Expr → RelPatternOf Expr → Bool
  | ⟨v, ts, d, ps, l⟩, ⟨w, us, e, qs, m⟩ =>
    v == w && ts == us && d == e && sameExprEntries ps qs && l == m
termination_by structural e => e

def sameHops : List (HopOf Expr) → List (HopOf Expr) → Bool
  | [], [] => true
  | ⟨r, n⟩ :: as, ⟨s, m⟩ :: bs => sameRels r s && sameNodes n m && sameHops as bs
  | _, _ => false
termination_by structural e => e

def samePatterns : PatternOf Expr → PatternOf Expr → Bool
  | ⟨p, s, hs⟩, ⟨q, t, is⟩ => p == q && sameNodes s t && sameHops hs is
termination_by structural e => e

end

end CypherGremlin
