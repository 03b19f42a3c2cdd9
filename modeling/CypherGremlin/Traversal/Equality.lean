import CypherGremlin.Traversal.Basic

/-!
# Equality of traversals

A dialect is applied until a round changes nothing.  As for literals, "nothing" is by structure with
numbers compared by value: a traversal that holds not-a-number differs from itself, and the two
zeros are equal.
-/

namespace CypherGremlin

/-! ## Values and predicates -/

namespace Value

mutual

/-- Equality of constants. -/
def same : Value → Value → Bool
  | .bool a, .bool b => a == b
  | .int a, .int b => a == b
  | .float a, .float b => a.equal b
  | .string a, .string b => a == b
  | .list a, .list b => sameItems a b
  | .map a, .map b => sameEntries a b
  | .token a, .token b => a == b
  | .parameter a, .parameter b => a == b
  | _, _ => false
termination_by structural a => a

def sameItems : List Value → List Value → Bool
  | [], [] => true
  | a :: as, b :: bs => a.same b && sameItems as bs
  | _, _ => false
termination_by structural a => a

def sameEntries : List (String × Value) → List (String × Value) → Bool
  | [], [] => true
  | (k, a) :: as, (l, b) :: bs => k == l && a.same b && sameEntries as bs
  | _, _ => false
termination_by structural a => a

end

/-- Equality of two arguments that may be absent. -/
def sameOption : Option Value → Option Value → Bool
  | none, none => true
  | some a, some b => a.same b
  | _, _ => false

end Value

def Predicate.same : Predicate → Predicate → Bool
  | .eq a, .eq b => a.same b
  | .neq a, .neq b => a.same b
  | .lt a, .lt b => a.same b
  | .lte a, .lte b => a.same b
  | .gt a, .gt b => a.same b
  | .gte a, .gte b => a.same b
  | .within a, .within b => Value.sameItems a b
  | .without a, .without b => Value.sameItems a b
  | .custom p a, .custom q b => p == q && Value.sameOption a b
  | .text p a, .text q b => p == q && a.same b
  | _, _ => false

/-! ## Steps -/

mutual

def Step.same : Step → Step → Bool
  | .V, .V => true
  | .E, .E => true
  | .addV a, .addV b => a == b
  | .addE a f t, .addE b g u => a == b && f == g && t == u
  | .property k a, .property l b => k == l && a.same b
  | .propertyFrom k a, .propertyFrom l b => k == l && Traversal.same a b
  | .drop, .drop => true
  | .outE a, .outE b => a == b
  | .inE a, .inE b => a == b
  | .bothE a, .bothE b => a == b
  | .inV, .inV => true
  | .outV, .outV => true
  | .otherV, .otherV => true
  | .has k p, .has l q => k == l && p.same q
  | .hasLabel a, .hasLabel b => a == b
  | .hasNot a, .hasNot b => a == b
  | .hasKey a, .hasKey b => a == b
  | .is p, .is q => p.same q
  | .filter a, .filter b => Traversal.same a b
  | .whereLabel c a, .whereLabel d b => c == d && a == b
  | .and a, .and b => Traversal.sameAll a b
  | .or a, .or b => Traversal.sameAll a b
  | .not a, .not b => Traversal.same a b
  | .as a, .as b => a == b
  | .select a, .select b => a == b
  | .selectKey a, .selectKey b => a == b
  | .selectColumn a, .selectColumn b => a == b
  | .choose c t u, .choose d v w => c.same d && Traversal.same t v && Traversal.same u w
  | .coalesce a, .coalesce b => Traversal.sameAll a b
  | .union a, .union b => Traversal.sameAll a b
  | .constant a, .constant b => a.same b
  | .inject a, .inject b => Value.sameItems a b
  | .id, .id => true
  | .label, .label => true
  | .values a, .values b => a == b
  | .valueMap a, .valueMap b => a == b
  | .properties a, .properties b => a == b
  | .key, .key => true
  | .value, .value => true
  | .project a, .project b => Traversal.sameEntries a b
  | .order a, .order b => Traversal.sameKeys a b
  | .group a t, .group b u => Traversal.same a b && Traversal.same t u
  | .dedup, .dedup => true
  | .count a, .count b => a == b
  | .fold, .fold => true
  | .unfold, .unfold => true
  | .sum, .sum => true
  | .mean, .mean => true
  | .min, .min => true
  | .max, .max => true
  | .aggregate a, .aggregate b => a == b
  | .cap a, .cap b => a == b
  | .limit a, .limit b => a == b
  | .skip a, .skip b => a == b
  | .range a c, .range b d => a == b && c == d
  | .barrier, .barrier => true
  | .sideEffect a, .sideEffect b => Traversal.same a b
  | .map a, .map b => Traversal.same a b
  | .flatMap a, .flatMap b => Traversal.same a b
  | .apply f, .apply g => f == g
  | .identity, .identity => true
  | _, _ => false
termination_by structural s => s

def Condition.same : Condition → Condition → Bool
  | .predicate p, .predicate q => p.same q
  | .traversal a, .traversal b => Traversal.same a b
  | _, _ => false
termination_by structural c => c

def Traversal.same : List Step → List Step → Bool
  | [], [] => true
  | a :: as, b :: bs => a.same b && Traversal.same as bs
  | _, _ => false
termination_by structural t => t

def Traversal.sameAll : List (List Step) → List (List Step) → Bool
  | [], [] => true
  | a :: as, b :: bs => Traversal.same a b && Traversal.sameAll as bs
  | _, _ => false
termination_by structural ts => ts

def Traversal.sameEntries : List (Label × List Step) → List (Label × List Step) → Bool
  | [], [] => true
  | (k, a) :: as, (l, b) :: bs => k == l && Traversal.same a b && Traversal.sameEntries as bs
  | _, _ => false
termination_by structural ts => ts

def Traversal.sameKeys : List (List Step × SortOrder) → List (List Step × SortOrder) → Bool
  | [], [] => true
  | (a, k) :: as, (b, l) :: bs => Traversal.same a b && k == l && Traversal.sameKeys as bs
  | _, _ => false
termination_by structural ts => ts

end

end CypherGremlin
