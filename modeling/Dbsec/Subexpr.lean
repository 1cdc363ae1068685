import Dbsec.Sql

/-! The expressions inside an expression, short of the queries nested in it. -/
namespace Dbsec.Subexpr
open Sql

variable {Query : Type}

def children : Expr Query → List (Expr Query)
  | .identifier _ => []
  | .compoundIdentifier _ => []
  | .value _ => []
  | .typedString _ _ => []
  | .unary _ inner => [inner]
  | .binary _ left right => [left, right]
  | .inList operand list _ => operand :: list
  | .inSubquery operand _ _ => [operand]
  | .between operand low high _ => [operand, low, high]
  | .pattern _ operand pattern _ => [operand, pattern]
  | .tuple items => items
  | .array items => items
  | .case operand conditions results elseResult =>
    operand.toList ++ conditions ++ results ++ elseResult.toList
  | .function _ args filter => args ++ filter.toList
  | .functionQuery _ _ => []
  | .exists _ _ => []
  | .subquery _ => []
  | .substring operand start size => operand :: (start.toList ++ size.toList)
  | .wildcard => []
  | .unwalked _ inner => inner

def queries : Expr Query → List Query
  | .inSubquery _ query _ => [query]
  | .functionQuery _ query => [query]
  | .exists query _ => [query]
  | .subquery query => [query]
  | _ => []

/-- A part of an expression, at any depth short of a query boundary. -/
inductive Within (part : Expr Query) : Expr Query → Prop where
  | self : Within part part
  | inside {expr inner : Expr Query} : inner ∈ children expr → Within part inner → Within part expr

theorem Within.trans {part middle expr : Expr Query} (first : Within part middle)
    (second : Within middle expr) : Within part expr := by
  induction second with
  | self => exact first
  | inside child _ ih => exact .inside child ih

end Dbsec.Subexpr
