import Dbsec.Rewrite

/-! Comparisons over protected columns: proxy/src/encrypt/predicate.rs. The equality
shapes a blind index can answer are rewritten, everything else that mentions a
protected column is reported. `rewriteQuery` stands for the walk of a nested query,
which both passes leave to its own module. -/
namespace Dbsec.Predicate
open Framing Sql Params Unprotected Catalog Literals Scope Accumulate Rewrite

def blindIndexLen : Nat := 32

variable {Query : Type}

/-- `substring(col from 1 for 32)`, the stored blind index. -/
def indexPrefix (column : Expr Query) : Expr Query :=
  .substring column (some (.value (.number "1")))
    (some (.value (.number (String.ofList (Text.renderNat blindIndexLen)))))

def malformed : Rejection := .fatal (.wire .malformed)

/-- Replaces one compared value by its index: inline for a literal, at Bind for a
placeholder. -/
def indexValue (transform : FieldTransform) (value : Expr Query) : Pass (Expr Query) :=
  match unwrapCasts value with
  | .value (.placeholder text) =>
    match placeholderIndex text with
    | none => monadLift (Except.error malformed : Except Rejection (Expr Query))
    | some index => do
        recordParam index (.searchIndex transform)
        return value
  | _ => monadLift <| match literalPlaintext value transform.wire with
      | none => Except.error malformed
      | some plaintext =>
        match transform.searchIndex plaintext with
        | .error cause => .error (.fatal (.wire cause))
        | .ok none => .error malformed
        | .ok (some token) => .ok (byteaLiteral token)

def indexEach (transform : FieldTransform) : List (Expr Query) → Pass (List (Expr Query))
  | [] => return []
  | value :: rest => do
      let value ← indexValue transform value
      let rest ← indexEach transform rest
      return value :: rest

/-- Whether a compared value is a literal or a bindable placeholder. -/
def indexable (transform : FieldTransform) (value : Expr Query) : Bool :=
  match unwrapCasts value with
  | .value (.placeholder text) => (placeholderIndex text).isSome
  | other => (literalPlaintext other transform.wire).isSome

section Selection
variable (context : Context) (scope : TableScope)

def unsupportedPredicate (expr : Expr Query) : Except Rejection Unit :=
  let shape := exprShape expr
  match ambiguousOperand scope expr with
  -- First: an ambiguous name resolves to no transform, so the next test misses it.
  | some column => context.unprotected (.ambiguousColumn column shape)
  | none =>
    match protectedOperand scope expr with
    | none => .ok ()
    | some (column, true) => context.unprotected (.predicate column shape)
    | some (column, false) => context.unprotected (.unindexedPredicate column shape)

def unsupported (expr : Expr Query) : Pass (Expr Query × Bool) := do
  unsupportedPredicate context scope expr
  return (expr, false)

/-- `col = value`: the column and the value after the rewrite. -/
def rewriteEquality (transform : FieldTransform) (column value : Expr Query) :
    Pass ((Expr Query × Expr Query) × Bool) :=
  let name := (columnName column).getD ""
  if !transform.supportsSearch then do
    context.unprotected (.unindexedPredicate name (exprShape value))
    return ((column, value), false)
  else if !literalAgreesWithServer context value then do
    context.unprotected (.ambiguousLiteral name)
    return ((column, value), false)
  else if !indexable transform value then do
    context.unprotected (.predicate name (exprShape value))
    return ((column, value), false)
  else do
    let value ← indexValue transform value
    return ((indexPrefix column, value), true)

/-- An `IN` whose left side is no single protected column: an ambiguous name and a row
constructor over a protected one are still reported. -/
def reportInList (column : Expr Query) : Except Rejection Unit :=
  match ambiguousColumn scope column with
  | some column => context.unprotected (.ambiguousColumn column "IN list")
  | none =>
    match protectedColumn scope column with
    | some (column, true) => context.unprotected (.predicate column "row-wise IN list")
    | some (column, false) => context.unprotected (.unindexedPredicate column "row-wise IN list")
    | none => .ok ()

/-- `col IN (a, b)`: all values are indexed or none is. -/
def rewriteInList (column : Expr Query) (list : List (Expr Query)) :
    Pass ((Expr Query × List (Expr Query)) × Bool) :=
  let name := (columnName column).getD ""
  match columnRef scope column with
  | none => do
      reportInList context scope column
      return ((column, list), false)
  | some transform =>
    if !transform.supportsSearch then do
      context.unprotected (.unindexedPredicate name "IN list")
      return ((column, list), false)
    else if !list.all (literalAgreesWithServer context) then do
      context.unprotected (.ambiguousLiteral name)
      return ((column, list), false)
    else if list.isEmpty || !list.all (indexable transform) then do
      context.unprotected (.predicate name "IN list")
      return ((column, list), false)
    else do
      let list ← indexEach transform list
      return ((indexPrefix column, list), true)

def arrayParameter (column array : Expr Query) : Option (Nat × FieldTransform) := do
  let transform ← (columnRef scope column).filter (·.supportsSearch)
  match unwrapCasts array with
  | .value (.placeholder text) => return (← placeholderIndex text, transform)
  | _ => none

/-- Rewrites a predicate inside one scope; it never crosses a query boundary. -/
def rewriteSelection : Expr Query → Pass (Expr Query × Bool)
  | .binary (.op .eq) left right =>
    match columnRef scope left with
    | some transform => do
        let ((left, right), changed) ← rewriteEquality context transform left right
        return (.binary (.op .eq) left right, changed)
    | none =>
      match columnRef scope right with
      | some transform => do
          let ((right, left), changed) ← rewriteEquality context transform right left
          return (.binary (.op .eq) left right, changed)
      | none => unsupported context scope (.binary (.op .eq) left right)
  | .binary (.op .and) left right => do
      let (left, changed) ← rewriteSelection left
      let (right, later) ← rewriteSelection right
      return (.binary (.op .and) left right, changed || later)
  | .binary (.op .or) left right => do
      let (left, changed) ← rewriteSelection left
      let (right, later) ← rewriteSelection right
      return (.binary (.op .or) left right, changed || later)
  | .unary .nested inner => do
      let (inner, changed) ← rewriteSelection inner
      return (.unary .nested inner, changed)
  | .unary (.op .not) inner => do
      let (inner, changed) ← rewriteSelection inner
      return (.unary (.op .not) inner, changed)
  | .inList column list negated => do
      let ((column, list), changed) ← rewriteInList context scope column list
      return (.inList column list negated, changed)
  | .binary (.any .eq) left (.array items) => do
      let ((left, items), changed) ← rewriteInList context scope left items
      return (.binary (.any .eq) left (.array items), changed)
  | .binary (.any .eq) left right =>
    match arrayParameter scope left right with
    | some (index, transform) => do
        recordParam index (.searchIndexArray transform ((columnName left).getD ""))
        return (.binary (.any .eq) (indexPrefix left) right, true)
    | none => unsupported context scope (.binary (.any .eq) left right)
  | other => unsupported context scope other

end Selection

section Nested
variable (rewriteQuery : Query → Pass (Query × Bool))

mutual
/-- Rewrites every query nested inside an expression, and nothing else. -/
def rewriteNestedQueries : Expr Query → Pass (Expr Query × Bool)
  | .subquery query => do
      let (query, changed) ← rewriteQuery query
      return (.subquery query, changed)
  | .exists query negated => do
      let (query, changed) ← rewriteQuery query
      return (.exists query negated, changed)
  | .inSubquery operand query negated => do
      let (query, changed) ← rewriteQuery query
      let (operand, later) ← rewriteNestedQueries operand
      return (.inSubquery operand query negated, changed || later)
  | .binary kind left right => do
      let (left, changed) ← rewriteNestedQueries left
      let (right, later) ← rewriteNestedQueries right
      return (.binary kind left right, changed || later)
  | .unary kind inner => do
      let (inner, changed) ← rewriteNestedQueries inner
      return (.unary kind inner, changed)
  | .inList operand list negated => do
      let (operand, changed) ← rewriteNestedQueries operand
      let (list, later) ← rewriteNestedEach list
      return (.inList operand list negated, changed || later)
  | .between operand low high negated => do
      let (operand, first) ← rewriteNestedQueries operand
      let (low, second) ← rewriteNestedQueries low
      let (high, third) ← rewriteNestedQueries high
      return (.between operand low high negated, first || second || third)
  | .pattern kind operand pattern negated => do
      let (operand, changed) ← rewriteNestedQueries operand
      let (pattern, later) ← rewriteNestedQueries pattern
      return (.pattern kind operand pattern negated, changed || later)
  | .tuple items => do
      let (items, changed) ← rewriteNestedEach items
      return (.tuple items, changed)
  | .case operand conditions results elseResult => do
      let (operand, first) ← rewriteNestedOption operand
      let (elseResult, second) ← rewriteNestedOption elseResult
      let (conditions, third) ← rewriteNestedEach conditions
      let (results, fourth) ← rewriteNestedEach results
      return (.case operand conditions results elseResult, first || second || third || fourth)
  | .function name args filter => do
      let (args, changed) ← rewriteNestedEach args
      return (.function name args filter, changed)
  | leaf => return (leaf, false)

def rewriteNestedEach : List (Expr Query) → Pass (List (Expr Query) × Bool)
  | [] => return ([], false)
  | expr :: rest => do
      let (expr, changed) ← rewriteNestedQueries expr
      let (rest, later) ← rewriteNestedEach rest
      return (expr :: rest, changed || later)

def rewriteNestedOption : Option (Expr Query) → Pass (Option (Expr Query) × Bool)
  | none => return (none, false)
  | some expr => do
      let (expr, changed) ← rewriteNestedQueries expr
      return (some expr, changed)
end

/-- A predicate owned by a statement or a select: rewritten in its own scope, then swept
for nested queries. -/
def rewritePredicate (context : Context) (scope : TableScope) (expr : Expr Query) :
    Pass (Expr Query × Bool) := do
  let (expr, changed) ← rewriteSelection context scope expr
  let (expr, later) ← rewriteNestedQueries rewriteQuery expr
  return (expr, changed || later)

end Nested

section Growth
variable {context : Context} {scope : TableScope} {rewriteQuery : Query → Pass (Query × Bool)}

theorem grows_indexValue (transform : FieldTransform) (value : Expr Query) :
    Grows (indexValue transform value) := by
  unfold indexValue
  split
  · split
    · exact grows_lift _
    · exact (grows_recordParam _ _).bind fun _ => grows_pure _
  · exact grows_lift _

theorem grows_indexEach (transform : FieldTransform) (list : List (Expr Query)) :
    Grows (indexEach transform list) := by
  induction list with
  | nil => exact grows_pure _
  | cons value rest ih =>
    exact (grows_indexValue transform value).bind fun _ => ih.bind fun _ => grows_pure _

theorem grows_unsupported (expr : Expr Query) : Grows (unsupported context scope expr) :=
  (grows_lift _).bind fun _ => grows_pure _

theorem grows_rewriteEquality (transform : FieldTransform) (column value : Expr Query) :
    Grows (rewriteEquality context transform column value) := by
  unfold rewriteEquality
  split
  · exact (grows_lift _).bind fun _ => grows_pure _
  · split
    · exact (grows_lift _).bind fun _ => grows_pure _
    · split
      · exact (grows_lift _).bind fun _ => grows_pure _
      · exact (grows_indexValue _ _).bind fun _ => grows_pure _

theorem grows_rewriteInList (column : Expr Query) (list : List (Expr Query)) :
    Grows (rewriteInList context scope column list) := by
  unfold rewriteInList
  split
  · exact (grows_lift _).bind fun _ => grows_pure _
  · split
    · exact (grows_lift _).bind fun _ => grows_pure _
    · split
      · exact (grows_lift _).bind fun _ => grows_pure _
      · split
        · exact (grows_lift _).bind fun _ => grows_pure _
        · exact (grows_indexEach _ _).bind fun _ => grows_pure _

theorem grows_rewriteSelection (expr : Expr Query) :
    Grows (rewriteSelection context scope expr) := by
  fun_induction rewriteSelection context scope expr with
  | case1 => exact (grows_rewriteEquality _ _ _).bind fun _ => grows_pure _
  | case2 => exact (grows_rewriteEquality _ _ _).bind fun _ => grows_pure _
  | case3 => exact grows_unsupported _
  | case4 left right leftIH rightIH => exact leftIH.bind fun _ => rightIH.bind fun _ => grows_pure _
  | case5 left right leftIH rightIH => exact leftIH.bind fun _ => rightIH.bind fun _ => grows_pure _
  | case6 inner ih => exact ih.bind fun _ => grows_pure _
  | case7 inner ih => exact ih.bind fun _ => grows_pure _
  | case8 => exact (grows_rewriteInList _ _).bind fun _ => grows_pure _
  | case9 => exact (grows_rewriteInList _ _).bind fun _ => grows_pure _
  | case10 => exact (grows_recordParam _ _).bind fun _ => grows_pure _
  | case11 => exact grows_unsupported _
  | case12 => exact grows_unsupported _

mutual
theorem grows_rewriteNestedQueries (queries : ∀ query, Grows (rewriteQuery query)) :
    ∀ expr : Expr Query, Grows (rewriteNestedQueries rewriteQuery expr)
  | .subquery query => (queries query).bind fun _ => grows_pure _
  | .exists query _ => (queries query).bind fun _ => grows_pure _
  | .inSubquery operand query _ =>
    (queries query).bind fun _ =>
      (grows_rewriteNestedQueries queries operand).bind fun _ => grows_pure _
  | .binary _ left right =>
    (grows_rewriteNestedQueries queries left).bind fun _ =>
      (grows_rewriteNestedQueries queries right).bind fun _ => grows_pure _
  | .unary _ inner => (grows_rewriteNestedQueries queries inner).bind fun _ => grows_pure _
  | .inList operand list _ =>
    (grows_rewriteNestedQueries queries operand).bind fun _ =>
      (grows_rewriteNestedEach queries list).bind fun _ => grows_pure _
  | .between operand low high _ =>
    (grows_rewriteNestedQueries queries operand).bind fun _ =>
      (grows_rewriteNestedQueries queries low).bind fun _ =>
        (grows_rewriteNestedQueries queries high).bind fun _ => grows_pure _
  | .pattern _ operand pattern _ =>
    (grows_rewriteNestedQueries queries operand).bind fun _ =>
      (grows_rewriteNestedQueries queries pattern).bind fun _ => grows_pure _
  | .tuple items => (grows_rewriteNestedEach queries items).bind fun _ => grows_pure _
  | .case operand conditions results elseResult =>
    (grows_rewriteNestedOption queries operand).bind fun _ =>
      (grows_rewriteNestedOption queries elseResult).bind fun _ =>
        (grows_rewriteNestedEach queries conditions).bind fun _ =>
          (grows_rewriteNestedEach queries results).bind fun _ => grows_pure _
  | .function _ args _ => (grows_rewriteNestedEach queries args).bind fun _ => grows_pure _
  | .identifier _ => grows_pure _
  | .compoundIdentifier _ => grows_pure _
  | .value _ => grows_pure _
  | .typedString _ _ => grows_pure _
  | .array _ => grows_pure _
  | .functionQuery _ _ => grows_pure _
  | .substring _ _ _ => grows_pure _
  | .wildcard => grows_pure _
  | .unwalked _ _ => grows_pure _

theorem grows_rewriteNestedEach (queries : ∀ query, Grows (rewriteQuery query)) :
    ∀ list : List (Expr Query), Grows (rewriteNestedEach rewriteQuery list)
  | [] => grows_pure _
  | expr :: rest =>
    (grows_rewriteNestedQueries queries expr).bind fun _ =>
      (grows_rewriteNestedEach queries rest).bind fun _ => grows_pure _

theorem grows_rewriteNestedOption (queries : ∀ query, Grows (rewriteQuery query)) :
    ∀ expr : Option (Expr Query), Grows (rewriteNestedOption rewriteQuery expr)
  | none => grows_pure _
  | some expr => (grows_rewriteNestedQueries queries expr).bind fun _ => grows_pure _
end

theorem grows_rewritePredicate (queries : ∀ query, Grows (rewriteQuery query)) (expr : Expr Query) :
    Grows (rewritePredicate rewriteQuery context scope expr) :=
  (grows_rewriteSelection expr).bind fun _ =>
    (grows_rewriteNestedQueries queries _).bind fun _ => grows_pure _

end Growth

end Dbsec.Predicate
