import Dbsec.Predicate
import Dbsec.SearchLogic

/-! The search conditions a blind index answers, and the form rewrite_selection of
proxy/src/encrypt/predicate.rs gives them. -/
namespace Dbsec.SearchForms
open Framing Sql Params Catalog Literals Scope Accumulate Rewrite Predicate Subexpr SearchLogic

variable {Query : Type}

/-- The columns and placeholders of the outer statement that a nested query refers to. -/
structure Nested (Query : Type) where
  columns : Query → List (List Ident)
  placeholders : Query → List Nat

def MentionsColumn (nested : Nested Query) (expr : Expr Query) (idents : List Ident) : Prop :=
  ∃ part, Within part expr ∧ (columnIdents part = some idents ∨
    ∃ query ∈ queries part, idents ∈ nested.columns query)

def MentionsParam (nested : Nested Query) (expr : Expr Query) (index : Nat) : Prop :=
  ∃ part, Within part expr ∧ ((∃ text, part = .value (.placeholder text) ∧
    placeholderIndex text = some index) ∨ ∃ query ∈ queries part, index ∈ nested.placeholders query)

def NoProtected (scope : TableScope) (nested : Nested Query) (expr : Expr Query) : Prop :=
  ∀ idents, MentionsColumn nested expr idents → resolve scope idents = .unknown

def SearchColumn (scope : TableScope) (column : Expr Query) (transform : FieldTransform) : Prop :=
  columnRef scope column = some transform ∧ transform.supportsSearch = true

section Forms
variable (index : FieldTransform → Bytes → Bytes)

variable {searches : List Nat}

end Forms

section Rewriting
variable {context : Context} {scope : TableScope} {nested : Nested Query}
  {index : FieldTransform → Bytes → Bytes} {before : ParamTransforms}

variable {column : Expr Query} {transform : FieldTransform}

theorem transformOf_of_columnRef (found : columnRef scope column = some transform) :
    ∃ idents, columnIdents column = some idents ∧ transformOf scope idents = some transform := by
  unfold columnRef resolveColumn at found
  split at found
  · rename_i idents named
    exact ⟨idents, named, found⟩
  · cases found

variable {text : List Char}

section Indexed
variable {transform : FieldTransform} {entries : List (Nat × ParamAction)}

end Indexed

def Unresolved (scope : TableScope) (expr : Expr Query) : Prop :=
  ∀ part, Within part expr → resolveColumn scope part = .unknown

variable {expr : Expr Query}

theorem unresolved_of_noProtected (absent : NoProtected scope nested expr) :
    Unresolved scope expr := by
  intro part within
  unfold resolveColumn
  split
  · rename_i idents named
    exact absent idents ⟨part, within, .inl named⟩
  · rfl

theorem Unresolved.child {inner : Expr Query} (unresolved : Unresolved scope expr)
    (child : inner ∈ children expr) : Unresolved scope inner :=
  fun part within => unresolved part (.inside child within)

theorem Unresolved.columnRef (unresolved : Unresolved scope expr) :
    columnRef scope expr = none := by
  rw [Scope.columnRef, unresolved expr .self]
  rfl

mutual
theorem ambiguousColumn_unresolved : ∀ expr : Expr Query, Unresolved scope expr →
    ambiguousColumn scope expr = none := by
  intro expr unresolved
  unfold ambiguousColumn
  split
  · rename_i items
    exact ambiguousAny_unresolved items fun item listed => unresolved.child listed
  · rw [unresolved _ .self]
termination_by expr => sizeOf expr

theorem ambiguousAny_unresolved : ∀ items : List (Expr Query),
    (∀ item ∈ items, Unresolved scope item) → ambiguousAny scope items = none
  | [], _ => rfl
  | item :: rest, unresolved => by
      rw [ambiguousAny, ambiguousColumn_unresolved item (unresolved item List.mem_cons_self),
        ambiguousAny_unresolved rest fun other listed =>
          unresolved other (List.mem_cons_of_mem _ listed)]
      rfl
termination_by items => sizeOf items
end

mutual
theorem protectedColumn_unresolved : ∀ expr : Expr Query, Unresolved scope expr →
    protectedColumn scope expr = none := by
  intro expr unresolved
  unfold protectedColumn
  split
  · rename_i items
    exact protectedAny_unresolved items fun item listed => unresolved.child listed
  · rw [unresolved.columnRef]
    rfl
termination_by expr => sizeOf expr

theorem protectedAny_unresolved : ∀ items : List (Expr Query),
    (∀ item ∈ items, Unresolved scope item) → protectedAny scope items = none
  | [], _ => rfl
  | item :: rest, unresolved => by
      rw [protectedAny, protectedColumn_unresolved item (unresolved item List.mem_cons_self),
        protectedAny_unresolved rest fun other listed =>
          unresolved other (List.mem_cons_of_mem _ listed)]
      rfl
termination_by items => sizeOf items
end

variable {First Result : Type} {changed : Bool} {after : ParamTransforms}

variable {entries : List (Nat × ParamAction)}

end Rewriting

end Dbsec.SearchForms
