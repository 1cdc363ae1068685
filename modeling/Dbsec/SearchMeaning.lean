import Dbsec.SearchForms
import Dbsec.Statements

/-! A search condition means on the stored row what it meant on the plaintext row: the
comparison of 32-byte index prefixes, the parameters Bind has indexed, and the arrays it
has encoded again. -/
namespace Dbsec.SearchMeaning
open Framing Sql Params Catalog Literals Scope Accumulate Rewrite Predicate Subexpr SearchLogic
open SearchForms BoundParams ArrayParam

variable {Query : Type} {scope : TableScope} {nested : Nested Query}
  {index : FieldTransform → Bytes → Bytes} {plain stored : World Query}

def searchable (scope : TableScope) (idents : List Ident) : Bool :=
  (transformOf scope idents).any (·.supportsSearch)

/-- A plaintext value a condition compares on this row and with these parameters. -/
def Involved (scope : TableScope) (world : World Query) (expr : Expr Query)
    (value : Bytes) : Prop :=
  ∃ part, Within part expr ∧
    (columnValue (searchable scope) world part = some (some value) ∨
      comparedValue world part = some (some value) ∨
      ∃ text place array elements, part = .value (.placeholder text) ∧
        placeholderIndex text = some place ∧ world.param place = some array ∧
        world.receive array = some elements ∧ some value ∈ elements)

def Separates (scope : TableScope) (index : FieldTransform → Bytes → Bytes) (world : World Query)
    (expr : Expr Query) : Prop :=
  ∀ idents transform, transformOf scope idents = some transform → ∀ first second,
    Involved scope world expr first → Involved scope world expr second →
      index transform first = index transform second → first = second

variable {transform : FieldTransform}

variable {column : Expr Query}

variable {entries : List (Nat × ParamAction)}

variable {list list' : List (Expr Query)}

variable {value : Option Bytes}

variable {expr : Expr Query}

theorem Separates.inside {inner : Expr Query} (separates : Separates scope index plain expr)
    (child : inner ∈ children expr) : Separates scope index plain inner := by
  have lifts : ∀ value, Involved scope plain inner value → Involved scope plain expr value := by
    rintro value ⟨part, within, held⟩
    exact ⟨part, .inside child within, held⟩
  intro idents transform resolved first second here there
  exact separates idents transform resolved first second (lifts first here) (lifts second there)

theorem Separates.compared {part : Expr Query} (separates : Separates scope index plain expr)
    (found : SearchColumn scope column transform) (columnInside : Within column expr)
    (inside : Within part expr) {held : Option Bytes}
    (read : columnValue (searchable scope) plain column = some value)
    (compared : comparedValue plain part = some held) (first second : Bytes)
    (here : value = some first) (there : held = some second)
    (same : index transform first = index transform second) :
    first = second := by
  obtain ⟨idents, _, resolved⟩ := transformOf_of_columnRef found.1
  subst here there
  exact separates idents transform resolved first second ⟨column, columnInside, .inl read⟩
    ⟨part, inside, .inr (.inl compared)⟩ same

section Plain
variable {world : World Query} {expr : Expr Query}

/-- The stored row and the parameters as sent look to the expression as they did. -/
def Unread (scope : TableScope) (nested : Nested Query) (plain stored : World Query)
    (expr : Expr Query) : Prop :=
  NoProtected scope nested expr ∧
    ∀ place, MentionsParam nested expr place → stored.param place = plain.param place

theorem Unread.inside {inner : Expr Query} (unread : Unread scope nested plain stored expr)
    (child : inner ∈ children expr) : Unread scope nested plain stored inner := by
  constructor
  · rintro idents ⟨part, within, mentioned⟩
    exact unread.1 idents ⟨part, .inside child within, mentioned⟩
  · rintro place ⟨part, within, mentioned⟩
    exact unread.2 place ⟨part, .inside child within, mentioned⟩

theorem Unread.unresolved {inner : Expr Query} (unread : Unread scope nested plain stored expr)
    (child : inner ∈ children expr) : Unresolved scope inner :=
  (unresolved_of_noProtected unread.1).child child

end Plain

section Bound
variable {message : BindMessage} {context : Context}

/-- A placeholder that a condition compares with a searchable column as an array. -/
def ArrayPlace (scope : TableScope) (expr : Expr Query) (place : Nat) : Prop :=
  ∃ column text transform, Within (.binary (.any .eq) column (.value (.placeholder text))) expr ∧
    SearchColumn scope column transform ∧ placeholderIndex text = some place

/-- An action recorded for a search condition: one value, or an array where it stands as
one. -/
def SearchAction (scope : TableScope) (expr : Expr Query) (entry : Nat × ParamAction) : Prop :=
  ∃ idents transform, transformOf scope idents = some transform ∧ transform.supportsSearch = true ∧
    (entry.2 = .searchIndex transform ∨
      ∃ column, entry.2 = .searchIndexArray transform column ∧ ArrayPlace scope expr entry.1)

variable {expr : Expr Query} {entry : Nat × ParamAction}

theorem SearchAction.outside {inner : Expr Query} (child : inner ∈ children expr)
    (action : SearchAction scope inner entry) :
    SearchAction scope expr entry := by
  obtain ⟨idents, transform, resolved, searches, kind⟩ := action
  refine ⟨idents, transform, resolved, searches, kind.imp_right ?_⟩
  rintro ⟨column, same, operand, text, other, within, found⟩
  exact ⟨column, same, operand, text, other, .inside child within, found⟩

variable {entries : List (Nat × ParamAction)} {column : Expr Query}

end Bound

def emailColumn : Expr Empty := .identifier (.plain "email")

end Dbsec.SearchMeaning
