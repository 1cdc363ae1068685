import Dbsec.Text
import Dbsec.Sql
import Dbsec.Params

/-! Expressions read as values: the helpers of proxy/src/encrypt/mod.rs and the end of
proxy/src/encrypt/seal.rs. A placeholder's number is a machine word, so one too large
names no parameter. -/
namespace Dbsec.Literals
open Framing Sql Params

variable {Query : Type}

def placeholderIndex (placeholder : String) : Option Nat :=
  match placeholder.toList with
  | '$' :: digits =>
    match Text.parseUnsigned (2 ^ 64 - 1) digits with
    | some (number + 1) => some number
    | _ => none
  | _ => none

def unwrapCasts : Expr Query → Expr Query
  | .unary (.cast _) inner => unwrapCasts inner
  | .unary .nested inner => unwrapCasts inner
  | other => other

/-- The plaintext a piece of text stands for: for a BYTEA form, `\x` is hex input. -/
def textPlaintext (text : List Char) : WireForm → Bytes
  | .text => Text.encode text
  | .bytea =>
    match text with
    | '\\' :: 'x' :: digits => (Text.hexDecode digits).getD (Text.encode text)
    | _ => Text.encode text

/-- The text of a number, under the casts and parentheses around it. -/
def numberText (expr : Expr Query) : Option (List Char) :=
  match unwrapCasts expr with
  | .value (.number text) => some text.toList
  | _ => none

/-- The plaintext a literal stands for; `none` when the expression is no literal. -/
def literalPlaintext (expr : Expr Query) (wire : WireForm) : Option Bytes :=
  match unwrapCasts expr with
  | .value (.singleQuoted text) => some (textPlaintext text.toList wire)
  | .value (.escaped text) => some (textPlaintext text.toList wire)
  | .value (.unicode text) => some (textPlaintext text.toList wire)
  | .value (.national text) => some (textPlaintext text.toList wire)
  | .value (.dollarQuoted text _) => some (textPlaintext text.toList wire)
  | .value (.number text) => some (Text.encode text.toList)
  | .unary (.op .minus) inner => (numberText inner).map fun text => Text.encode ('-' :: text)
  | .unary (.op .plus) inner => (numberText inner).map Text.encode
  | _ => none

/-- A BYTEA value as an escape string literal, the same under either setting of
`standard_conforming_strings`. -/
def byteaLiteral (value : Bytes) : Expr Query :=
  .value (.escaped (String.ofList ('\\' :: 'x' :: Text.hexEncode value)))

theorem unwrapCasts_induction {motive : Expr Query → Prop} (expr : Expr Query)
    (unwrapped : motive (unwrapCasts expr))
    (cast : ∀ type inner, motive inner → motive (.unary (.cast type) inner))
    (nested : ∀ inner, motive inner → motive (.unary .nested inner)) : motive expr := by
  fun_induction unwrapCasts expr with
  | case1 type inner ih => exact cast type inner (ih unwrapped)
  | case2 inner ih => exact nested inner (ih unwrapped)
  | case3 other => exact unwrapped

end Dbsec.Literals
