import Dbsec.Envelope

/-! Field transforms as the write path sees them, and the parameter actions that
cross from Parse to Bind (proxy/src/portal.rs). A transform is its capabilities and
its identity: two columns share one exactly when they share the allocation. The
randomness of one seal is part of the transform's value here. -/
namespace Dbsec.Params
open Framing Envelope

inductive WireForm where
  | bytea
  | text
  deriving DecidableEq

structure FieldTransform where
  /-- The allocation behind the `Arc`, what `Arc::ptr_eq` compares. -/
  identity : Nat
  wire : WireForm
  sealValue : Bytes → Option RowKey → Except Error Bytes
  searchIndex : Bytes → Except Error (Option Bytes)
  supportsSearch : Bool

/-- Where the row key of a sealed parameter comes from. -/
inductive RowKeySource where
  | none
  | literal (key : RowKey)
  | param (index : Nat) (typeOid : Nat) (column : String)
  deriving DecidableEq

inductive ParamAction where
  | sealWith (transform : FieldTransform) (row : RowKeySource)
  | searchIndex (transform : FieldTransform)
  | searchIndexArray (transform : FieldTransform) (column : String)

def ParamAction.agreesWith : ParamAction → ParamAction → Bool
  | .sealWith a left, .sealWith b right => a.identity == b.identity && left == right
  | .searchIndex a, .searchIndex b => a.identity == b.identity
  | .searchIndexArray a left, .searchIndexArray b right =>
    a.identity == b.identity && left == right
  | _, _ => false

/-- The session errors of the proxy that the modelled functions raise. -/
inductive SessionError where
  | conflictingParameter (placeholder : Nat)
  | nameTooLong (what : String) (len max : Nat)
  | sessionLimit (what : String) (limit : Nat)
  | wire (cause : Error)
  | sqlNotUtf8
  | rerender
  deriving DecidableEq

/-- The placeholders of one statement that Bind must transform, at most one action each. -/
structure ParamTransforms where
  entries : List (Nat × ParamAction)
  distinct : (entries.map Prod.fst).Nodup

def ParamTransforms.empty : ParamTransforms := ⟨[], List.nodup_nil⟩

def ParamTransforms.isEmpty (params : ParamTransforms) : Bool := params.entries.isEmpty

def ParamTransforms.record (params : ParamTransforms) (index : Nat) (action : ParamAction) :
    Except SessionError ParamTransforms :=
  match found : params.entries.find? (·.1 = index) with
  | some (_, existing) =>
    if existing.agreesWith action then .ok params
    else .error (.conflictingParameter (index + 1))
  | none =>
    .ok ⟨params.entries ++ [(index, action)], by
      rw [List.map_append, List.nodup_append]
      refine ⟨params.distinct, by simp, ?_⟩
      intro held listed other single
      obtain ⟨entry, member, rfl⟩ := List.mem_map.mp listed
      have missed := List.find?_eq_none.mp found entry member
      simp only [List.map_cons, List.map_nil, List.mem_singleton] at single
      subst single
      simpa using missed⟩

end Dbsec.Params
