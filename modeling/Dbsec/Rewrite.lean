import Dbsec.Accumulate
import Dbsec.Scope

/-! The pass every rewrite of a statement runs in: it may be rejected, and it collects
what Bind must do to the statement's placeholders. Collected actions are never taken
back, so the accumulator grows by appending. -/
namespace Dbsec.Rewrite
open Sql Params Unprotected Catalog Literals Accumulate

abbrev Pass := StateT ParamTransforms (Except Rejection)

instance : Preorder ParamTransforms where
  le before after := before.entries <+: after.entries
  le_refl _ := List.prefix_refl _
  le_trans _ _ _ := List.IsPrefix.trans

theorem mem_of_le {before after : ParamTransforms} (grown : before ≤ after)
    {entry : Nat × ParamAction} (listed : entry ∈ before.entries) : entry ∈ after.entries :=
  List.IsPrefix.subset grown listed

/-- Records what Bind must do to one placeholder. Two positions that need different
values are a refusal of the statement, not the end of the session. -/
def recordParam (index : Nat) (action : ParamAction) : Pass Unit := fun params =>
  match params.record index action with
  | .ok grown => .ok ((), grown)
  | .error (.conflictingParameter placeholder) =>
    .error (.refused (s!"dbsec refused this statement: placeholder ${placeholder} feeds two " ++
      "protected positions that need different values, and a Bind carries one value per " ++
      "placeholder; give each position its own placeholder"))
  | .error other => .error (.fatal other)

theorem recordParam_ok {index : Nat} {action : ParamAction} {before after : ParamTransforms}
    (recorded : recordParam index action before = .ok ((), after)) :
    before ≤ after ∧ ∃ held, (index, held) ∈ after.entries ∧
      (held = action ∨ held.agreesWith action = true) := by
  unfold recordParam at recorded
  split at recorded
  · rename_i grown accepted
    obtain rfl : grown = after := congrArg Prod.snd (Except.ok.inj recorded)
    unfold ParamTransforms.record at accepted
    split at accepted
    · rename_i key existing found
      have listed := List.mem_of_find?_eq_some found
      have same : key = index := by simpa using List.find?_some found
      subst same
      split at accepted
      · rename_i agrees
        obtain rfl := Except.ok.inj accepted
        exact ⟨le_refl _, existing, listed, .inr agrees⟩
      · cases accepted
    · obtain rfl := Except.ok.inj accepted
      exact ⟨List.prefix_append _ _, action, by simp, .inl rfl⟩
  · cases recorded
  · cases recorded

theorem grows_recordParam (index : Nat) (action : ParamAction) :
    Grows (recordParam index action) := by
  intro before done after recorded
  exact (recordParam_ok recorded).1

variable {Query : Type}

/-- Whether a literal denotes the same bytes to the server as to the parser: only an
ordinary literal with a backslash can disagree, once escape strings are on. -/
def literalAgreesWithServer (context : Context) (expr : Expr Query) : Bool :=
  if context.escapeStrings then
    match unwrapCasts expr with
    | .value (.singleQuoted text) => !text.toList.contains '\\'
    | _ => true
  else true

end Dbsec.Rewrite
