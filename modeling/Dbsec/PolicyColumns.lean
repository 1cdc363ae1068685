import Dbsec.CellBinding
import Dbsec.Protection
import Dbsec.Spellings

/-! What passing `Policy::validate` of core/src/policy.rs gives the columns that `build`
wires: each encrypted one has a cell context of its own, in the form the envelope layer
relies on, so an envelope copied to another column of the policy does not open there. -/
namespace Dbsec.PolicyColumns
open Framing Envelope KeyCache Transform Protection CellBinding Outcome

theorem encode_size (text : String) : (Text.encode text.toList).length = text.utf8ByteSize := by
  rw [String.utf8ByteSize, ← String.utf8Encode_toList, List.utf8Encode, List.size_toByteArray]
  rfl

theorem checkIdentifier_ok {name kind ident : String}
    (passed : checkIdentifier name kind ident = .ok ()) : ident.utf8ByteSize ≤ 63 := by
  unfold checkIdentifier at passed
  split at passed
  · cases passed
  · rename_i short
    exact Nat.not_lt.mp short

theorem validate_column {column : ColumnPolicy} {seen : List String}
    (passed : column.validate seen = .ok ()) :
    column.qualifiedName ∉ seen ∧ (Text.encode column.qualifiedName.toList).length ≤ 191 := by
  unfold ColumnPolicy.validate at passed
  dsimp only at passed
  split_ifs at passed with known
  refine ⟨known, ?_⟩
  simp only [checkIdentifiers, bind_ok_iff] at passed
  obtain ⟨_, schema, _, table, named⟩ := passed
  have schemaSize := checkIdentifier_ok schema
  have tableSize := checkIdentifier_ok table
  have columnSize := checkIdentifier_ok named
  have dot : ".".utf8ByteSize = 1 := rfl
  rw [encode_size]
  change (qualified _ _ _).utf8ByteSize ≤ 191
  simp only [qualified, String.utf8ByteSize_append, toString, dot]
  omega

theorem validateColumns_ok {seen : List String} {columns : List ColumnPolicy}
    (passed : validateColumns seen columns = .ok ()) :
    (columns.map (·.qualifiedName)).Nodup ∧ ∀ column ∈ columns, column.qualifiedName ∉ seen ∧
      (Text.encode column.qualifiedName.toList).length ≤ 191 := by
  induction columns generalizing seen with
  | nil => exact ⟨.nil, List.forall_mem_nil _⟩
  | cons column rest ih =>
    obtain ⟨_, here, later⟩ := bind_ok_iff.mp passed
    obtain ⟨distinct, each⟩ := ih later
    constructor
    · refine List.nodup_cons.mpr ⟨?_, distinct⟩
      intro listed
      obtain ⟨other, member, same⟩ := List.mem_map.mp listed
      exact (each other member).1 (same ▸ List.mem_cons_self)
    · refine List.forall_mem_cons.mpr ⟨validate_column here, ?_⟩
      intro other member
      obtain ⟨unseen, short⟩ := each other member
      exact ⟨fun listed => unseen (List.mem_cons_of_mem _ listed), short⟩

theorem context_of_built {policy : Policy} {column : ColumnPolicy} {transform : EncryptTransform}
    (built : (policy.buildColumn column).transform = some (.encrypt transform)) :
    transform.context.bytes = Text.encode column.qualifiedName.toList := by
  unfold Policy.buildColumn at built
  cases kind : column.transform <;> simp [kind] at built
  rw [← built]

variable {keys : KeySource}

/-- In a policy that passes, an envelope sealed for one encrypted column is refused in every
other, for every row, whatever its magic is relabelled to. PostgreSQL's names hold no NUL
byte. -/
theorem relocated_value_refused {policy : Policy} (valid : policy.validate = .ok ())
    (plain : ∀ column ∈ policy.columns, 0 ∉ Text.encode column.qualifiedName.toList)
    {home other : ColumnPolicy} (declared : home ∈ policy.columns)
    (present : other ∈ policy.columns) (apart : home ≠ other) {sealer opener : EncryptTransform}
    (writes : (policy.buildColumn home).transform = some (.encrypt sealer))
    (reads : (policy.buildColumn other).transform = some (.encrypt opener))
    {aead : Aead} {honest : Set Sealing} (ideal : Ideal aead honest) {writer reader : Ciphers keys}
    {nonce : Nonce} {row : Option RowKey} {plaintext envelope : Bytes}
    (sealed : (writer.seal aead nonce ⟨sealer.context, row, false⟩ plaintext).1 = .ok envelope)
    {version : Version} {stored : Bytes}
    (copied : envelopeOf stored = some (relabel version envelope)) (claimed : Option RowKey)
    (value : Bytes) :
    (opener.open aead reader stored claimed).1 ≠ .ok (some value) := by
  obtain ⟨_, passed, _⟩ := bind_ok_iff.mp valid
  obtain ⟨distinct, each⟩ := validateColumns_ok passed
  have good : ∀ {column transform}, column ∈ policy.columns →
      (policy.buildColumn column).transform = some (.encrypt transform) →
      Validated transform.context := by
    intro column transform member built
    rw [Validated, context_of_built built]
    exact ⟨List.length_pos_iff.mpr column.qualifiedName_ne_nil, (each column member).2,
      plain column member⟩
  intro opened
  rw [open_of_envelopeOf copied] at opened
  obtain ⟨same, _⟩ := open_in_place ideal version (good declared writes) (good present reads) sealed
    opened
  have names := congrArg CellContext.bytes same
  rw [context_of_built reads, context_of_built writes, Spellings.encode_inj, String.toList_inj]
    at names
  exact apart (List.inj_on_of_nodup_map distinct declared present names.symm)

/-- An e-mail address copied into the note beside it. -/
theorem copied_email_refused :
    let aead := ledger (block 32 7) (block 12 9) emailAad (List.replicate 17 65)
      (List.replicate 33 0) (by decide)
    let stored := assemble .v2 (block 16 1) (block 12 9) (List.replicate 33 0)
    let note : EncryptTransform := ⟨⟨Text.encode "public.users.note".toList⟩, none, false⟩
    (note.open aead emailCiphers stored none).1 ≠ .ok (some (List.replicate 17 65)) := by
  intro aead stored note
  have apart : ColumnPolicy.new "users" "email" ≠ .new "users" "note" := by simp [ColumnPolicy.new]
  exact @relocated_value_refused _ ⟨[.new "users" "email", .new "users" "note"], []⟩ rfl
    (by decide +kernel) _ _ (.head _) (.tail _ (.head _)) apart emailColumn note rfl rfl aead _
    (ledger_ideal ..) emailCiphers _ (block 12 9) none
    (List.replicate 17 65) stored rfl .v2 stored rfl none _

end Dbsec.PolicyColumns
