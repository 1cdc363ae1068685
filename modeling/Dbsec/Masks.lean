import Dbsec.Protection
import Dbsec.Spellings

/-! What a mask of core/src/mask.rs lets through. Its counts are machine words and their
sum wraps, so a mask whose counts add up past a word keeps far more than its edges. -/
namespace Dbsec.Masks
open Framing Text Spellings Protection

def size (value : Bytes) : Nat :=
  match decode value with
  | some text => text.length
  | none => value.length

def edges (mask : MaskSpec) : Nat := mask.keepFirst.toNat + mask.keepLast.toNat

/-- A mask on one value: as many characters come out as went in, a value without a hidden
middle is hidden whole, and otherwise nothing between the edges is told. -/
structure KeepsEdges (mask : MaskSpec) (value : Bytes) : Prop where
  count : ∃ shown, mask.apply value = encode shown ∧ shown.length = size value
  whole : size value ≤ edges mask → ∀ other, other.length < 2 ^ 63 → size other = size value →
    mask.apply other = mask.apply value
  middle : edges mask < size value → ∀ text, decode value = some text →
    (∀ other spelled, decode other = some spelled → spelled.length = text.length →
      spelled.take mask.keepFirst.toNat = text.take mask.keepFirst.toNat →
      spelled.drop (text.length - mask.keepLast.toNat) =
        text.drop (text.length - mask.keepLast.toNat) → mask.apply other = mask.apply value) ∧
    ∃ shown, mask.apply value = encode shown ∧
      shown.take mask.keepFirst.toNat = text.take mask.keepFirst.toNat ∧
      shown.drop (text.length - mask.keepLast.toNat) = text.drop (text.length - mask.keepLast.toNat)
  bytes : decode value = none → ∀ other, decode other = none → other.length = value.length →
    mask.apply other = mask.apply value

theorem size_le (value : Bytes) : size value ≤ value.length := by
  unfold size
  split
  · exact decode_length_le ‹_›
  · exact Nat.le_refl _

section Words

theorem sum_toNat (mask : MaskSpec) :
    (mask.keepFirst + mask.keepLast).toNat = edges mask % 2 ^ 64 := UInt64.toNat_add _ _

theorem edges_lt (mask : MaskSpec) : edges mask < 2 ^ 65 := by
  have first := mask.keepFirst.toNat_lt
  have last := mask.keepLast.toNat_lt
  unfold edges
  omega

theorem last_start {mask : MaskSpec} {count : Nat} (small : count < 2 ^ 64)
    (inside : mask.keepLast.toNat ≤ count) :
    (UInt64.ofNat count - mask.keepLast).toNat = count - mask.keepLast.toNat := by
  have counted : (UInt64.ofNat count).toNat = count := UInt64.toNat_ofNat_of_lt' small
  rw [UInt64.toNat_sub_of_le _ _ (UInt64.le_iff_toNat_le.mpr (by rw [counted]; exact inside)),
    counted]

end Words

section Shown

def masked (first last : Nat) (with_ : Char) (text : List Char) : List Char :=
  text.mapIdx fun place char => if place < first ∨ text.length - last ≤ place then char else with_

theorem masked_length (first last : Nat) (with_ : Char) (text : List Char) :
    (masked first last with_ text).length = text.length := by
  rw [masked, List.length_mapIdx]

theorem masked_edges (first last : Nat) (with_ : Char) (text : List Char) :
    (masked first last with_ text).take first = text.take first ∧
      (masked first last with_ text).drop (text.length - last) =
        text.drop (text.length - last) := by
  constructor
  · apply List.ext_getElem
    · simp [masked_length]
    · intro place bound _
      have early : place < first := by
        simp only [List.length_take] at bound
        omega
      simp [masked, early]
  · apply List.ext_getElem
    · simp [masked_length]
    · intro place _ _
      have late : text.length - last ≤ text.length - last + place := Nat.le_add_right _ _
      simp only [masked, List.getElem_drop, List.getElem_mapIdx, late, or_true, if_true]

theorem masked_congr {first last : Nat} {with_ : Char} {left right : List Char}
    (lengths : left.length = right.length) (front : left.take first = right.take first)
    (back : left.drop (right.length - last) = right.drop (right.length - last)) :
    masked first last with_ left = masked first last with_ right := by
  apply List.ext_getElem
  · rw [masked_length, masked_length, lengths]
  · intro place leftBound rightBound
    rw [masked_length] at leftBound rightBound
    simp only [masked, List.getElem_mapIdx, lengths]
    split
    · rename_i kept
      rcases kept with early | late
      · have same := congrArg (·[place]?) front
        simpa [early, leftBound, rightBound] using same
      · have same := congrArg (·[place - (right.length - last)]?) back
        simpa [Nat.add_sub_cancel' late, leftBound, rightBound] using same
    · rfl

end Shown

section Apply

variable {mask : MaskSpec} {value : Bytes}

theorem apply_hidden (short : size value ≤ (mask.keepFirst + mask.keepLast).toNat) :
    mask.apply value = encode (List.replicate (size value) mask.maskWith) := by
  unfold MaskSpec.apply
  unfold size at short ⊢
  cases read : decode value with
  | some text =>
    rw [read] at short
    exact if_pos short
  | none => rfl

theorem apply_bytes (unread : decode value = none) :
    mask.apply value = encode (List.replicate value.length mask.maskWith) := by
  unfold MaskSpec.apply
  rw [unread]

theorem apply_masked {mask : MaskSpec} {value : Bytes} {text : List Char}
    (read : decode value = some text)
    (small : text.length < 2 ^ 64) (long : edges mask < text.length) :
    mask.apply value =
      encode (masked mask.keepFirst.toNat mask.keepLast.toNat mask.maskWith text) := by
  have sum : (mask.keepFirst + mask.keepLast).toNat = edges mask := by
    rw [sum_toNat, Nat.mod_eq_of_lt (by omega)]
  have start : (UInt64.ofNat text.length - mask.keepLast).toNat =
      text.length - mask.keepLast.toNat := by
    apply last_start small
    unfold edges at long
    omega
  unfold MaskSpec.apply
  rw [read]
  dsimp only
  rw [sum, if_neg (by omega), start]
  rfl

theorem apply_carried {mask : MaskSpec} {first : Char} {rest : List Char}
    (carry : 2 ^ 64 ≤ edges mask) (long : edges mask - 2 ^ 64 < (first :: rest).length) :
    ∃ others, mask.apply (encode (first :: rest)) = encode (first :: others) := by
  have sum : (mask.keepFirst + mask.keepLast).toNat = edges mask - 2 ^ 64 := by
    have bound := edges_lt mask
    rw [sum_toNat]
    omega
  have positive : 0 < mask.keepFirst.toNat := by
    have last := mask.keepLast.toNat_lt
    unfold edges at carry
    omega
  unfold MaskSpec.apply
  rw [decode_encode]
  dsimp only
  rw [sum, if_neg (by omega), List.mapIdx_cons, if_pos (.inl positive)]
  exact ⟨_, rfl⟩

theorem size_encode (text : List Char) : size (encode text) = text.length := by
  unfold size
  rw [decode_encode]

/-- A mask keeps to its edges on a value exactly if its counts add up without a carry, or
to so much past it that the value is hidden anyway. -/
theorem keepsEdges_iff {mask : MaskSpec} {value : Bytes} (memory : value.length < 2 ^ 63) :
    KeepsEdges mask value ↔ edges mask < 2 ^ 64 ∨ size value ≤ edges mask - 2 ^ 64 := by
  have fewer := size_le value
  constructor
  · intro keeps
    by_contra neither
    obtain ⟨carry, long⟩ := not_or.mp neither
    -- With the sum wrapped below the size, the first character is shown.
    have single : ∀ char : Char, isAscii char = true →
        ∃ others, mask.apply value = encode (char :: others) := by
      intro char ascii
      have sized : (char :: List.replicate (size value - 1) 'x').length = size value := by
        simp only [List.length_cons, List.length_replicate]
        omega
      have plain : (char :: List.replicate (size value - 1) 'x').all isAscii = true := by
        simp only [List.all_cons, ascii, Bool.true_and, List.all_replicate]
        split <;> rfl
      obtain ⟨others, starts⟩ := @apply_carried mask char (List.replicate (size value - 1) 'x')
        (by omega) (by omega)
      refine ⟨others, ?_⟩
      rw [← starts]
      refine (keeps.whole (by omega) _ ?_ ?_).symm
      · rw [encode_length_of_ascii plain]
        omega
      · rw [size_encode, sized]
    obtain ⟨left, startsLeft⟩ := single 'a' rfl
    obtain ⟨right, startsRight⟩ := single 'b' rfl
    have same := encode_inj.mp (startsLeft.symm.trans startsRight)
    cases same
  · intro bounded
    have hides : size value ≤ edges mask → size value ≤ (mask.keepFirst + mask.keepLast).toNat := by
      intro short
      rw [sum_toNat]
      have bound := edges_lt mask
      omega
    refine ⟨?_, ?_, ?_, ?_⟩
    · by_cases short : size value ≤ edges mask
      · exact ⟨_, apply_hidden (hides short), List.length_replicate⟩
      · cases read : decode value with
        | none =>
          refine ⟨_, apply_bytes read, ?_⟩
          rw [List.length_replicate, size, read]
        | some text =>
          have counted : size value = text.length := by rw [size, read]
          refine ⟨_, apply_masked read (by omega) (by omega), ?_⟩
          rw [masked_length, counted]
    · intro short other _ same
      rw [apply_hidden (hides short), apply_hidden (by rw [same]; exact hides short), same]
    · intro long text read
      have counted : size value = text.length := by rw [size, read]
      have shown := @apply_masked mask value text read (by omega) (by omega)
      refine ⟨?_, _, shown, masked_edges _ _ _ _⟩
      intro other spelled otherRead lengths front back
      have otherShown := @apply_masked mask other spelled otherRead (by omega) (by omega)
      rw [shown, otherShown, masked_congr lengths front back]
    · intro unread other otherUnread lengths
      rw [apply_bytes unread, apply_bytes otherUnread, lengths]

theorem last_four_kept :
    KeepsEdges ⟨0, 4, '*'⟩ (encode "4111111111111111".toList) ↔
      edges ⟨0, 4, '*'⟩ < 2 ^ 64 ∨
        size (encode "4111111111111111".toList) ≤ edges ⟨0, 4, '*'⟩ - 2 ^ 64 :=
  keepsEdges_iff (by decide)

/-- Counts that wrap show the whole value instead of hiding it. -/
theorem wrapped_counts_reveal :
    size (encode "4111111111111111".toList) ≤ edges ⟨18446744073709551615, 4, '*'⟩ ∧
      MaskSpec.apply ⟨18446744073709551615, 4, '*'⟩ (encode "4111111111111111".toList) =
        encode "4111111111111111".toList := by
  decide +kernel

end Apply

end Dbsec.Masks
