import Mathlib

/-! Length-prefixed byte fields. A field is framed by its length as four
big-endian bytes, so a sequence of framed fields can be read back in only one way
as long as every length fits the prefix. Nothing here knows what the fields hold. -/
namespace Dbsec.Framing

abbrev Bytes := List UInt8

abbrev Block (size : Nat) := { bytes : Bytes // bytes.length = size }

/-- A length as four bytes, most significant first; lengths from `2^32` on wrap. -/
def be32 (n : Nat) : Bytes :=
  [UInt8.ofNat (n / 2 ^ 24), UInt8.ofNat (n / 2 ^ 16), UInt8.ofNat (n / 2 ^ 8), UInt8.ofNat n]

def frame (field : Bytes) : Bytes := be32 field.length ++ field

@[simp]
theorem be32_length (n : Nat) : (be32 n).length = 4 := rfl

@[simp]
theorem frame_length (field : Bytes) : (frame field).length = 4 + field.length := by
  simp [frame]

theorem ofNat_eq_iff (m n : Nat) : UInt8.ofNat m = UInt8.ofNat n ↔ m % 256 = n % 256 := by
  rw [← UInt8.toNat_inj, UInt8.toNat_ofNat', UInt8.toNat_ofNat']

theorem be32_inj {m n : Nat} (fits : m < 2 ^ 32) (fits' : n < 2 ^ 32)
    (equal : be32 m = be32 n) : m = n := by
  simp only [be32, List.cons.injEq, ofNat_eq_iff, and_true] at equal
  omega

theorem frame_append_inj {field field' rest rest' : Bytes}
    (fits : field.length < 2 ^ 32) (fits' : field'.length < 2 ^ 32)
    (equal : frame field ++ rest = frame field' ++ rest') : field = field' ∧ rest = rest' := by
  simp only [frame, List.append_assoc] at equal
  obtain ⟨prefixes, bodies⟩ := List.append_inj equal (by simp)
  exact List.append_inj bodies (be32_inj fits fits' prefixes)

theorem frame_inj {field field' : Bytes} (fits : field.length < 2 ^ 32)
    (fits' : field'.length < 2 ^ 32) (equal : frame field = frame field') : field = field' :=
  (@frame_append_inj _ _ [] [] fits fits' (by simpa using equal)).1

theorem zero_mem_frame {field : Bytes} (short : field.length < 2 ^ 24) : 0 ∈ frame field := by
  have leading : UInt8.ofNat (field.length / 2 ^ 24) = 0 := by
    rw [Nat.div_eq_of_lt short]; rfl
  rw [frame, be32, leading]
  exact List.mem_append_left field List.mem_cons_self

end Dbsec.Framing
