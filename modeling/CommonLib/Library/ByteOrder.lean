import Mathlib.Tactic.Common

/-!
# Network byte order

On a little-endian machine the conversions between host and network order reverse the bytes of a
value, two or four of them.  Either one undoes itself; mixing them up shifts the value.
-/

namespace CommonLib

/-- The value of two bytes in the other byte order. -/
def htons (value : Nat) : Nat := value % 256 * 256 + value / 256 % 256

/-- The value of four bytes in the other byte order. -/
def htonl (value : Nat) : Nat :=
  value % 256 * 16777216 + value / 256 % 256 * 65536 + value / 65536 % 256 * 256 +
    value / 16777216 % 256

theorem htonl_bytes {first second third fourth : Nat} (first_lt : first < 256)
    (second_lt : second < 256) (third_lt : third < 256) (fourth_lt : fourth < 256) :
    htonl (first + second * 256 + third * 65536 + fourth * 16777216) =
      fourth + third * 256 + second * 65536 + first * 16777216 := by
  have byte₁ : (first + second * 256 + third * 65536 + fourth * 16777216) % 256 = first := by omega
  have byte₂ : (first + second * 256 + third * 65536 + fourth * 16777216) / 256 % 256 = second := by
    omega
  have byte₃ : (first + second * 256 + third * 65536 + fourth * 16777216) / 65536 % 256 = third := by
    omega
  have byte₄ : (first + second * 256 + third * 65536 + fourth * 16777216) / 16777216 % 256 =
      fourth := by
    omega
  rw [htonl, byte₁, byte₂, byte₃, byte₄]
  omega

theorem htonl_htonl {value : Nat} (small : value < 4294967296) : htonl (htonl value) = value := by
  have swapped : htonl value = value / 16777216 % 256 + value / 65536 % 256 * 256 +
      value / 256 % 256 * 65536 + value % 256 * 16777216 := by
    unfold htonl
    omega
  have nested : value / 65536 = value / 256 / 256 := by omega
  have nested' : value / 16777216 = value / 65536 / 256 := by omega
  rw [swapped, htonl_bytes (Nat.mod_lt _ (by decide)) (Nat.mod_lt _ (by decide))
    (Nat.mod_lt _ (by decide)) (Nat.mod_lt _ (by decide)), nested', nested]
  omega

/-- The bytes which `htons` swaps are the lower half of what `htonl` swaps. -/
theorem htonl_htons {value : Nat} (small : value < 65536) : htonl (htons value) = value * 65536 := by
  have swapped : htons value =
      value / 256 % 256 + value % 256 * 256 + 0 * 65536 + 0 * 16777216 := by
    unfold htons
    omega
  rw [swapped, htonl_bytes (Nat.mod_lt _ (by decide)) (Nat.mod_lt _ (by decide)) (by decide)
    (by decide)]
  omega

theorem htonl_lt (value : Nat) : htonl value < 4294967296 := by
  unfold htonl
  omega

theorem htons_lt (value : Nat) : htons value < 65536 := by
  unfold htons
  omega

end CommonLib
