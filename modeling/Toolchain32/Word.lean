/-!
# Words

A word is the number spelled by eight hexadecimal digits. Instructions are spelled in encoding
order, while data words (literals, addresses, values moved by loads and stores) are spelled as
their little-endian byte sequence: `pack` takes a value to its data spelling and `unpack` back.
-/

namespace Toolchain32

abbrev Word := UInt32

namespace Word

/-- The word with its four bytes in reverse order. -/
def swapBytes (w : Word) : Word :=
  let n := w.toNat
  UInt32.ofNat
    (n % 0x100 * 0x1000000 + n / 0x100 % 0x100 * 0x10000 + n / 0x10000 % 0x100 * 0x100 +
      n / 0x1000000)

theorem toNat_swapBytes (w : Word) :
    (swapBytes w).toNat = w.toNat % 0x100 * 0x1000000 + w.toNat / 0x100 % 0x100 * 0x10000 +
      w.toNat / 0x10000 % 0x100 * 0x100 + w.toNat / 0x1000000 := by
  have := w.toNat_lt
  rw [swapBytes, UInt32.toNat_ofNat']
  omega

/-- The bytes of a number put together from four bytes. -/
theorem bytes_of_sum {a b c d n : Nat} (ha : a < 0x100) (hb : b < 0x100) (hc : c < 0x100)
    (h : n = a + b * 0x100 + c * 0x10000 + d * 0x1000000) :
    n % 0x100 = a ∧ n / 0x100 % 0x100 = b ∧ n / 0x10000 % 0x100 = c ∧ n / 0x1000000 = d := by
  subst h
  refine ⟨?_, ?_, ?_, ?_⟩ <;> omega

theorem sum_bytes (n : Nat) :
    n / 0x1000000 * 0x1000000 + n / 0x10000 % 0x100 * 0x10000 + n / 0x100 % 0x100 * 0x100 +
      n % 0x100 = n := by
  have h2 : n / 0x10000 = n / 0x100 / 0x100 := by omega
  have h3 : n / 0x1000000 = n / 0x100 / 0x100 / 0x100 := by omega
  rw [h2, h3]
  omega

@[simp] theorem swapBytes_swapBytes (w : Word) : swapBytes (swapBytes w) = w := by
  have hs : (swapBytes w).toNat = w.toNat / 0x1000000 + w.toNat / 0x10000 % 0x100 * 0x100 +
      w.toNat / 0x100 % 0x100 * 0x10000 + w.toNat % 0x100 * 0x1000000 := by
    rw [toNat_swapBytes]; omega
  have hw := w.toNat_lt
  obtain ⟨h0, h1, h2, h3⟩ := bytes_of_sum (by omega) (by omega) (by omega) hs
  apply UInt32.toNat_inj.1
  rw [toNat_swapBytes, h0, h1, h2, h3]
  exact sum_bytes w.toNat

/-- A value as the data word that spells it. -/
def pack (value : Word) : Word := swapBytes value

/-- The value that a data word spells. -/
def unpack (spelling : Word) : Word := swapBytes spelling

@[simp] theorem unpack_pack (w : Word) : unpack (pack w) = w := swapBytes_swapBytes w

@[simp] theorem pack_unpack (w : Word) : pack (unpack w) = w := swapBytes_swapBytes w

theorem pack_inj {v w : Word} (h : pack v = pack w) : v = w := by
  rw [← unpack_pack v, h, unpack_pack]

/-- The word address at or below a byte address. -/
def aligned (address : Word) : Word := address / 4 * 4

theorem toNat_aligned (a : Word) : (aligned a).toNat = a.toNat / 4 * 4 := by
  have := a.toNat_lt
  simp only [aligned, UInt32.toNat_mul, UInt32.toNat_div, UInt32.reduceToNat]
  omega

/-- An address moved by a signed displacement, modulo 2^32. -/
def displaced (base : Word) (d : Int16) : Word := base + UInt32.ofInt d.toInt

/-- The signed number in the low twelve bits of a field. -/
def displacement (field : Word) : Int16 :=
  let n : Int := (field.toNat % 0x1000 : Nat)
  if n < 0x800 then Int16.ofInt n else Int16.ofInt (n - 0x1000)

end Word

end Toolchain32
