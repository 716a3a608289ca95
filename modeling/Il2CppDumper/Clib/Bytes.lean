import Mathlib.Algebra.Group.Int.Defs
import Mathlib.Algebra.Group.Nat.Defs
import Mathlib.Tactic.Common

/-!
# Numbers as bytes in memory

Little-endian bytes, two's complement, and a slot of memory: a fixed number of zero bytes into which
something stores a few bytes from the start. `loadSlot_twosComplement` is all that is needed of a slot:
the number read back is the stored one modulo the width stored, however wide the slot is.
-/

namespace Clib

/-- The number that bytes in memory mean, lowest byte first. -/
def leValue (bytes : List UInt8) : Nat := bytes.foldr (fun byte rest => byte.toNat + 256 * rest) 0

/-- The lowest `w` bytes of a number, lowest first. -/
def leBytes : Nat → Nat → List UInt8
  | 0, _ => []
  | w + 1, n => UInt8.ofNat n :: leBytes w (n / 256)

/-- `w` bytes of two's complement. -/
def twosComplement (w : Nat) (v : Int) : List UInt8 := leBytes w (v % 256 ^ w).toNat

/-- The number in a slot of `k` zero bytes after a store at its start. -/
def loadSlot (k : Nat) (stored : List UInt8) : Nat := leValue ((stored ++ List.replicate k 0).take k)

@[simp] theorem leValue_nil : leValue [] = 0 := rfl

@[simp] theorem leValue_cons (byte : UInt8) (bytes : List UInt8) :
    leValue (byte :: bytes) = byte.toNat + 256 * leValue bytes := rfl

@[simp] theorem length_leBytes (w n : Nat) : (leBytes w n).length = w := by
  induction w generalizing n with
  | zero => rfl
  | succ w ih => rw [leBytes, List.length_cons, ih]

theorem leValue_leBytes (w n : Nat) : leValue (leBytes w n) = n % 256 ^ w := by
  induction w generalizing n with
  | zero => simp [leBytes, Nat.mod_one]
  | succ w ih =>
    have hbyte : (UInt8.ofNat n).toNat = n % 256 := UInt8.toNat_ofNat'
    rw [leBytes, leValue_cons, ih, hbyte, Nat.pow_succ', Nat.mod_mul]

theorem leValue_append_zeros (bytes : List UInt8) (k : Nat) :
    leValue (bytes ++ List.replicate k 0) = leValue bytes := by
  induction bytes with
  | nil =>
    induction k with
    | zero => rfl
    | succ k ih =>
      rw [List.nil_append] at ih ⊢
      rw [List.replicate_succ, leValue_cons, ih]
      rfl
  | cons byte bytes ih => rw [List.cons_append, leValue_cons, leValue_cons, ih]

theorem leValue_lt (bytes : List UInt8) : leValue bytes < 256 ^ bytes.length := by
  induction bytes with
  | nil => simp
  | cons byte bytes ih =>
    have hbyte : byte.toNat < 256 := byte.toNat_lt
    rw [leValue_cons, List.length_cons, Nat.pow_succ]
    omega

theorem loadSlot_lt (k : Nat) (stored : List UInt8) : loadSlot k stored < 256 ^ k := by
  have hlength : ((stored ++ List.replicate k 0).take k).length = k := by simp
  have hlt := leValue_lt ((stored ++ List.replicate k 0).take k)
  rwa [hlength] at hlt

/-- What fits in the slot is read back as it was stored. -/
theorem loadSlot_of_le {k : Nat} {stored : List UInt8} (h : stored.length ≤ k) :
    loadSlot k stored = leValue stored := by
  rw [loadSlot, List.take_append, List.take_of_length_le h, List.take_replicate,
    leValue_append_zeros]

theorem loadSlot_twosComplement {w k : Nat} (h : w ≤ k) (v : Int) :
    (loadSlot k (twosComplement w v) : Int) = v % 256 ^ w := by
  have hpos : (0 : Int) < 256 ^ w := Int.pow_pos (by decide)
  have hnonneg : 0 ≤ v % 256 ^ w := Int.emod_nonneg v (Int.ne_of_gt hpos)
  have hlt : (v % 256 ^ w).toNat < 256 ^ w := by
    rw [Int.toNat_lt hnonneg, Int.natCast_pow]
    exact Int.emod_lt_of_pos v hpos
  rw [loadSlot_of_le (by simpa [twosComplement] using h), twosComplement, leValue_leBytes,
    Nat.mod_eq_of_lt hlt, Int.toNat_of_nonneg hnonneg]

/-- A number within the width is its own residue exactly when it is not negative. -/
theorem emod_eq_self_iff {w : Nat} {v : Int} (h : v < 256 ^ w) : v % 256 ^ w = v ↔ 0 ≤ v := by
  have hpos : (0 : Int) < 256 ^ w := Int.pow_pos (by decide)
  constructor
  · intro heq
    rw [← heq]
    exact Int.emod_nonneg v (Int.ne_of_gt hpos)
  · exact fun hv => Int.emod_eq_of_lt hv h

end Clib
