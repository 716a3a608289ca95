import Mathlib.Data.BitVec
import Mathlib.Data.Set.BooleanAlgebra
import Mathlib.Order.CompletePartialOrder
import Mathlib.Tactic.IntervalCases

/-!
# Words, slices of words and memory

Instructions are words of 32 bits, memory is a map from addresses to bytes and words are stored with
the low byte first. `Holds m a ws` says that the words `ws` lie in memory from the address `a` on;
`store` writes bytes, and a store is read back where it wrote (`holds_store`) and leaves the rest
alone (`store_outside`).
-/

namespace Arm64

abbrev Word := BitVec 32
abbrev Addr := BitVec 64
abbrev Mem := Addr → BitVec 8

/-! ## Slices -/

section slices
variable {w n k : Nat} {st c b : Nat}

/-- The mask of the low `b` bits. -/
theorem getLsbD_mask (hb : b ≤ w) (i : Nat) :
    ((1#w <<< b) - 1#w).getLsbD i = decide (i < b) := by
  rcases Nat.eq_zero_or_pos w with rfl | hw
  · have : b = 0 := by omega
    subst this
    simp
  have hone : (1#w).toNat = 1 := by
    rw [BitVec.toNat_ofNat, Nat.mod_eq_of_lt (Nat.one_lt_two_pow (by omega))]
  have hval : ((1#w <<< b) - 1#w).toNat = 2 ^ b - 1 := by
    rw [BitVec.toNat_sub, BitVec.toNat_shiftLeft, hone, Nat.one_shiftLeft]
    have hpos : 0 < 2 ^ b := Nat.two_pow_pos b
    rcases Nat.lt_or_ge b w with hlt | hge
    · have hpow : 2 ^ b < 2 ^ w := Nat.pow_lt_pow_right (by omega) hlt
      rw [Nat.mod_eq_of_lt hpow,
        show 2 ^ w - 1 + 2 ^ b = 2 ^ b - 1 + 2 ^ w by omega, Nat.add_mod_right,
        Nat.mod_eq_of_lt (by omega)]
    · have : b = w := by omega
      subst this
      rw [Nat.mod_self, Nat.add_zero, Nat.mod_eq_of_lt (by omega)]
  rw [BitVec.getLsbD, hval, Nat.testBit_two_pow_sub_one]

/-- A field is read where it was put. -/
theorem slice_put (a : BitVec w) (hb : b ≤ w) (hc : c + b ≤ w) :
    ((a &&& ((1#w <<< b) - 1#w)) <<< c).extractLsb' c b = a.extractLsb' 0 b := by
  ext i hi
  simp only [BitVec.getElem_extractLsb', BitVec.getLsbD_shiftLeft, BitVec.getLsbD_and,
    getLsbD_mask hb, Nat.add_sub_cancel_left, Nat.zero_add]
  simp [show c + i < w by omega, show ¬ c + i < c by omega, hi]

/-- A field is not seen beside where it was put. -/
theorem slice_put_of_disjoint (a : BitVec w) (hb : b ≤ w) (h : st + n ≤ c ∨ c + b ≤ st) :
    ((a &&& ((1#w <<< b) - 1#w)) <<< c).extractLsb' st n = 0#n := by
  ext i hi
  simp only [BitVec.getElem_extractLsb', BitVec.getLsbD_shiftLeft, BitVec.getLsbD_and,
    getLsbD_mask hb]
  rcases h with h | h
  · simp [show st + i < c by omega]
  · simp [show ¬ st + i - c < b by omega]

/-- A small value is read where it was put. -/
theorem slice_setWidth (a : BitVec k) (hc : c + k ≤ w) :
    (a.setWidth w <<< c).extractLsb' c k = a := by
  ext i hi
  simp only [BitVec.getElem_extractLsb', BitVec.getLsbD_shiftLeft, BitVec.getLsbD_setWidth,
    Nat.add_sub_cancel_left]
  simp [show c + i < w by omega, show ¬ c + i < c by omega, show i < w by omega,
    BitVec.getLsbD_eq_getElem hi]

/-- A small value is not seen beside where it was put. -/
theorem slice_setWidth_of_disjoint (a : BitVec k) (h : st + n ≤ c ∨ c + k ≤ st) :
    (a.setWidth w <<< c).extractLsb' st n = 0#n := by
  ext i hi
  simp only [BitVec.getElem_extractLsb', BitVec.getLsbD_shiftLeft, BitVec.getLsbD_setWidth]
  rcases h with h | h
  · simp [show st + i < c by omega]
  · simp [BitVec.getLsbD_of_ge a _ (show k ≤ st + i - c by omega)]

/-- A value is put together from what a mask takes away and what it leaves. -/
theorem and_not_add_and (a m : BitVec w) : (a &&& ~~~ m) + (a &&& m) = a := by
  have hdisjoint : (a &&& ~~~ m) &&& (a &&& m) = 0#w := by
    ext i hi
    simp only [BitVec.getElem_and, BitVec.getElem_not, BitVec.getElem_zero]
    cases m[i] <;> simp
  rw [BitVec.add_eq_or_of_and_eq_zero _ _ hdisjoint, ← BitVec.and_or_distrib_left,
    BitVec.or_comm, BitVec.or_not_self, BitVec.and_allOnes]

theorem toNat_and_low (a : BitVec w) (hk : k ≤ w) :
    (a &&& BitVec.ofNat w (2 ^ k - 1)).toNat = a.toNat % 2 ^ k := by
  have hpow : 2 ^ k ≤ 2 ^ w := Nat.pow_le_pow_right (by decide) hk
  have hpos := Nat.two_pow_pos k
  rw [BitVec.toNat_and, BitVec.toNat_ofNat, Nat.mod_eq_of_lt (by omega)]
  exact Nat.and_two_pow_sub_one_eq_mod a.toNat k

theorem toNat_and_high (a : BitVec w) (hk : k ≤ w) :
    (a &&& ~~~ BitVec.ofNat w (2 ^ k - 1)).toNat = a.toNat - a.toNat % 2 ^ k := by
  have hsum := congrArg BitVec.toNat (and_not_add_and a (BitVec.ofNat w (2 ^ k - 1)))
  have hle : (a &&& ~~~ BitVec.ofNat w (2 ^ k - 1)).toNat ≤ a.toNat := by
    rw [BitVec.toNat_and]
    exact Nat.and_le_left
  have hmod := Nat.mod_le a.toNat (2 ^ k)
  rw [BitVec.toNat_add, toNat_and_low a hk] at hsum
  have := a.isLt
  rcases Nat.lt_or_ge ((a &&& ~~~ BitVec.ofNat w (2 ^ k - 1)).toNat + a.toNat % 2 ^ k) (2 ^ w) with
    hlt | hge
  · rw [Nat.mod_eq_of_lt hlt] at hsum
    omega
  · rw [Nat.mod_eq_sub_mod hge, Nat.mod_eq_of_lt (by omega)] at hsum
    omega

end slices

/-! ## Reading -/

def read32 (m : Mem) (a : Addr) : Word := m (a + 3) ++ m (a + 2) ++ m (a + 1) ++ m a

def read64 (m : Mem) (a : Addr) : BitVec 64 := read32 m (a + 4) ++ read32 m a

/-- The bytes of a word, the low byte first. -/
def bytesOf (w : Word) : List (BitVec 8) :=
  [w.extractLsb' 0 8, w.extractLsb' 8 8, w.extractLsb' 16 8, w.extractLsb' 24 8]

/-- The low and the high word of a doubleword. -/
def wordsOf (d : BitVec 64) : List Word := [d.extractLsb' 0 32, d.extractLsb' 32 32]

/-- The bytes of a word are put together again. -/
theorem append_bytes (w : Word) :
    w.extractLsb' 24 8 ++ w.extractLsb' 16 8 ++ w.extractLsb' 8 8 ++ w.extractLsb' 0 8 = w := by
  rw [BitVec.extractLsb'_append_extractLsb'_eq_extractLsb' (show 24 = 16 + 8 from rfl),
    BitVec.extractLsb'_append_extractLsb'_eq_extractLsb' (show 16 = 8 + 8 from rfl),
    BitVec.extractLsb'_append_extractLsb'_eq_extractLsb' (show 8 = 0 + 8 from rfl)]
  exact BitVec.extractLsb'_eq_self

/-- So are the words of a doubleword. -/
theorem append_words (d : BitVec 64) : d.extractLsb' 32 32 ++ d.extractLsb' 0 32 = d := by
  rw [BitVec.extractLsb'_append_extractLsb'_eq_extractLsb' (show 32 = 0 + 32 from rfl)]
  exact BitVec.extractLsb'_eq_self

/-- The `n` addresses from `a` on. -/
def region (a : Addr) (n : Nat) : Set Addr := {x | (x - a).toNat < n}

theorem mem_region {a x : Addr} {n : Nat} : x ∈ region a n ↔ (x - a).toNat < n := Iff.rfl

theorem add_mem_region {a : Addr} {n i : Nat} (hi : i < n) (hn : n ≤ 2 ^ 64) :
    a + BitVec.ofNat 64 i ∈ region a n := by
  rw [mem_region, BitVec.add_comm, BitVec.add_sub_cancel, BitVec.toNat_ofNat,
    Nat.mod_eq_of_lt (by omega)]
  exact hi

theorem region_mono {a : Addr} {n k : Nat} (h : n ≤ k) : region a n ⊆ region a k :=
  fun _ hx => Nat.lt_of_lt_of_le hx h

/-- A region inside another. -/
theorem region_subset {a : Addr} {n i k : Nat} (h : i + n ≤ k) :
    region (a + BitVec.ofNat 64 i) n ⊆ region a k := by
  intro x hx
  rw [mem_region] at hx ⊢
  have hsplit : x - a = (x - (a + BitVec.ofNat 64 i)) + BitVec.ofNat 64 i := by bv_omega
  rw [hsplit, BitVec.toNat_add, BitVec.toNat_ofNat]
  refine Nat.lt_of_le_of_lt (Nat.mod_le _ _) ?_
  refine Nat.lt_of_lt_of_le (Nat.add_lt_add_of_lt_of_le hx (Nat.mod_le _ _)) ?_
  omega

/-- A region that does not run over the end of the address space. -/
theorem mem_region_iff {a x : Addr} {n : Nat} (h : a.toNat + n ≤ 2 ^ 64) :
    x ∈ region a n ↔ a.toNat ≤ x.toNat ∧ x.toNat < a.toNat + n := by
  have := x.isLt
  rw [mem_region, BitVec.toNat_sub]
  omega

theorem disjoint_region {a b : Addr} {n k : Nat} (h : a.toNat + n ≤ b.toNat)
    (hb : b.toNat + k ≤ 2 ^ 64) : Disjoint (region a n) (region b k) := by
  rw [Set.disjoint_left]
  intro x hx hy
  rw [mem_region_iff (by omega)] at hx
  rw [mem_region_iff hb] at hy
  omega

theorem read32_congr {m m' : Mem} {a : Addr} (h : ∀ x ∈ region a 4, m' x = m x) :
    read32 m' a = read32 m a := by
  have hbyte : ∀ i < 4, m' (a + BitVec.ofNat 64 i) = m (a + BitVec.ofNat 64 i) :=
    fun i hi => h _ (add_mem_region hi (by decide))
  have hzero := hbyte 0 (by decide)
  rw [BitVec.add_zero] at hzero
  unfold read32
  rw [hzero, show m' (a + 1) = m (a + 1) from hbyte 1 (by decide),
    show m' (a + 2) = m (a + 2) from hbyte 2 (by decide),
    show m' (a + 3) = m (a + 3) from hbyte 3 (by decide)]

theorem read64_congr {m m' : Mem} {a : Addr} (h : ∀ x ∈ region a 8, m' x = m x) :
    read64 m' a = read64 m a := by
  have hlow : read32 m' a = read32 m a :=
    read32_congr fun x hx => h x (region_mono (by decide) hx)
  have hhigh : read32 m' (a + 4) = read32 m (a + 4) :=
    read32_congr fun x hx => h x (region_subset (i := 4) (by decide) hx)
  unfold read64
  rw [hlow, hhigh]

/-! ## Words in memory -/

/-- The address of the `i`-th word from `a` on. -/
def wordAddr (a : Addr) (i : Nat) : Addr := a + BitVec.ofNat 64 (4 * i)

@[simp] theorem wordAddr_zero (a : Addr) : wordAddr a 0 = a := BitVec.add_zero a

theorem wordAddr_add (a : Addr) (i j : Nat) : wordAddr (wordAddr a i) j = wordAddr a (i + j) := by
  unfold wordAddr
  rw [BitVec.add_assoc, ← BitVec.ofNat_add, Nat.mul_add]

@[simp] theorem wordAddr_add_four (a : Addr) (i : Nat) : wordAddr a i + 4 = wordAddr a (i + 1) :=
  wordAddr_add a i 1

/-- The words `ws` lie in memory from `a` on. -/
def Holds (m : Mem) (a : Addr) (ws : List Word) : Prop :=
  ∀ (i : Nat) (w : Word), ws[i]? = some w → read32 m (wordAddr a i) = w

theorem Holds.congr {m m' : Mem} {a : Addr} {ws : List Word}
    (h : ∀ x ∈ region a (4 * ws.length), m' x = m x) (hholds : Holds m a ws) : Holds m' a ws := by
  intro i w hw
  have hi : i < ws.length := (List.getElem?_eq_some_iff.1 hw).1
  have hin : region (wordAddr a i) 4 ⊆ region a (4 * ws.length) := region_subset (by omega)
  rw [read32_congr fun x hx => h x (hin hx)]
  exact hholds i w hw

/-- The doubleword whose halves lie one after the other. -/
theorem Holds.read64 {m : Mem} {a : Addr} {ws : List Word} {i : Nat} {lo hi : Word}
    (h : Holds m a ws) (hlo : ws[i]? = some lo) (hhi : ws[i + 1]? = some hi) :
    read64 m (wordAddr a i) = hi ++ lo := by
  unfold Arm64.read64
  rw [wordAddr_add_four, h i lo hlo, h (i + 1) hi hhi]

/-! ## Storing -/

/-- The bytes `bs` stored from `a` on. -/
def store (m : Mem) (a : Addr) (bs : List (BitVec 8)) : Mem :=
  fun x => bs[(x - a).toNat]?.getD (m x)

/-- The `n` bytes from `a` on. -/
def load (m : Mem) (a : Addr) (n : Nat) : List (BitVec 8) :=
  (List.range n).map fun i => m (a + BitVec.ofNat 64 i)

theorem store_outside {m : Mem} {a x : Addr} {bs : List (BitVec 8)}
    (h : x ∉ region a bs.length) : store m a bs x = m x := by
  rw [mem_region, Nat.not_lt] at h
  unfold store
  rw [List.getElem?_eq_none h, Option.getD_none]

theorem store_apply {m : Mem} {a : Addr} {bs : List (BitVec 8)} {i : Nat} (hi : i < bs.length)
    (hlen : bs.length ≤ 2 ^ 64) : store m a bs (a + BitVec.ofNat 64 i) = bs[i] := by
  have hoff : (a + BitVec.ofNat 64 i - a).toNat = i := by
    rw [BitVec.add_comm, BitVec.add_sub_cancel, BitVec.toNat_ofNat, Nat.mod_eq_of_lt (by omega)]
  unfold store
  rw [hoff, List.getElem?_eq_getElem hi, Option.getD_some]

@[simp] theorem length_load (m : Mem) (a : Addr) (n : Nat) : (load m a n).length = n := by
  unfold load
  rw [List.length_map, List.length_range]

theorem getElem_load {m : Mem} {a : Addr} {n i : Nat} (hi : i < (load m a n).length) :
    (load m a n)[i] = m (a + BitVec.ofNat 64 i) := by
  simp only [load, List.getElem_map, List.getElem_range]

/-- Storing what was there before undoes a store of as many bytes. -/
theorem store_load {m : Mem} {a : Addr} {bs : List (BitVec 8)} (hlen : bs.length ≤ 2 ^ 64) :
    store (store m a bs) a (load m a bs.length) = m := by
  funext x
  have hload := length_load m a bs.length
  by_cases hx : x ∈ region a bs.length
  · have hsplit : x = a + BitVec.ofNat 64 (x - a).toNat := by
      rw [BitVec.ofNat_toNat, BitVec.setWidth_eq]
      bv_omega
    have hlt : (x - a).toNat < (load m a bs.length).length := by
      rw [hload]
      exact hx
    rw [hsplit, store_apply hlt (by omega), getElem_load]
  · rw [store_outside (by rwa [hload]), store_outside hx]

/-- Stores apart from each other may change places. -/
theorem store_comm (m : Mem) {a b : Addr} {bs cs : List (BitVec 8)}
    (h : Disjoint (region a bs.length) (region b cs.length)) :
    store (store m a bs) b cs = store (store m b cs) a bs := by
  funext x
  by_cases hx : x ∈ region b cs.length
  · have hout : x ∉ region a bs.length := Set.disjoint_right.1 h hx
    rw [store_outside hout]
    have hsplit : ∀ m' : Mem, store m' b cs x = cs.get ⟨(x - b).toNat, hx⟩ := by
      intro m'
      unfold store
      rw [List.getElem?_eq_getElem hx, Option.getD_some]
      rfl
    rw [hsplit, hsplit]
  · rw [store_outside hx]
    unfold store
    rw [List.getElem?_eq_none (Nat.le_of_not_lt hx), Option.getD_none]

theorem length_flatMap_bytesOf (ws : List Word) : (ws.flatMap bytesOf).length = 4 * ws.length := by
  induction ws with
  | nil => rfl
  | cons w ws ih =>
    rw [List.flatMap_cons, List.length_append, ih, List.length_cons]
    show 4 + 4 * ws.length = _
    omega

/-- Byte `4 i + k` of a list of words is byte `k` of word `i`. -/
theorem getElem?_flatMap_bytesOf {ws : List Word} {i k : Nat} {w : Word} (hw : ws[i]? = some w)
    (hk : k < 4) : (ws.flatMap bytesOf)[4 * i + k]? = (bytesOf w)[k]? := by
  induction ws generalizing i with
  | nil => cases hw
  | cons v ws ih =>
    rw [List.flatMap_cons]
    cases i with
    | zero =>
      obtain rfl : v = w := Option.some.inj hw
      rw [Nat.mul_zero, Nat.zero_add]
      exact List.getElem?_append_left hk
    | succ i =>
      have hskip : 4 * (i + 1) + k = (bytesOf v).length + (4 * i + k) := by
        show _ = 4 + _
        omega
      rw [hskip, List.getElem?_append_right (Nat.le_add_right _ _), Nat.add_sub_cancel_left]
      exact ih hw

/-- Stored words are held. -/
theorem holds_store (m : Mem) (a : Addr) {ws : List Word} (hlen : 4 * ws.length ≤ 2 ^ 64) :
    Holds (store m a (ws.flatMap bytesOf)) a ws := by
  intro i w hw
  have hi : i < ws.length := (List.getElem?_eq_some_iff.1 hw).1
  have hbyte : ∀ (k : Nat) (b : BitVec 8), k < 4 → (bytesOf w)[k]? = some b →
      store m a (ws.flatMap bytesOf) (a + BitVec.ofNat 64 (4 * i) + BitVec.ofNat 64 k) = b := by
    intro k b hk hb
    have hget := getElem?_flatMap_bytesOf hw hk
    rw [hb, List.getElem?_eq_some_iff] at hget
    obtain ⟨hlt, hget⟩ := hget
    rw [BitVec.add_assoc, ← BitVec.ofNat_add,
      store_apply hlt (by rw [length_flatMap_bytesOf]; exact hlen), hget]
  have hzero := hbyte 0 _ (by decide) rfl
  rw [BitVec.add_zero] at hzero
  unfold read32 wordAddr
  rw [hzero, show store m a _ (_ + 1) = _ from hbyte 1 _ (by decide) rfl,
    show store m a _ (_ + 2) = _ from hbyte 2 _ (by decide) rfl,
    show store m a _ (_ + 3) = _ from hbyte 3 _ (by decide) rfl]
  exact append_bytes w

/-- A store beside words leaves them. -/
theorem Holds.store {m : Mem} {a b : Addr} {ws : List Word} {bs : List (BitVec 8)}
    (hholds : Holds m a ws) (h : Disjoint (region a (4 * ws.length)) (region b bs.length)) :
    Holds (store m b bs) a ws :=
  hholds.congr fun _ hx => store_outside (Set.disjoint_left.1 h hx)

end Arm64
