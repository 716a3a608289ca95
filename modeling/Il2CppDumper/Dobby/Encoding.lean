import Il2CppDumper.Arm64.Machine
import Il2CppDumper.Model.Relocation

/-!
# What the emitted words mean

The decoders of the relocation read the operands of the architecture, its class tests are those of
the top byte, and each word that the assembler emits decodes to the instruction it is named after.
-/

namespace Il2CppDumper.Dobby

open Arm64

/-! ### Fields -/

section fields
variable {w n k : Nat} {st c b : Nat}

theorem slice_leftShift (a : BitVec w) (hb : b ≤ w) (hc : c + b ≤ w) :
    (leftShift a b c).extractLsb' c b = a.extractLsb' 0 b := slice_put a hb hc

theorem slice_leftShift_of_disjoint (a : BitVec w) (hb : b ≤ w) (h : st + n ≤ c ∨ c + b ≤ st) :
    (leftShift a b c).extractLsb' st n = 0#n := slice_put_of_disjoint a hb h

theorem bits_eq_slice (obj : BitVec w) {st fn : Nat} (h : st ≤ fn) (hfn : fn < w) :
    bits obj st fn = (obj.extractLsb' st (fn - st + 1)).setWidth w := by
  unfold bits submask
  apply BitVec.eq_of_getLsbD_eq
  intro i hi
  simp only [BitVec.getLsbD_and, BitVec.getLsbD_ushiftRight,
    getLsbD_mask (show fn - st + 1 ≤ w by omega), BitVec.getLsbD_setWidth,
    BitVec.getLsbD_extractLsb', hi, decide_true, Bool.true_and]
  rw [Bool.and_comm]

/-- A field of a wider value. -/
theorem setWidth_leftShift {v : Nat} (a : BitVec w) (hb : b ≤ w) (hc : c + b ≤ v)
    (hv : v ≤ w) :
    (leftShift a b c).setWidth v = (a.extractLsb' 0 b).setWidth v <<< c := by
  unfold leftShift
  apply BitVec.eq_of_getLsbD_eq
  intro i hi
  simp only [BitVec.getLsbD_setWidth, BitVec.getLsbD_shiftLeft, BitVec.getLsbD_and,
    getLsbD_mask hb, BitVec.getLsbD_extractLsb', Nat.zero_add]
  by_cases hlow : i < c
  · simp [hlow]
  · by_cases hhigh : i - c < b
    · simp [hlow, hhigh, hi, show i < w by omega, show i - c < v by omega]
    · simp [hhigh]

theorem slice_sshiftRight (a : BitVec w) (h : k + st + n ≤ w) :
    (a.sshiftRight k).extractLsb' st n = a.extractLsb' (k + st) n := by
  apply BitVec.eq_of_getLsbD_eq
  intro i hi
  simp only [BitVec.getLsbD_extractLsb', BitVec.getLsbD_sshiftRight]
  simp [show ¬ w ≤ st + i by omega, show k + (st + i) < w by omega, Nat.add_assoc]

/-- `SignExtend` of a value of `m` bits. -/
theorem signExtend_eq {m : Nat} (y : BitVec m) (hpos : 0 < m) (hm : m ≤ 64) :
    signExtend (y.setWidth 64) m 64 = y.signExtend 64 := by
  unfold signExtend
  apply BitVec.eq_of_getLsbD_eq
  intro i hi
  have hmsb : (y.setWidth 64 <<< (64 - m)).msb = y.msb := by
    rw [BitVec.msb_eq_getLsbD_last, BitVec.msb_eq_getLsbD_last, BitVec.getLsbD_shiftLeft,
      BitVec.getLsbD_setWidth]
    simp [show ¬ 63 < 64 - m by omega, show 63 - (64 - m) = m - 1 by omega,
      show m - 1 < 64 by omega]
  rw [BitVec.getLsbD_sshiftRight, BitVec.getLsbD_signExtend, hmsb, BitVec.getLsbD_shiftLeft,
    BitVec.getLsbD_setWidth]
  by_cases hlow : i < m
  · simp [hlow, hi, show 64 - m + i < 64 by omega, show 64 - m + i - (64 - m) = i by omega]
  · simp [hlow, hi, show ¬ 64 - m + i < 64 by omega]

/-- A number of words, in bytes. -/
theorem setWidth_shiftLeft_two (x : BitVec n) :
    x.setWidth 64 <<< 2 = (x ++ 0#2).setWidth 64 := by
  apply BitVec.eq_of_getLsbD_eq
  intro i hi
  rw [BitVec.getLsbD_shiftLeft, BitVec.getLsbD_setWidth, BitVec.getLsbD_setWidth,
    BitVec.getLsbD_append]
  by_cases hlow : i < 2
  · simp [hlow]
  · simp [hlow, hi, show i - 2 < 64 by omega]

theorem signExtend_words (x : BitVec n) (hn : n + 2 ≤ 64) :
    signExtend (x.setWidth 64 <<< 2) (2 + n) 64 = wordOffset x := by
  rw [setWidth_shiftLeft_two x, Nat.add_comm 2 n, signExtend_eq _ (by omega) hn]
  rfl

end fields

/-! ### Operands -/

theorem decodeImm14Offset_eq (w : Word) : decodeImm14Offset w = wordOffset (imm14 w) := by
  unfold decodeImm14Offset
  rw [bits_eq_slice w (by decide) (by decide), BitVec.setWidth_setWidth (by decide)]
  exact signExtend_words (imm14 w) (by decide)

theorem decodeImm19Offset_eq (w : Word) : decodeImm19Offset w = wordOffset (imm19 w) := by
  unfold decodeImm19Offset
  rw [bits_eq_slice w (by decide) (by decide), BitVec.setWidth_setWidth (by decide)]
  exact signExtend_words (imm19 w) (by decide)

theorem decodeImm26Offset_eq (w : Word) : decodeImm26Offset w = wordOffset (imm26 w) := by
  unfold decodeImm26Offset
  rw [bits_eq_slice w (by decide) (by decide), BitVec.setWidth_setWidth (by decide)]
  exact signExtend_words (imm26 w) (by decide)

theorem decodeImmhiImmloOffset_eq (w : Word) :
    decodeImmhiImmloOffset w = (imm21 w).signExtend 64 := by
  have hsum : (w.extractLsb' 29 2).setWidth 64 + (w.extractLsb' 5 19).setWidth 64 <<< 2 =
      (imm21 w).setWidth 64 := by
    have hlo : (w.extractLsb' 29 2).toNat < 2 ^ 2 := BitVec.isLt _
    have hhi : (w.extractLsb' 5 19).toNat < 2 ^ 19 := BitVec.isLt _
    apply BitVec.eq_of_toNat_eq
    unfold imm21
    rw [BitVec.toNat_add, BitVec.toNat_shiftLeft, BitVec.toNat_setWidth, BitVec.toNat_setWidth,
      BitVec.toNat_setWidth, BitVec.toNat_append, ← Nat.shiftLeft_add_eq_or_of_lt hlo,
      Nat.shiftLeft_eq, Nat.shiftLeft_eq]
    omega
  unfold decodeImmhiImmloOffset
  rw [hsum]
  exact signExtend_eq (imm21 w) (by decide) (by decide)

theorem decodeRt_eq (w : Word) : decodeRt w = rd w := by
  unfold decodeRt
  rw [bits_eq_slice w (by decide) (by decide), BitVec.setWidth_setWidth_of_le _ (by decide)]
  exact BitVec.setWidth_eq _

theorem decodeRd_eq (w : Word) : decodeRd w = rd w := decodeRt_eq w

/-! ### Classes -/

/-- A mask of the top byte tests the top byte. -/
theorem mask_top (w : Word) (m v : BitVec 8) :
    w &&& (m.setWidth 32 <<< 24) = v.setWidth 32 <<< 24 ↔ top w &&& m = v := by
  have hslice : ∀ t : BitVec 8, (t.setWidth 32 <<< 24).extractLsb' 24 8 = t :=
    fun t => slice_setWidth t (by decide)
  constructor
  · intro h
    have htop := congrArg (fun u : Word => u.extractLsb' 24 8) h
    simp only [BitVec.extractLsb'_and, hslice] at htop
    exact htop
  · intro h
    apply BitVec.eq_of_getLsbD_eq
    intro i hi
    have hbit := congrArg (fun u : BitVec 8 => u.getLsbD (i - 24)) h
    simp only [top, BitVec.getLsbD_and, BitVec.getLsbD_extractLsb'] at hbit
    simp only [BitVec.getLsbD_and, BitVec.getLsbD_shiftLeft, BitVec.getLsbD_setWidth]
    by_cases hlow : i < 24
    · simp [hlow]
    · simp only [show i - 24 < 8 by omega, show 24 + (i - 24) = i by omega, decide_true,
        Bool.true_and] at hbit
      rw [decide_eq_false hlow, decide_eq_true hi, decide_eq_true (show i - 24 < 32 by omega)]
      simpa only [Bool.not_false, Bool.true_and] using hbit

theorem isLdrLiteral_iff (w : Word) :
    w &&& LoadRegLiteralFixedMask = LoadRegLiteralFixed ↔ top w &&& 0x3B = 0x18 :=
  mask_top w 0x3B 0x18

theorem isPCRel_iff (w : Word) :
    w &&& PCRelAddressingFixedMask = PCRelAddressingFixed ↔ top w &&& 0x1F = 0x10 :=
  mask_top w 0x1F 0x10

theorem isADR_iff (w : Word) : w &&& PCRelAddressingMask = ADR ↔ top w &&& 0x9F = 0x10 :=
  mask_top w 0x9F 0x10

theorem isBranch_iff (w : Word) :
    w &&& UnconditionalBranchFixedMask = UnconditionalBranchFixed ↔ top w &&& 0x7C = 0x14 :=
  mask_top w 0x7C 0x14

theorem isBL_iff (w : Word) : w &&& UnconditionalBranchMask = BL ↔ top w &&& 0xFC = 0x94 :=
  mask_top w 0xFC 0x94

theorem isTestBranch_iff (w : Word) :
    w &&& TestBranchFixedMask = TestBranchFixed ↔ top w &&& 0x7E = 0x36 :=
  mask_top w 0x7E 0x36

theorem isCompareBranch_iff (w : Word) :
    w &&& CompareBranchFixedMask = CompareBranchFixed ↔ top w &&& 0x7E = 0x34 :=
  mask_top w 0x7E 0x34

theorem isConditionalBranch_iff (w : Word) :
    w &&& ConditionalBranchFixedMask = ConditionalBranchFixed ↔ top w &&& 0xFE = 0x54 :=
  mask_top w 0xFE 0x54

/-! ### Emitted words -/

/-- The slices of a branch to a register. -/
theorem slices_register (K : Word) (r : CPURegister) :
    opcode (K ||| Rn r) = opcode K ∧ (K ||| Rn r).extractLsb' 10 12 = K.extractLsb' 10 12 ∧
      rd (K ||| Rn r) = rd K ∧ rn (K ||| Rn r) = rn K ||| r.regCode := by
  unfold opcode rd rn Rn
  simp (disch := omega) only [BitVec.extractLsb'_or, slice_setWidth, slice_setWidth_of_disjoint,
    BitVec.or_zero, and_self]

def brWord (r : CPURegister) : Word := BR ||| Rn r

def blrWord (r : CPURegister) : Word := BLR ||| Rn r

theorem decode_brWord (r : CPURegister) : decode (brWord r) = .br r.regCode := by
  unfold brWord
  obtain ⟨hop, hmid, hrd, hrn⟩ := slices_register BR r
  rw [decode_br (hop.trans (by decide)) (hmid.trans (by decide)) (hrd.trans (by decide)), hrn,
    show rn BR = 0#5 by decide, BitVec.zero_or]

theorem decode_blrWord (r : CPURegister) : decode (blrWord r) = .blr r.regCode := by
  unfold blrWord
  obtain ⟨hop, hmid, hrd, hrn⟩ := slices_register BLR r
  rw [decode_blr (hop.trans (by decide)) (hmid.trans (by decide)) (hrd.trans (by decide)), hrn,
    show rn BLR = 0#5 by decide, BitVec.zero_or]

/-- The word of `MoveWide` for an operation with its size and shift. -/
def wideWord (K : Word) (imm : BitVec 64) (r : Reg) : Word :=
  K ||| (leftShift imm 16 5).setWidth 32 ||| Rd (X r)

theorem slices_wideWord (K : Word) (imm : BitVec 64) (r : Reg) :
    opcode (wideWord K imm r) = opcode K ∧
      (wideWord K imm r).extractLsb' 21 2 = K.extractLsb' 21 2 ∧
      (wideWord K imm r).extractLsb' 5 16 = K.extractLsb' 5 16 ||| imm.extractLsb' 0 16 ∧
      rd (wideWord K imm r) = rd K ||| r := by
  unfold wideWord opcode rd Rd
  simp (disch := omega) only [BitVec.extractLsb'_or, BitVec.extractLsb'_setWidth_of_le,
    slice_leftShift, slice_leftShift_of_disjoint, slice_setWidth, slice_setWidth_of_disjoint,
    BitVec.or_zero, true_and]
  rfl

/-- `movz` and `movk` of 64-bit registers, with their shifts. -/
def movzX : Word := MoveWideImmediateFixed ||| MOVZ ||| leftShift 1 1 31 ||| leftShift 0 2 21

def movkX (hw : BitVec 2) : Word :=
  MoveWideImmediateFixed ||| MOVK ||| leftShift 1 1 31 ||| leftShift (hw.setWidth 32) 2 21

theorem decode_movzX (imm : BitVec 64) (r : Reg) :
    decode (wideWord movzX imm r) = .movz r 0 (imm.extractLsb' 0 16) := by
  obtain ⟨hop, hhw, himm, hrd⟩ := slices_wideWord movzX imm r
  rw [decode_movz (by rw [hop]; decide), hhw, himm, hrd, show rd movzX = 0#5 by decide,
    show movzX.extractLsb' 5 16 = 0#16 by decide, show movzX.extractLsb' 21 2 = 0#2 by decide,
    BitVec.zero_or, BitVec.zero_or]
  rfl

theorem decode_movkX (hw : BitVec 2) (imm : BitVec 64) (r : Reg) :
    decode (wideWord (movkX hw) imm r) = .movk r hw (imm.extractLsb' 0 16) := by
  obtain ⟨hop, hhw, himm, hrd⟩ := slices_wideWord (movkX hw) imm r
  have hK : ∀ hw : BitVec 2, opcode (movkX hw) &&& 0x3FE = 0x3CA ∧
      (movkX hw).extractLsb' 21 2 = hw ∧ (movkX hw).extractLsb' 5 16 = 0#16 ∧
      rd (movkX hw) = 0#5 := by decide
  obtain ⟨hK, hKhw, hKimm, hKrd⟩ := hK hw
  rw [decode_movk (by rw [hop]; exact hK), hhw, himm, hrd, hKhw, hKimm, hKrd, BitVec.zero_or,
    BitVec.zero_or]

/-- The words of `Mov`. -/
def movWords (r : Reg) (imm : BitVec 64) : List Word :=
  [wideWord movzX ((imm.extractLsb' 0 16).setWidth 64) r,
    wideWord (movkX 1) ((imm.extractLsb' 16 16).setWidth 64) r,
    wideWord (movkX 2) ((imm.extractLsb' 32 16).setWidth 64) r,
    wideWord (movkX 3) ((imm.extractLsb' 48 16).setWidth 64) r]

theorem mov_buffer (b : CodeBuffer) (r : Reg) (imm : BitVec 64) :
    (b.mov (X r) imm).buffer = b.buffer ++ movWords r imm := by
  unfold CodeBuffer.mov CodeBuffer.movz CodeBuffer.movk CodeBuffer.moveWide CodeBuffer.emitInst
  simp only [List.append_assoc]
  rfl

/-- The word of `ldr` from the address in `x17`. -/
def ldrWord (rt : CPURegister) : Word := LoadStoreUnsignedOffsetFixed ||| LDR_x ||| Rn TMP_REG_0 ||| Rt rt

theorem ldr_buffer (b : CodeBuffer) (rt : CPURegister) :
    (b.ldr rt TMP_REG_0 0).buffer = b.buffer ++ [ldrWord rt] := by
  unfold CodeBuffer.ldr CodeBuffer.loadStore CodeBuffer.emitInst
  rfl

theorem decode_ldrWord (rt : CPURegister) : decode (ldrWord rt) = .ldr rt.regCode 17 0 := by
  have hslices : opcode (ldrWord rt) = 0x3E5 ∧ rn (ldrWord rt) = 17 ∧
      rd (ldrWord rt) = rt.regCode ∧ (ldrWord rt).extractLsb' 10 12 = 0 := by
    unfold ldrWord opcode rd rn Rt
    simp (disch := omega) only [BitVec.extractLsb'_or, slice_setWidth, slice_setWidth_of_disjoint,
      BitVec.or_zero]
    refine ⟨by decide, by decide, ?_, by decide⟩
    exact BitVec.zero_or
  obtain ⟨hop, hrn, hrd, himm⟩ := hslices
  rw [decode_ldr hop, hrd, hrn, himm]

/-- The word of `Ldr` of a label, before the label is bound. -/
def pendingWord : Word := LDR_x_literal ||| Rt TMP_REG_0

theorem ldrLiteral_buffer (b : CodeBuffer) :
    (b.ldrLiteral TMP_REG_0 0).buffer = b.buffer ++ [pendingWord] := rfl

/-- The word of `Ldr` of a label `words` words further on. -/
def literalWord (words : BitVec 19) : Word := pendingWord ||| words.setWidth 32 <<< 5

theorem slices_literalWord (words : BitVec 19) :
    top (literalWord words) = 0x58 ∧ rd (literalWord words) = 17 ∧
      imm19 (literalWord words) = words := by
  unfold literalWord top rd imm19
  simp (disch := omega) only [BitVec.extractLsb'_or, slice_setWidth, slice_setWidth_of_disjoint,
    BitVec.or_zero]
  refine ⟨by decide, by decide, ?_⟩
  exact BitVec.zero_or

theorem decode_literalWord (words : BitVec 19) :
    decode (literalWord words) = .ldrLit .x 17 words := by
  obtain ⟨htop, hrd, himm⟩ := slices_literalWord words
  unfold decode
  rw [htop, hrd, himm]
  rfl

/-- The word of `adrp` for a distance. -/
def adrpWord (rd : Reg) (imm : BitVec 64) : Word :=
  ADRP ||| Rd (X rd) ||| (imm.extractLsb' 12 2).setWidth 32 <<< 29 |||
    (imm.extractLsb' 14 19).setWidth 32 <<< 5

def addWord (rd : Reg) (imm : BitVec 64) : Word :=
  ADD_x_imm ||| Rd (X rd) ||| Rn (X rd) ||| (imm.extractLsb' 0 12).setWidth 32 <<< 10

/-- Some bits of a distance, behind its last twelve. -/
theorem bits_distance (imm : BitVec 64) {st fn : Nat} (h : st ≤ fn) (hfn : fn < 52) :
    (bits (imm.sshiftRight 12) st fn).extractLsb' 0 (fn - st + 1) =
      imm.extractLsb' (12 + st) (fn - st + 1) := by
  rw [bits_eq_slice _ h (by omega), BitVec.extractLsb'_setWidth_of_le (by omega),
    slice_sshiftRight _ (by omega)]
  exact BitVec.extractLsb'_eq_self

theorem adrp_buffer (b : CodeBuffer) (r : Reg) (imm : BitVec 64) :
    (b.adrp (X r) imm).buffer = b.buffer ++ [adrpWord r imm] := by
  have hlo := bits_distance imm (show 0 ≤ 1 by decide) (by decide)
  have hhi := bits_distance imm (show 2 ≤ 20 by decide) (by decide)
  unfold CodeBuffer.adrp CodeBuffer.emitInst adrpWord
  simp (disch := decide) only [setWidth_leftShift]
  rw [hlo, hhi]

theorem add_buffer (b : CodeBuffer) (r : Reg) (imm : BitVec 64) :
    (b.add (X r) (X r) imm).buffer = b.buffer ++ [addWord r imm] := by
  unfold CodeBuffer.add CodeBuffer.addSubImmediate CodeBuffer.emitInst addWord
  simp (disch := decide) only [setWidth_leftShift]
  rfl

theorem adrpAdd_buffer (b : CodeBuffer) (r : Reg) (src dst : Addr) :
    (b.adrpAdd (X r) src dst).buffer =
      b.buffer ++ [adrpWord r (page dst - page src), addWord r (dst % 0x1000)] := by
  unfold CodeBuffer.adrpAdd
  rw [add_buffer, adrp_buffer, List.append_assoc]
  rfl

theorem class_adrpWord (r : Reg) (imm : BitVec 64) : classOf (top (adrpWord r imm)) = .adrp := by
  have hclass : ∀ lo : BitVec 2, classOf (top ADRP ||| lo.setWidth 8 <<< 5) = .adrp := by decide
  have htop : top (adrpWord r imm) = top ADRP ||| (imm.extractLsb' 12 2).setWidth 8 <<< 5 := by
    unfold adrpWord top Rd
    simp (disch := omega) only [BitVec.extractLsb'_or, slice_setWidth_of_disjoint, BitVec.or_zero]
    congr 1
    ext i hi
    interval_cases i <;> simp
  rw [htop, hclass]

theorem slices_adrpWord (r : Reg) (imm : BitVec 64) :
    rd (adrpWord r imm) = r ∧ imm21 (adrpWord r imm) = imm.extractLsb' 12 21 := by
  have hslices : rd (adrpWord r imm) = r ∧ (adrpWord r imm).extractLsb' 29 2 = imm.extractLsb' 12 2 ∧
      (adrpWord r imm).extractLsb' 5 19 = imm.extractLsb' 14 19 := by
    unfold adrpWord rd Rd
    simp (disch := omega) only [BitVec.extractLsb'_or, slice_setWidth, slice_setWidth_of_disjoint,
      BitVec.or_zero]
    exact ⟨BitVec.zero_or, BitVec.zero_or, BitVec.zero_or⟩
  unfold imm21
  rw [hslices.1, hslices.2.1, hslices.2.2,
    BitVec.extractLsb'_append_extractLsb'_eq_extractLsb' (show 14 = 12 + 2 from rfl)]
  exact ⟨rfl, rfl⟩

theorem decode_adrpWord (r : Reg) (imm : BitVec 64) :
    decode (adrpWord r imm) = .adrp r (imm.extractLsb' 12 21) := by
  unfold decode
  rw [class_adrpWord, (slices_adrpWord r imm).1, (slices_adrpWord r imm).2]

theorem opcode_addWord (r : Reg) (imm : BitVec 64) : opcode (addWord r imm) = 0x244 := by
  unfold addWord opcode Rd Rn
  simp (disch := omega) only [BitVec.extractLsb'_or, slice_setWidth_of_disjoint, BitVec.or_zero]
  decide

theorem decode_addWord (r : Reg) (imm : BitVec 64) :
    decode (addWord r imm) = .add r r (imm.extractLsb' 0 12) := by
  have hslices : rn (addWord r imm) = r ∧ rd (addWord r imm) = r ∧
      (addWord r imm).extractLsb' 10 12 = imm.extractLsb' 0 12 := by
    unfold addWord rd rn Rd Rn
    simp (disch := omega) only [BitVec.extractLsb'_or, slice_setWidth, slice_setWidth_of_disjoint,
      BitVec.or_zero]
    exact ⟨BitVec.zero_or, BitVec.zero_or, BitVec.zero_or⟩
  obtain ⟨hrn, hrd, himm⟩ := hslices
  rw [decode_add (opcode_addWord r imm), hrd, hrn, himm]

/-! ### Inverted branches -/

/-- The slices of an inverted `tbz` or `tbnz`. -/
theorem slices_invertTestBranch (w : Word) :
    top (invertTestBranch w) = top w ^^^ 1 ∧ rd (invertTestBranch w) = rd w ∧
      testedBit (invertTestBranch w) = testedBit w ∧ imm14 (invertTestBranch w) = 3 := by
  unfold invertTestBranch top rd testedBit imm14 setBits setBit bit skip submask
  refine ⟨?_, ?_, ?_, ?_⟩
  · ext i hi
    interval_cases i <;> simp
  · ext i hi
    interval_cases i <;> simp
  · congr 1
    · ext i hi
      interval_cases i
      simp
    · ext i hi
      interval_cases i <;> simp
  · ext i hi
    interval_cases i <;> simp

theorem slices_invertCompareBranch (w : Word) :
    top (invertCompareBranch w) = top w ^^^ 1 ∧ rd (invertCompareBranch w) = rd w ∧
      imm19 (invertCompareBranch w) = 3 := by
  unfold invertCompareBranch top rd imm19 setBits setBit bit skip submask
  refine ⟨?_, ?_, ?_⟩
  · ext i hi
    interval_cases i <;> simp
  · ext i hi
    interval_cases i <;> simp
  · ext i hi
    interval_cases i <;> simp

theorem slices_invertConditionalBranch (w : Word) :
    top (invertConditionalBranch w) = top w ∧
      (invertConditionalBranch w).extractLsb' 0 4 = w.extractLsb' 0 4 ^^^ 1 ∧
      imm19 (invertConditionalBranch w) = 3 := by
  unfold invertConditionalBranch top imm19 setBits bits skip submask
  refine ⟨?_, ?_, ?_⟩
  · ext i hi
    interval_cases i <;> simp
  · ext i hi
    interval_cases i <;> simp
  · ext i hi
    interval_cases i <;> simp

end Il2CppDumper.Dobby
