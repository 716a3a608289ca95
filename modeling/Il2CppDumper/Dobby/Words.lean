import Il2CppDumper.Arm64.Agree
import Il2CppDumper.Dobby.Layout

/-!
# Running the emitted words

What the sequences that the assembler emits do wherever they lie: `Mov`, the load and the jump of a
label, and an inverted branch over a jump.
-/

namespace Il2CppDumper.Dobby

open Arm64

section words
variable {other : Word → Core → Option (Core × Flow)} {R : Addr} {F : List Word} {c : Core} {q : Nat}

/-! ### `Mov` -/

theorem slice_half (h : BitVec 16) : (h.setWidth 64).extractLsb' 0 16 = h := by
  rw [BitVec.extractLsb'_setWidth_of_le (by decide)]
  exact BitVec.extractLsb'_eq_self

/-- A halfword inserted into a register that was just written. -/
theorem setReg_insert16 (c : Core) (r : Reg) (e : BitVec 64) (h : BitVec 16) (lo : Nat) :
    (c.setReg r e).setReg r (insert16 ((c.setReg r e).reg r) h lo) =
      c.setReg r (insert16 e h lo) := by
  rw [Core.setReg_setReg]
  by_cases hr : r = 31
  · subst hr
    rfl
  · rw [Core.reg_setReg_self c e hr]

theorem run_movz {r : Reg} {h : BitVec 16} (hF : Holds c.mem R F)
    (hw : F[q]? = some (wideWord movzX (h.setWidth 64) r)) :
    Reaches other ⟨c, wordAddr R q⟩ ⟨c.setReg r (insert16 0 h 0), wordAddr R (q + 1)⟩ := by
  apply reaches_next hF hw
  rw [decode_movzX, slice_half]
  rfl

theorem run_movk {r : Reg} {e : BitVec 64} {h : BitVec 16} {hw : BitVec 2} {lo : Nat}
    (hlo : 16 * hw.toNat = lo) (hF : Holds c.mem R F)
    (hword : F[q]? = some (wideWord (movkX hw) (h.setWidth 64) r)) :
    Reaches other ⟨c.setReg r e, wordAddr R q⟩
      ⟨c.setReg r (insert16 e h lo), wordAddr R (q + 1)⟩ := by
  subst hlo
  rw [← setReg_insert16 c r e h]
  apply reaches_next (by rwa [Core.setReg_mem]) hword
  rw [decode_movkX, slice_half]
  rfl

theorem run_mov {r : Reg} {imm : BitVec 64} (hF : Holds c.mem R F)
    (hw : ∀ k w, (movWords r imm)[k]? = some w → F[q + k]? = some w) :
    Reaches other ⟨c, wordAddr R q⟩ ⟨c.setReg r imm, wordAddr R (q + 4)⟩ := by
  have hrun : Reaches other ⟨c, wordAddr R q⟩
      ⟨c.setReg r (insert16 (insert16 (insert16 (insert16 0 (imm.extractLsb' 0 16) 0)
        (imm.extractLsb' 16 16) 16) (imm.extractLsb' 32 16) 32) (imm.extractLsb' 48 16) 48),
        wordAddr R (q + 4)⟩ := by
    apply (run_movz hF (hw 0 _ rfl)).trans
    apply (run_movk (show 16 * (1#2).toNat = 16 from rfl) hF (hw 1 _ rfl)).trans
    apply (run_movk (show 16 * (2#2).toNat = 32 from rfl) hF (hw 2 _ rfl)).trans
    exact run_movk (show 16 * (3#2).toNat = 48 from rfl) hF (hw 3 _ rfl)
  rwa [insert16_all] at hrun

/-! ### Loads and jumps -/

/-- The load from the address in `x17`, of 64 bits whatever the register is. -/
theorem run_ldr {rt : CPURegister} (hF : Holds c.mem R F) (hw : F[q]? = some (ldrWord rt)) :
    Reaches other ⟨c, wordAddr R q⟩
      ⟨c.setReg rt.regCode (read64 c.mem (c.reg 17)), wordAddr R (q + 1)⟩ := by
  apply reaches_next hF hw
  rw [decode_ldrWord]
  show some (c.setReg rt.regCode
    (read64 c.mem (c.regSp 17 + (0#12).setWidth 64 <<< 3)), Flow.next) = _
  rw [Core.regSp_of_ne c (by decide), show (0#12).setWidth 64 <<< 3 = 0#64 by decide,
    BitVec.add_zero]

/-- A jump to the address in `x17`. -/
theorem run_br (hF : Holds c.mem R F) (hw : F[q]? = some (brWord TMP_REG_0)) :
    Reaches other ⟨c, wordAddr R q⟩ ⟨c, c.reg 17⟩ := by
  apply reaches_at (f := .jump (c.reg 17)) hF hw
  rw [decode_brWord]
  rfl

/-- The load of a label. -/
theorem run_linked {p : Nat} {d : Addr} (hF : Holds c.mem R F) (hsmall : F.length < 2 ^ 18)
    (hlink : Linked F p d q) :
    Reaches other ⟨c, wordAddr R p⟩ ⟨c.setReg 17 d, wordAddr R (p + 1)⟩ := by
  have hq : q < F.length := (List.getElem?_eq_some_iff.1 hlink.low).1
  have hbefore := hlink.before
  have haddr : wordAddr R p + wordOffset (BitVec.ofNat 19 (q - p)) = wordAddr R q := by
    rw [wordOffset_ofNat (by decide) (by omega)]
    show wordAddr (wordAddr R p) (q - p) = _
    rw [wordAddr_add]
    congr 1
    omega
  apply reaches_next hF hlink.load
  rw [decode_literalWord]
  show some (c.setReg 17 (read64 c.mem _), Flow.next) = _
  rw [haddr, hF.read64 hlink.low hlink.high, append_words]

/-- The load of a label and the jump there. -/
theorem run_linked_br {p : Nat} {d : Addr} (hF : Holds c.mem R F) (hsmall : F.length < 2 ^ 18)
    (hlink : Linked F p d q) (hw : F[p + 1]? = some (brWord TMP_REG_0)) :
    Reaches other ⟨c, wordAddr R p⟩ ⟨c.setReg 17 d, d⟩ := by
  have hjump : Reaches other ⟨c.setReg 17 d, wordAddr R (p + 1)⟩ _ :=
    run_br (by rwa [Core.setReg_mem]) hw
  rw [Core.reg_setReg_self c d (by decide)] at hjump
  exact (run_linked hF hsmall hlink).trans hjump

/-- The load of a label and the call there. -/
theorem run_linked_blr {p : Nat} {d : Addr} (hF : Holds c.mem R F) (hsmall : F.length < 2 ^ 18)
    (hlink : Linked F p d q) (hw : F[p + 1]? = some (blrWord TMP_REG_0)) :
    Reaches other ⟨c, wordAddr R p⟩ ((Flow.call d).resume (wordAddr R (p + 1)) (c.setReg 17 d)) := by
  have hcall : execute other (decode (blrWord TMP_REG_0)) (wordAddr R (p + 1)) (c.setReg 17 d) =
      some (c.setReg 17 d, .call d) := by
    rw [decode_blrWord]
    show some (_, Flow.call ((c.setReg 17 d).reg 17)) = _
    rw [Core.reg_setReg_self c d (by decide)]
  exact (run_linked hF hsmall hlink).trans (reaches_at (by rwa [Core.setReg_mem]) hw hcall)

/-- The jump that `LiteralLdrBranch` writes. -/
theorem run_literalBranch {d : Addr} (hF : Holds c.mem R F) (hsmall : F.length < 2 ^ 18)
    (hw : ∀ k w, (literalBranchWords d)[k]? = some w → F[q + k]? = some w) :
    Reaches other ⟨c, wordAddr R q⟩ ⟨c.setReg 17 d, d⟩ := by
  have hlink : Linked F q d (q + 2) := by
    refine ⟨?_, hw 2 _ rfl, hw 3 _ rfl, by omega⟩
    rw [Nat.add_sub_cancel_left]
    exact hw 0 _ rfl
  exact run_linked_br hF hsmall hlink (hw 1 _ rfl)

/-! ### Inverted branches -/

/-- The distance in an inverted branch. -/
theorem skip_target {n : Nat} (hn : 3 ≤ n) (hn' : n + 2 ≤ 64) (R : Addr) (q : Nat) :
    wordAddr R q + wordOffset (3 : BitVec n) = wordAddr R (q + 3) := by
  have hpow : 2 ^ 3 ≤ 2 ^ n := Nat.pow_le_pow_right (by decide) hn
  rw [show (3 : BitVec n) = BitVec.ofNat n 3 from rfl, wordOffset_ofNat hn' (by omega)]
  exact wordAddr_add R q 3

/-- An inverted branch over a jump goes where the branch goes. -/
theorem run_conditional {w : Word} {d : Addr} {taken : Bool} (hF : Holds c.mem R F)
    (hsmall : F.length < 2 ^ 18) (hp : Placed F q (conditionalPiece w d))
    (hexec : execute other (decode w) (wordAddr R q) c =
      some (c, branchIf (!taken) (wordAddr R (q + 3)))) :
    Reaches other ⟨c, wordAddr R q⟩
      (if taken then ⟨c.setReg 17 d, d⟩ else ⟨c, wordAddr R (q + 3)⟩) := by
  have hw : F[q]? = some w := hp.plain 0 w rfl (by rintro l ⟨⟩; simp)
  have hbr : F[q + 2]? = some (brWord TMP_REG_0) := hp.plain 2 _ rfl (by rintro l ⟨⟩; simp)
  obtain ⟨p, hlink⟩ := hp.linked 1 d rfl
  cases taken with
  | false => exact reaches_at hF hw hexec
  | true => exact (reaches_next hF hw hexec).trans (run_linked_br hF hsmall hlink hbr)

end words

end Il2CppDumper.Dobby
