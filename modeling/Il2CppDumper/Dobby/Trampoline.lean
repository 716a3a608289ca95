import Il2CppDumper.Dobby.Words

/-!
# Trampolines

`GenerateNormalTrampolineBuffer` writes `adrp`, `add`, `br` for targets nearer than 4 GiB. The page of
the target may then be 4 GiB above or below that of the source, and 21 bits of pages reach that far
down but not up: `landing` is where a trampoline leads, and `run_trampoline` that it leads there.
-/

namespace Il2CppDumper.Dobby

open Arm64

/-! ### Pages -/

theorem toNat_offset (a : Addr) : (a &&& 0xFFF#64).toNat = a.toNat % 4096 :=
  toNat_and_low (k := 12) a (by decide)

theorem toNat_page (a : Addr) : (page a).toNat = a.toNat - a.toNat % 4096 :=
  toNat_and_high (k := 12) a (by decide)

theorem page_add_offset (a : Addr) : page a + (a &&& 0xFFF#64) = a := and_not_add_and a 0xFFF#64

/-- What `adrp` adds to its page, of a distance. -/
def reach (d : Addr) : Addr := (d.extractLsb' 12 21).signExtend 64 <<< 12

theorem reach_eq {d : Addr} (hpage : d.toNat % 4096 = 0)
    (hnear : d.toNat < 2 ^ 32 ∨ 2 ^ 64 - 2 ^ 32 ≤ d.toNat) : reach d = d := by
  have hval : (d.extractLsb' 12 21).toNat = d.toNat / 4096 % 2 ^ 21 := by
    rw [BitVec.extractLsb'_toNat, Nat.shiftRight_eq_div_pow]
  apply BitVec.eq_of_toNat_eq
  unfold reach
  rw [BitVec.toNat_shiftLeft, BitVec.toNat_signExtend, BitVec.toNat_setWidth, hval,
    Nat.shiftLeft_eq, BitVec.msb_eq_decide, hval]
  rcases hnear with hnear | hnear
  · rw [decide_eq_false (by omega), if_neg Bool.false_ne_true]
    omega
  · rw [decide_eq_true (by omega), if_pos rfl]
    omega

/-- What `add` adds to it. -/
theorem offset_low (a : Addr) : ((a % 0x1000).extractLsb' 0 12).setWidth 64 = a &&& 0xFFF#64 := by
  apply BitVec.eq_of_toNat_eq
  rw [toNat_offset, BitVec.toNat_setWidth, BitVec.extractLsb'_toNat, Nat.shiftRight_zero,
    BitVec.toNat_umod]
  show a.toNat % 4096 % 2 ^ 12 % 2 ^ 64 = _
  omega

/-! ### Where a trampoline leads -/

/-- Where the trampoline from `src` to `dst` leads: 8 GiB below the target if the target is near and
its page is 4 GiB above that of the trampoline. -/
def landing (src dst : Addr) : Addr :=
  if distance src dst < adrpRange ∧ page dst - page src = 0x100000000 then dst - 0x200000000
  else dst

theorem pages_aligned (src dst : Addr) : (page dst - page src).toNat % 4096 = 0 := by
  have hs := src.isLt
  have hd := dst.isLt
  rw [BitVec.toNat_sub, toNat_page, toNat_page]
  omega

theorem distance_near {src dst : Addr} (h : distance src dst < adrpRange) :
    (dst - src).toNat < 2 ^ 32 ∨ 2 ^ 64 - 2 ^ 32 < (dst - src).toNat := by
  have hneg : dst - src = -(src - dst) := (neg_sub src dst).symm
  unfold distance adrpRange at h
  rw [BitVec.toInt_eq_toNat_cond] at h
  rw [hneg, BitVec.toNat_neg]
  generalize (src - dst).toNat = x at h
  split at h <;> omega

/-- The pages of addresses that are near. -/
theorem pages_near {src dst : Addr} (h : distance src dst < adrpRange) :
    (page dst - page src).toNat ≤ 2 ^ 32 ∨ 2 ^ 64 - 2 ^ 32 ≤ (page dst - page src).toNat := by
  have hnear := distance_near h
  have haligned := pages_aligned src dst
  have hoff : ∀ a : Addr, (a &&& 0xFFF#64).toNat < 4096 := by
    intro a
    rw [toNat_offset]
    exact Nat.mod_lt _ (by decide)
  have hs := hoff src
  have hd := hoff dst
  have hsum : page dst - page src + (dst &&& 0xFFF#64) = dst - src + (src &&& 0xFFF#64) := by
    rw [eq_sub_of_add_eq (page_add_offset src), eq_sub_of_add_eq (page_add_offset dst),
      sub_sub_sub_comm, sub_add_eq_add_sub, add_comm (dst - src), add_sub_sub_cancel]
  have hval := congrArg BitVec.toNat hsum
  rw [BitVec.toNat_add, BitVec.toNat_add] at hval
  have hp := (page dst - page src).isLt
  have hx := (dst - src).isLt
  clear h hsum
  omega

theorem adrp_lands {src dst : Addr} (h : distance src dst < adrpRange) :
    page src + reach (page dst - page src) + (dst &&& 0xFFF#64) = landing src dst := by
  have hpage := pages_aligned src dst
  have hnear := pages_near h
  by_cases hfar : page dst - page src = 0x100000000
  · have hdst : page dst = page src + 0x100000000 := by
      rw [← hfar, BitVec.add_comm, BitVec.sub_add_cancel]
    have hreach : reach 0x100000000 = 0x100000000 - 0x200000000 := by decide
    have hsum := page_add_offset dst
    unfold landing
    rw [if_pos ⟨h, hfar⟩, hfar, hreach]
    rw [hdst] at hsum
    bv_omega
  · have hne : (page dst - page src).toNat ≠ 2 ^ 32 :=
      fun heq => hfar (BitVec.eq_of_toNat_eq heq)
    unfold landing
    rw [if_neg fun hboth => hfar hboth.2, reach_eq hpage (by omega), BitVec.add_comm (page src),
      BitVec.sub_add_cancel, page_add_offset]

/-! ### Running a trampoline -/

section run
variable {other : Word → Core → Option (Core × Flow)} {R src dst : Addr} {F : List Word} {c : Core}
  {q : Nat}

/-- The words of a trampoline, by the distance. -/
theorem trampoline_buffer (src dst : Addr) : (generateNormalTrampolineBuffer src dst).buffer =
    if distance src dst < adrpRange then
      [adrpWord 17 (page dst - page src), addWord 17 (dst % 0x1000), brWord TMP_REG_0]
    else literalBranchWords dst := by
  unfold generateNormalTrampolineBuffer
  split
  · unfold CodeBuffer.br
    rw [emitInst_eq, show TMP_REG_0 = X 17 from rfl, adrpAdd_buffer]
    rfl
  · rw [literalLdrBranch_eq]
    rfl

/-- A trampoline leads to its landing, and `x17` is all that it changes. -/
theorem run_trampoline (hF : Holds c.mem src (generateNormalTrampolineBuffer src dst).buffer) :
    Reaches other ⟨c, src⟩ ⟨c.setReg 17 (landing src dst), landing src dst⟩ := by
  rw [trampoline_buffer] at hF
  split at hF
  · rename_i hnear
    have hadrp : Reaches other ⟨c, src⟩ ⟨c.setReg 17 (page src +
        reach (page dst - page src)), wordAddr src 1⟩ := by
      have hnext : Reaches other ⟨c, wordAddr src 0⟩
          ⟨c.setReg 17 (page src + reach (page dst - page src)), wordAddr src 1⟩ := by
        apply reaches_next hF rfl
        rw [decode_adrpWord, wordAddr_zero]
        rfl
      rwa [wordAddr_zero] at hnext
    have hadd : Reaches other ⟨c.setReg 17 (page src +
        reach (page dst - page src)), wordAddr src 1⟩
        ⟨c.setReg 17 (landing src dst), wordAddr src 2⟩ := by
      apply reaches_next (by rwa [Core.setReg_mem]) rfl
      rw [decode_addWord, ← adrp_lands hnear, ← offset_low]
      exact congrArg some (congrArg (fun c => (c, Flow.next)) (Core.setReg_setReg c 17 _ _))
    have hbr : Reaches other ⟨c.setReg 17 (landing src dst), wordAddr src 2⟩ _ :=
      run_br (by rwa [Core.setReg_mem]) rfl
    rw [Core.reg_setReg_self _ _ (by decide)] at hbr
    exact (hadrp.trans hadd).trans hbr
  · rename_i hfar
    have hland : landing src dst = dst := by
      unfold landing
      rw [if_neg fun h => hfar h.1]
    have hrun : Reaches other ⟨c, wordAddr src 0⟩ ⟨c.setReg 17 dst, dst⟩ := by
      apply run_literalBranch hF (by show 4 < 2 ^ 18; decide)
      intro k w hw
      rwa [Nat.zero_add]
    rwa [hland, ← wordAddr_zero src]

/-- **A trampoline leads to its target** unless that is near with its page 4 GiB above the page of the
source: then it leads 8 GiB below the target. -/
theorem trampoline_leads (hF : Holds c.mem src (generateNormalTrampolineBuffer src dst).buffer) :
    ∃ t, Reaches other ⟨c, src⟩ ⟨c.setReg 17 t, t⟩ ∧
      (t = dst ↔ ¬ (distance src dst < adrpRange ∧ page dst - page src = 0x100000000)) ∧
      (t ≠ dst → t = dst - 0x200000000) := by
  refine ⟨landing src dst, run_trampoline hF, ?_, ?_⟩
  · unfold landing
    split
    · rename_i hfar
      refine iff_of_false ?_ fun h => h hfar
      intro h
      bv_omega
    · rename_i hnear
      exact iff_of_true rfl hnear
  · unfold landing
    split
    · exact fun _ => rfl
    · exact fun h => absurd rfl h

theorem trampoline_leads_astray : ∃ t,
    Reaches (fun _ _ => none)
      ⟨.start (store (fun _ => 0) 0x1FFC
        ((generateNormalTrampolineBuffer 0x1FFC 0x100001000).buffer.flatMap bytesOf)), 0x1FFC⟩
      ⟨(Core.start (store (fun _ => 0) 0x1FFC
        ((generateNormalTrampolineBuffer 0x1FFC 0x100001000).buffer.flatMap bytesOf))).setReg 17 t, t⟩ ∧
      t = 0xFFFFFFFF00001000 := by
  have hF : Holds (store (fun _ => 0) 0x1FFC
      ((generateNormalTrampolineBuffer 0x1FFC 0x100001000).buffer.flatMap bytesOf)) 0x1FFC
      (generateNormalTrampolineBuffer 0x1FFC 0x100001000).buffer := holds_store _ _ (by decide)
  obtain ⟨t, hrun, hiff, hlow⟩ := trampoline_leads (c := .start _) hF
  have hne : t ≠ 0x100001000 := fun heq => hiff.1 heq (by decide)
  exact ⟨t, hrun, hlow hne⟩

end run

end Il2CppDumper.Dobby
