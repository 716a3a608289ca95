import Il2CppDumper.Dobby.Session

/-!
# Hooks over hooks

The second hook of a function covers the trampoline of the first. Where that is `adrp`, `add`, `br`,
its relocated form leads to the landing of the first trampoline. Where it is a load of the literal
behind it, the literal is read after it was patched: it is then that of the second hook.
-/

namespace Il2CppDumper.Dobby

open Arm64 HookedProcess

/-- Where the `origin_call` of a second hook leads. -/
def originTarget (address first second : Addr) : Addr :=
  if distance address first < adrpRange then landing address first
  else if distance address second < adrpRange then first.extractLsb' 32 32 ++ brWord TMP_REG_0
  else second

/-! ### The words of a trampoline, relocated -/

section relocated
variable {other : Word → Core → Option (Core × Flow)} {A R first : Addr} {ws : List Word}
  {F : CodeBuffer} {c : Core} {i : Nat}

theorem class_rest_of_opcode {w : Word} {o : BitVec 10} (h : opcode w = o)
    (ho : classOf (o.extractLsb' 2 8) = .rest ∧ o.extractLsb' 2 8 ≠ 0x55) :
    classOf (top w) = .rest ∧ top w ≠ 0x55 := by
  rw [top_eq, h]
  exact ho

theorem opcode_brWord (r : CPURegister) : opcode (brWord r) = 0x358 :=
  (slices_register BR r).1.trans (by decide)

theorem placed_rest (hgen : genRelocateCodeAndBranch A ws = some F)
    (hsmall : F.buffer.length < 2 ^ 18) {w : Word} (hw : ws[i]? = some w)
    (hrest : classOf (top w) = .rest ∧ top w ≠ 0x55) :
    F.buffer[place A ws i]? = some w ∧ place A ws (i + 1) = place A ws i + 1 := by
  obtain ⟨p, hpiece, hplaced, hnext⟩ := placed_piece hgen hsmall hw
  obtain rfl := piece_rest hrest.1 hrest.2 hpiece
  exact ⟨hplaced.plain 0 w rfl (by rintro l ⟨⟩), hnext⟩

theorem run_relocated_br (hgen : genRelocateCodeAndBranch A ws = some F)
    (hsmall : F.buffer.length < 2 ^ 18) (hw : ws[i]? = some (brWord TMP_REG_0))
    (hR : Holds c.mem R F.buffer) :
    Reaches other ⟨c, wordAddr R (place A ws i)⟩ ⟨c, c.reg 17⟩ := by
  obtain ⟨hplaced, -⟩ := placed_rest hgen hsmall hw
    (class_rest_of_opcode (opcode_brWord TMP_REG_0) (by decide))
  exact run_br hR hplaced

/-- The relocated form of a near trampoline leads where the trampoline does. -/
theorem run_relocated_near (hgen : genRelocateCodeAndBranch A ws = some F)
    (hsmall : F.buffer.length < 2 ^ 18) (hnear : distance A first < adrpRange)
    (hadrp : ws[0]? = some (adrpWord 17 (page first - page A)))
    (hadd : ws[1]? = some (addWord 17 (first % 0x1000)))
    (hbr : ws[2]? = some (brWord TMP_REG_0)) (hR : Holds c.mem R F.buffer) :
    Reaches other ⟨c, R⟩ ⟨c.setReg 17 (landing A first), landing A first⟩ := by
  obtain ⟨p, hpiece, hplaced, hone⟩ := placed_piece hgen hsmall hadrp
  obtain rfl := Option.some.inj ((piece_adrp (class_adrpWord 17 _)).symm.trans hpiece)
  obtain ⟨hplaced1, htwo⟩ := placed_rest hgen hsmall hadd
    (class_rest_of_opcode (opcode_addWord 17 _) (by decide))
  have hmov : Reaches other ⟨c, wordAddr R (place A ws 0)⟩
      ⟨c.setReg 17 (page A + reach (page first - page A)), wordAddr R (place A ws 1)⟩ := by
    rw [(slices_adrpWord 17 _).1, (slices_adrpWord 17 _).2, wordAddr_zero] at hplaced
    rw [hone]
    apply run_mov hR
    exact fun k w hk => hplaced.plain k w hk (by rintro l ⟨⟩)
  have hsum : Reaches other
      ⟨c.setReg 17 (page A + reach (page first - page A)), wordAddr R (place A ws 1)⟩
      ⟨c.setReg 17 (landing A first), wordAddr R (place A ws 2)⟩ := by
    rw [htwo]
    apply reaches_next (by rwa [Core.setReg_mem]) hplaced1
    rw [decode_addWord, ← adrp_lands hnear, ← offset_low]
    exact congrArg some (congrArg (fun c => (c, Flow.next)) (Core.setReg_setReg c 17 _ _))
  have hjump : Reaches other ⟨c.setReg 17 (landing A first), wordAddr R (place A ws 2)⟩ _ :=
    run_relocated_br hgen hsmall hbr (by rwa [Core.setReg_mem])
  rw [Core.reg_setReg_self _ _ (by decide)] at hjump
  have hstart : wordAddr R (place A ws 0) = R := wordAddr_zero R
  rw [hstart] at hmov
  exact (hmov.trans hsum).trans hjump

/-- The relocated form of a far trampoline reads the literal where the trampoline was. -/
theorem run_relocated_far (hgen : genRelocateCodeAndBranch A ws = some F)
    (hsmall : F.buffer.length < 2 ^ 18) (hldr : ws[0]? = some (literalWord 2))
    (hbr : ws[1]? = some (brWord TMP_REG_0)) (hR : Holds c.mem R F.buffer) :
    Reaches other ⟨c, R⟩
      ⟨c.setReg 17 (read64 c.mem (wordAddr A 2)), read64 c.mem (wordAddr A 2)⟩ := by
  obtain ⟨htop, hrd, himm⟩ := slices_literalWord 2
  have hload : Reaches other ⟨c, wordAddr R (place A ws 0)⟩
      ⟨relocatedLit c (rd (literalWord 2)) (wordAddr A 0 + wordOffset (imm19 (literalWord 2))),
        wordAddr R (place A ws 1)⟩ :=
    run_literal hgen hsmall hldr (by rw [htop]; decide) hR
  rw [hrd, himm, wordAddr_zero, show A + wordOffset (2 : BitVec 19) = wordAddr A 2 from rfl,
    relocatedLit, Core.setReg_setReg] at hload
  have hjump : Reaches other ⟨c.setReg 17 (read64 c.mem (wordAddr A 2)), wordAddr R (place A ws 1)⟩ _ :=
    run_relocated_br hgen hsmall hbr (by rwa [Core.setReg_mem])
  rw [Core.reg_setReg_self _ _ (by decide)] at hjump
  have hstart : wordAddr R (place A ws 0) = R := wordAddr_zero R
  rw [hstart] at hload
  exact hload.trans hjump

end relocated

/-! ### The second hook -/

section rehook
variable {other : Word → Core → Option (Core × Flow)} {pageSize : Nat} {mmap : Option Addr}
  {s s' : HookedProcess} {address first second origin : Addr} {F : CodeBuffer} {c : Core}

theorem trampoline_length_pos (src dst : Addr) :
    3 ≤ (generateNormalTrampolineBuffer src dst).buffer.length := by
  rw [trampoline_buffer]
  split
  · exact Nat.le_refl 3
  · exact Nat.le_succ 3

theorem covered_getElem? {i : Nat} {w : Word} {ws : List Word} (hi : i < 3)
    (hholds : Holds s.memory.bytes address ws) (hw : ws[i]? = some w) :
    (s.covered address second)[i]? = some w := by
  have hlen := trampoline_length_pos address second
  unfold covered instructions
  rw [List.getElem?_map, List.getElem?_range (by omega), Option.map_some, hholds i w hw]

/-- What lies behind the second word of a far trampoline that is patched over. -/
theorem patched_literal (h : Hooked pageSize mmap s s' address second origin F)
    (harena : ArenaSound pageSize s.pageChunks) (hs : Hookable pageSize mmap s address)
    (hpage : 100 ≤ pageSize) (hfirst : Holds s.memory.bytes address (literalBranchWords first)) :
    read64 s'.memory.bytes (wordAddr address 2) =
      if distance address second < adrpRange then first.extractLsb' 32 32 ++ brWord TMP_REG_0
      else second := by
  obtain ⟨htramp, -, hframe⟩ := h.code harena hs hpage
  rw [trampoline_buffer] at htramp
  split
  · rename_i hnear
    rw [if_pos hnear] at htramp
    have hhigh : read32 s'.memory.bytes (wordAddr address 3) = first.extractLsb' 32 32 := by
      rw [← hfirst 3 _ rfl]
      apply read32_congr
      intro x hx
      rw [mem_region] at hx
      have hsplit : x - address = (x - wordAddr address 3) + BitVec.ofNat 64 12 := by
        unfold wordAddr
        bv_omega
      have hoff : (x - address).toNat = (x - wordAddr address 3).toNat + 12 := by
        rw [hsplit, BitVec.toNat_add, BitVec.toNat_ofNat]
        omega
      apply hframe
      rintro (hcovered | hcode)
      · rw [mem_region, covered_length, trampoline_buffer, if_pos hnear] at hcovered
        have hlen : (x - address).toNat < 12 := hcovered
        omega
      · apply Set.disjoint_left.1 (h.origin_apart harena hs hpage) hcode
        rw [mem_region]
        omega
    unfold read64
    rw [wordAddr_add_four, htramp 2 _ rfl, hhigh]
  · rename_i hfar
    rw [if_neg hfar] at htramp
    rw [htramp.read64 (show (literalBranchWords second)[2]? = _ from rfl) rfl, append_words]

/-- **The `origin_call` of a second hook** leads where the first trampoline led if its target is near.
If that is far and the second is too, it leads back to the second. -/
theorem rehook_origin_call {session : Session} {memory : Memory} {as : List Action} {e : HookEntry}
    (hpage : 100 ≤ pageSize)
    (h : (sessionMachine pageSize memory).Run (Allowed pageSize)
      (sessionMachine pageSize memory).init as session)
    (he : session.process.findHookEntry address = some e)
    (hguard : Allowed pageSize session (.hook mmap address second))
    (hcall : session.process.dobbyHook pageSize mmap address second = .ok (s', 0, some origin))
    (hc : c.mem = s'.memory.bytes) :
    Reaches other ⟨c, origin⟩ ⟨c.setReg 17 (originTarget address e.trampolineTarget second),
      originTarget address e.trampolineTarget second⟩ := by
  have hsound := session_sound hpage h
  have haddress : e.functionAddress = address := by simpa using List.find?_some he
  have hfirst := hsound.layered.newest hsound.apart he
  unfold HookEntry.trampoline at hfirst
  rw [haddress, trampoline_buffer] at hfirst
  obtain ⟨-, hr, -⟩ | ⟨origin', F, -, ho, hooked⟩ := dobbyHook_inv hcall
  · cases hr
  obtain rfl := Option.some.inj ho
  obtain ⟨-, hcode, -⟩ := hooked.code hsound.arena hguard.1 hpage
  have hsmall : F.buffer.length < 2 ^ 18 := Nat.lt_of_le_of_lt hooked.small (by decide)
  rw [← hc] at hcode
  unfold originTarget
  split at hfirst
  · rename_i hnear
    rw [if_pos hnear]
    exact run_relocated_near hooked.relocated hsmall hnear
      (covered_getElem? (by decide) hfirst rfl) (covered_getElem? (by decide) hfirst rfl)
      (covered_getElem? (by decide) hfirst rfl) hcode
  · rename_i hfar
    have hliteral := patched_literal hooked hsound.arena hguard.1 hpage hfirst
    rw [if_neg hfar, ← hliteral, ← hc]
    exact run_relocated_far hooked.relocated hsmall (covered_getElem? (by decide) hfirst rfl)
      (covered_getElem? (by decide) hfirst rfl) hcode

theorem rehook_origin_call_near : ∃ (session : Session) (s' : HookedProcess) (origin : Addr),
    session.process.dobbyHook (2 ^ 12) (some 0x50000) 0x10000 0x30000 = .ok (s', 0, some origin) ∧
    ∀ c : Core, c.mem = s'.memory.bytes →
      Reaches (fun _ _ => none) ⟨c, origin⟩ ⟨c.setReg 17 0x20000, 0x20000⟩ := by
  obtain ⟨session, e, -, hrun, hlist, haddress, htarget, -, hpages⟩ := one_hook fun _ => false
  have hfind := haddress ▸ findHookEntry_single hlist
  have hsound := session_sound (by decide) hrun
  have hs : Hookable (2 ^ 12) (some 0x50000) session.process 0x10000 := by
    refine ⟨?_, fun p hp => ?_, ?_⟩
    · rintro _ ⟨⟩
      refine ⟨by decide, by decide, fun p hp => ?_⟩
      rw [hpages p hp]
      exact disjoint_region (by decide) (by decide)
    · rw [hpages p hp]
      exact (disjoint_region (by decide) (by decide)).symm
    · rintro _ ⟨⟩
      exact (disjoint_region (by decide) (by decide)).symm
  have hguard : Allowed (2 ^ 12) session (.hook (some 0x50000) 0x10000 0x30000) := by
    refine ⟨hs, fun f hf => ?_, ?_⟩
    · rw [hlist, List.mem_singleton] at hf
      exact Or.inl (hf ▸ haddress.symm)
    · rintro _ ⟨⟩ f hf
      rw [hlist, List.mem_singleton] at hf
      subst hf
      unfold HookEntry.region
      rw [haddress]
      exact (disjoint_region (by decide) (by decide)).symm
  -- the second hook covers the words of the first trampoline
  have hholds := hsound.layered.newest hsound.apart hfind
  unfold HookEntry.trampoline at hholds
  rw [haddress, htarget] at hholds
  have hcovered : session.process.covered 0x10000 0x30000 =
      (generateNormalTrampolineBuffer 0x10000 0x20000).buffer := by
    apply List.ext_getElem?
    intro i
    by_cases hi : i < 3
    · have hword : i < (generateNormalTrampolineBuffer 0x10000 0x20000).buffer.length := hi
      rw [List.getElem?_eq_getElem hword]
      exact covered_getElem? hi hholds (List.getElem?_eq_getElem hword)
    · rw [List.getElem?_eq_none (by rw [covered_length]; exact Nat.le_of_not_lt hi),
        List.getElem?_eq_none (Nat.le_of_not_lt hi)]
  have hlen : (genRelocateCodeAndBranch 0x10000
      (generateNormalTrampolineBuffer 0x10000 0x20000).buffer).map
      (fun F => F.buffer.length) = some 10 := by decide
  obtain ⟨F, hgen, -⟩ := Option.map_eq_some_iff.1 hlen
  rw [← hcovered] at hgen
  obtain ⟨s', origin, hcall⟩ := dobbyHook_returns (k := 12) (by decide) (by decide) (by decide)
    (by rw [hfind]; rintro e ⟨⟩; rw [htarget]; decide) hsound.arena hs hgen (by decide)
  refine ⟨session, s', origin, hcall, fun c hc => ?_⟩
  have horigin : originTarget 0x10000 e.trampolineTarget 0x30000 = 0x20000 := by
    rw [htarget]
    decide
  rw [← horigin]
  exact rehook_origin_call (by decide) hrun hfind hguard hcall hc

end rehook

end Il2CppDumper.Dobby
