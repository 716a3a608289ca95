import Il2CppDumper.Dobby.Simulation

/-!
# What relocation does not carry

Which instructions end the process (`genRelocate_none_iff`), how long a relocated block is, and two
kinds of instruction that are relocated but not to their meaning: loads of literals of 32 bits or of
vector registers (`literal_load_exact`), and conditional branches that are always taken
(`relocated_bcond`).
-/

namespace Il2CppDumper.Dobby

open Arm64

/-! ### Aborts -/

/-- The loads of literals that Dobby does not implement: `ldrsw`, `prfm` and `ldr` of a `Q` register. -/
def Unimplemented (w : Word) : Prop := top w &&& 0x3B = 0x18 ∧ (top w).getLsbD 7 = true

instance (w : Word) : Decidable (Unimplemented w) := inferInstanceAs (Decidable (_ ∧ _))

theorem piece_none_iff (pc : Addr) (w : Word) : piece pc w = none ↔ Unimplemented w := by
  have hopc : ∀ t : BitVec 8, t.getLsbD 7 = true ↔ t.extractLsb' 6 2 ≠ 0 ∧ t.extractLsb' 6 2 ≠ 1 := by
    decide
  unfold Unimplemented
  constructor
  · intro h
    unfold piece at h
    split_ifs at h with hlit h0 h1
    exact ⟨hlit, (hopc _).2 ⟨h0, h1⟩⟩
  · rintro ⟨hlit, h7⟩
    obtain ⟨h0, h1⟩ := (hopc _).1 h7
    unfold piece
    rw [if_pos hlit, if_neg h0, if_neg h1]

theorem pieces_none_iff (pc : Addr) (ws : List Word) :
    pieces pc ws = none ↔ ∃ w ∈ ws, Unimplemented w := by
  induction ws generalizing pc with
  | nil => simp [pieces]
  | cons w ws ih =>
    rw [pieces, List.exists_mem_cons_iff, ← ih (pc + 4), ← piece_none_iff pc w]
    rcases piece pc w with _ | p
    · simp
    · simp

/-- **Relocation aborts exactly at an unimplemented load**, wherever the block lies. -/
theorem genRelocate_none_iff (origin : Addr) (instrs : List Word) :
    genRelocateCodeAndBranch origin instrs = none ↔ ∃ w ∈ instrs, Unimplemented w := by
  rw [genRelocateCodeAndBranch_eq, Option.map_eq_none_iff, pieces_none_iff]

/-! ### Lengths -/

theorem piece_length {pc : Addr} {w : Word} {p : Piece} (h : piece pc w = some p) :
    p.words.length + 2 * p.link.toList.length ≤ 5 := by
  unfold piece conditionalPiece at h
  split_ifs at h
  all_goals
    obtain rfl := Option.some.inj h
    exact Nat.le_of_ble_eq_true rfl

theorem pieces_words {pc : Addr} {ws : List Word} {ps : List Piece} (h : pieces pc ws = some ps)
    (n : Nat) : (ps.flatMap Piece.words).length + 2 * (links n ps).length ≤ 5 * ws.length := by
  induction ws generalizing pc ps n with
  | nil =>
    obtain rfl := Option.some.inj h
    exact Nat.le_refl 0
  | cons w ws ih =>
    rw [pieces] at h
    split at h
    · cases h
    · rename_i p hp
      obtain ⟨qs, hqs, rfl⟩ := Option.map_eq_some_iff.1 h
      have hhead := piece_length hp
      have htail := ih hqs (n + p.words.length)
      have hlink : (p.link.map fun l => (n + l.1, l.2)).toList.length = p.link.toList.length := by
        cases p.link <;> rfl
      rw [List.flatMap_cons, links, List.length_append, List.length_append, hlink, List.length_cons]
      omega

/-- No instruction becomes more than five words, the doubleword of its label included. -/
theorem length_relocated {origin : Addr} {instrs : List Word} {F : CodeBuffer}
    (h : genRelocateCodeAndBranch origin instrs = some F) :
    F.buffer.length ≤ 5 * instrs.length + 4 := by
  obtain ⟨ps, hps, hF⟩ := pieces_of_gen h
  have hwords := pieces_words hps 0
  rw [hF, finish, length_bindAll, List.length_append]
  show _ + 4 + _ ≤ _
  omega

/-! ### Literals -/

section exact
variable {other : Word → Core → Option (Core × Flow)} {A R : Addr} {ws : List Word} {F : CodeBuffer}
  {i : Nat} {w : Word} {d : Core}

/-- The piece of word `i` where it lies. -/
theorem placed_piece (hgen : genRelocateCodeAndBranch A ws = some F)
    (hsmall : F.buffer.length < 2 ^ 18) (hw : ws[i]? = some w) :
    ∃ p, piece (wordAddr A i) w = some p ∧ Placed F.buffer (place A ws i) p ∧
      place A ws (i + 1) = place A ws i + p.words.length := by
  obtain ⟨ps, hps, hF⟩ := pieces_of_gen hgen
  obtain ⟨p, hp, hpiece⟩ := pieces_getElem? hps hw
  rw [hF] at hsmall ⊢
  rw [place_eq hps, place_eq hps]
  exact ⟨p, hpiece, placed (pieces_wellLinked hps) hsmall hp, offset_succ hp⟩

/-- What the relocated form of a load of a literal leaves. -/
def relocatedLit (c : Core) (r : Reg) (a : Addr) : Core :=
  (c.setReg 17 a).setReg r (read64 c.mem a)

/-- A relocated load of a literal, of whatever kind, loads 64 bits into the general register. -/
theorem run_literal (hgen : genRelocateCodeAndBranch A ws = some F)
    (hsmall : F.buffer.length < 2 ^ 18) (hw : ws[i]? = some w) (hlit : top w &&& 0x3B = 0x18)
    (hR : Holds d.mem R F.buffer) :
    Reaches other ⟨d, wordAddr R (place A ws i)⟩
      ⟨relocatedLit d (rd w) (wordAddr A i + wordOffset (imm19 w)),
        wordAddr R (place A ws (i + 1))⟩ := by
  obtain ⟨p, hpiece, hplaced, hnext⟩ := placed_piece hgen hsmall hw
  obtain ⟨rt, hcode, rfl⟩ : ∃ rt : CPURegister, rt.regCode = rd w ∧
      p = ⟨movWords 17 (wordAddr A i + wordOffset (imm19 w)) ++ [ldrWord rt], none⟩ := by
    unfold piece at hpiece
    rw [if_pos hlit] at hpiece
    split_ifs at hpiece
    · exact ⟨_, rfl, (Option.some.inj hpiece).symm⟩
    · exact ⟨_, rfl, (Option.some.inj hpiece).symm⟩
  unfold relocatedLit
  rw [hnext, ← hcode]
  generalize wordAddr A i + wordOffset (imm19 w) = a at hplaced ⊢
  have hmov : Reaches other ⟨d, wordAddr R (place A ws i)⟩
      ⟨d.setReg 17 a, wordAddr R (place A ws i + 4)⟩ := by
    apply run_mov hR
    intro k v hk
    apply hplaced.plain k v _ (by rintro l ⟨⟩)
    rw [List.getElem?_append_left (List.getElem?_eq_some_iff.1 hk).1, hk]
  have hload : Reaches other ⟨d.setReg 17 a, wordAddr R (place A ws i + 4)⟩ _ :=
    run_ldr (by rwa [Core.setReg_mem]) (hplaced.plain 4 _ rfl (by rintro l ⟨⟩))
  rw [Core.reg_setReg_self d a (by decide), Core.setReg_mem] at hload
  exact hmov.trans hload

/-- What a state `e` must be to differ from it in `x17` alone, if it differs from `c` in register `r`
and the vector registers alone. -/
theorem relocatedLit_agree_iff {c e : Core} {r : Reg} {a : Addr}
    (hreg : ∀ s, s ≠ r → e.reg s = c.reg s) (hsp : e.sp = c.sp) (hnzcv : e.nzcv = c.nzcv)
    (hmem : e.mem = c.mem) : AgreeOff {17} ∅ e (relocatedLit c r a) ↔
      e.v = c.v ∧ (r = 31 ∨ r = 17 ∨ e.reg r = read64 c.mem a) := by
  unfold relocatedLit
  constructor
  · intro h
    refine ⟨?_, ?_⟩
    · rw [h.v, Core.setReg_v, Core.setReg_v]
    · by_cases h31 : r = 31
      · exact Or.inl h31
      by_cases h17 : r = 17
      · exact Or.inr (Or.inl h17)
      rw [h.reg r h17, Core.reg_setReg_self _ _ h31]
      exact Or.inr (Or.inr rfl)
  · rintro ⟨hv, hr⟩
    refine ⟨?_, ?_, ?_, ?_, ?_⟩
    · intro s hs
      have h17 : s ≠ 17 := hs
      by_cases hsr : s = r
      · subst hsr
        by_cases h31 : s = 31
        · subst h31
          rfl
        · rw [Core.reg_setReg_self _ _ h31]
          rcases hr with hr | hr | hr
          · exact absurd hr h31
          · exact absurd hr h17
          · exact hr
      · rw [Core.reg_setReg_of_ne _ _ hsr, Core.reg_setReg_of_ne _ _ h17, hreg s hsr]
    · rw [hsp, Core.setReg_sp, Core.setReg_sp]
    · rw [hv, Core.setReg_v, Core.setReg_v]
    · rw [hnzcv, Core.setReg_nzcv, Core.setReg_nzcv]
    · intro b _
      rw [hmem, Core.setReg_mem, Core.setReg_mem]

/-- When a load of a literal and its relocated form leave the same but for `x17`. -/
def LoadsAlike (k : LitKind) (c : Core) (r : Reg) (a : Addr) : Prop :=
  match k with
  | .w => r = 31 ∨ r = 17 ∨ read32 c.mem (a + 4) = 0
  | .x => True
  | .s => c.v r = (read32 c.mem a).setWidth 128 ∧ (r = 31 ∨ r = 17 ∨ c.reg r = read64 c.mem a)
  | .d => c.v r = (read64 c.mem a).setWidth 128 ∧ (r = 31 ∨ r = 17 ∨ c.reg r = read64 c.mem a)
  | .sw | .prfm | .q => False

theorem setWidth_eq_read64_iff (m : Mem) (a : Addr) :
    (read32 m a).setWidth 64 = read64 m a ↔ read32 m (a + 4) = 0 := by
  have hlow : (read32 m a).toNat < 2 ^ 32 := BitVec.isLt _
  have hval : (read64 m a).toNat = (read32 m (a + 4)).toNat * 2 ^ 32 + (read32 m a).toNat := by
    unfold read64
    rw [BitVec.toNat_append, ← Nat.shiftLeft_add_eq_or_of_lt hlow, Nat.shiftLeft_eq]
  have hwide : ((read32 m a).setWidth 64).toNat = (read32 m a).toNat := by
    rw [BitVec.toNat_setWidth, Nat.mod_eq_of_lt (by omega)]
  constructor
  · intro h
    apply BitVec.eq_of_toNat_eq
    rw [← h, hwide] at hval
    show _ = 0
    omega
  · intro h
    have hzero : (read32 m (a + 4)).toNat = 0 := by
      rw [h]
      rfl
    apply BitVec.eq_of_toNat_eq
    rw [hval, hwide, hzero]
    omega

theorem setV_agree_iff {c : Core} {r : Reg} {e : BitVec 128} : (c.setV r e).v = c.v ↔ c.v r = e := by
  unfold Core.setV
  rw [Function.update_eq_self_iff, eq_comm]

theorem loadLit_agree_iff {k : LitKind} {c : Core} {r : Reg} {a : Addr}
    (hk : k ≠ .sw ∧ k ≠ .prfm ∧ k ≠ .q) :
    AgreeOff {17} ∅ (c.loadLit k r a) (relocatedLit c r a) ↔ LoadsAlike k c r a := by
  have hwrite : ∀ e, AgreeOff {17} ∅ (c.setReg r e) (relocatedLit c r a) ↔
      r = 31 ∨ r = 17 ∨ e = read64 c.mem a := by
    intro e
    rw [relocatedLit_agree_iff (fun s hs => Core.reg_setReg_of_ne c e hs) (by simp) (by simp)
      (by simp), Core.setReg_v]
    by_cases h31 : r = 31
    · simp [h31]
    · rw [Core.reg_setReg_self c e h31]
      simp
  have hvector : ∀ e, AgreeOff {17} ∅ (c.setV r e) (relocatedLit c r a) ↔
      c.v r = e ∧ (r = 31 ∨ r = 17 ∨ c.reg r = read64 c.mem a) := by
    intro e
    have hiff := relocatedLit_agree_iff (c := c) (e := c.setV r e) (a := a) (r := r)
      (fun s _ => rfl) rfl rfl rfl
    rwa [setV_agree_iff] at hiff
  unfold Core.loadLit LoadsAlike
  cases k with
  | w => rw [hwrite, setWidth_eq_read64_iff]
  | x => exact iff_of_true ((hwrite _).2 (Or.inr (Or.inr rfl))) trivial
  | s => exact hvector _
  | d => exact hvector _
  | sw => exact absurd rfl hk.1
  | prfm => exact absurd rfl hk.2.1
  | q => exact absurd rfl hk.2.2

/-- **A relocated load of a literal**, into a `W`, `X`, `S` or `D` register, always loads 64 bits into a
general register, so that it does what the load did exactly where `LoadsAlike` holds. -/
theorem literal_load_exact {k : LitKind} (hgen : genRelocateCodeAndBranch A ws = some F)
    (hsmall : F.buffer.length < 2 ^ 18) (hw : ws[i]? = some w)
    (hclass : classOf (top w) = .ldrLit k) (hR : Holds d.mem R F.buffer) :
    ∃ e e', execute other (decode w) (wordAddr A i) d = some (e, .next) ∧
      Reaches other ⟨d, wordAddr R (place A ws i)⟩ ⟨e', wordAddr R (place A ws (i + 1))⟩ ∧
      (AgreeOff {17} ∅ e e' ↔ LoadsAlike k d (rd w) (wordAddr A i + wordOffset (imm19 w))) := by
  have hlit : ∀ t, classOf t = .ldrLit k → t &&& 0x3B = 0x18 ∧
      (t.getLsbD 7 = true ∨ k ≠ .sw ∧ k ≠ .prfm ∧ k ≠ .q) := by
    cases k <;> decide +kernel
  obtain ⟨htop, hk⟩ := hlit _ hclass
  have himpl : ¬ Unimplemented w := by
    intro hun
    have hnone := (genRelocate_none_iff A ws).2 ⟨w, List.mem_of_getElem? hw, hun⟩
    rw [hgen] at hnone
    cases hnone
  have hkind := hk.resolve_left fun h7 => himpl ⟨htop, h7⟩
  refine ⟨_, _, ?_, run_literal hgen hsmall hw htop hR, loadLit_agree_iff hkind⟩
  rw [decode, hclass]
  rfl

/-- `ldr w1, #8`. -/
theorem literal_load_exact_word : ∃ F d e e',
    genRelocateCodeAndBranch 0x1000 [0x18000041] = some F ∧
      execute (fun _ _ => none) (decode 0x18000041) (wordAddr 0x1000 0) d = some (e, .next) ∧
      Reaches (fun _ _ => none) ⟨d, wordAddr 0x8000 (place 0x1000 [0x18000041] 0)⟩
        ⟨e', wordAddr 0x8000 (place 0x1000 [0x18000041] (0 + 1))⟩ ∧
      (AgreeOff {17} ∅ e e' ↔
        LoadsAlike .w d (rd 0x18000041) (wordAddr 0x1000 0 + wordOffset (imm19 0x18000041))) := by
  have hlen : (genRelocateCodeAndBranch 0x1000 [0x18000041]).map
      (fun F => F.buffer.length) = some 9 := by decide
  obtain ⟨F, hgen, hF⟩ := Option.map_eq_some_iff.1 hlen
  have hR : Holds (store (fun _ => 0) 0x8000 (F.buffer.flatMap bytesOf)) 0x8000 F.buffer :=
    holds_store _ _ (by rw [hF]; decide)
  generalize store _ _ _ = m at hR
  obtain ⟨e, e', hload⟩ := literal_load_exact (k := .w) (d := .start m) hgen (hF ▸ by decide)
    (i := 0) rfl (by decide) hR
  exact ⟨F, .start m, e, e', hgen, hload⟩

/-! ### Conditions -/

/-- **A relocated conditional branch** branches where its condition holds, unless it is one of the two
conditions that always hold: then it never does. -/
theorem relocated_bcond (hgen : genRelocateCodeAndBranch A ws = some F)
    (hsmall : F.buffer.length < 2 ^ 18) (hw : ws[i]? = some w) (hclass : classOf (top w) = .bcond)
    (hR : Holds d.mem R F.buffer) :
    ∃ t, execute other (decode w) (wordAddr A i) d =
        some (d, branchIf (condHolds (w.extractLsb' 0 4) d.nzcv) t) ∧
      Reaches other ⟨d, wordAddr R (place A ws i)⟩
        (if w.extractLsb' 0 4 < 14 ∧ condHolds (w.extractLsb' 0 4) d.nzcv then ⟨d.setReg 17 t, t⟩
        else ⟨d, wordAddr R (place A ws (i + 1))⟩) := by
  obtain ⟨p, hpiece, hplaced, hnext⟩ := placed_piece hgen hsmall hw
  obtain rfl := Option.some.inj ((piece_bcond hclass).symm.trans hpiece)
  have hexec : execute other (decode (invertConditionalBranch w)) (wordAddr R (place A ws i)) d =
      some (d, branchIf (!(decide (w.extractLsb' 0 4 < 14) && condHolds (w.extractLsb' 0 4) d.nzcv))
        (wordAddr R (place A ws i + 3))) := by
    rw [decode_invertConditionalBranch hclass]
    show some (d, branchIf (condHolds _ _) (wordAddr R _ + wordOffset (3 : BitVec 19))) = _
    rw [skip_target (by decide) (by decide), condHolds_invert]
    split_ifs with hcond
    · rw [decide_eq_true hcond, Bool.true_and]
    · rw [decide_eq_false hcond, Bool.false_and, Bool.not_false]
  have hrun := run_conditional hR hsmall hplaced hexec
  refine ⟨_, by rw [decode, hclass]; rfl, ?_⟩
  rw [hnext, show (conditionalPiece _ _).words.length = 3 from rfl]
  simpa only [Bool.and_eq_true, decide_eq_true_eq] using hrun

/-- `b.al #8`. -/
theorem relocated_bcond_always : ∃ F d t, genRelocateCodeAndBranch 0x1000 [0x5400004E] = some F ∧
    execute (fun _ _ => none) (decode 0x5400004E) (wordAddr 0x1000 0) d = some (d, .jump t) ∧
      Reaches (fun _ _ => none) ⟨d, wordAddr 0x8000 (place 0x1000 [0x5400004E] 0)⟩
        ⟨d, wordAddr 0x8000 (place 0x1000 [0x5400004E] (0 + 1))⟩ := by
  have hlen : (genRelocateCodeAndBranch 0x1000 [0x5400004E]).map
      (fun F => F.buffer.length) = some 9 := by decide
  obtain ⟨F, hgen, hF⟩ := Option.map_eq_some_iff.1 hlen
  have hR : Holds (store (fun _ => 0) 0x8000 (F.buffer.flatMap bytesOf)) 0x8000 F.buffer :=
    holds_store _ _ (by rw [hF]; decide)
  generalize store _ _ _ = m at hR
  obtain ⟨t, hjump, hrun⟩ := relocated_bcond (d := .start m) hgen (hF ▸ by decide) (i := 0) rfl
    (by decide) hR
  exact ⟨F, .start m, t, hgen, hjump, hrun⟩

end exact

end Il2CppDumper.Dobby
