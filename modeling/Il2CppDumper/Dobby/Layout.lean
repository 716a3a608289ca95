import Il2CppDumper.Dobby.Encoding

/-!
# The relocated code, word by word

An instruction becomes a `Piece`: its words, and where one of them loads a label, what it is to load.
`genRelocateCodeAndBranch_eq` gives the finished buffer by its pieces: the pieces one after the other,
the jump behind the relocated instructions, and the labels' doublewords, where each load of a label
has the distance of its own doubleword (`Linked`).
-/

namespace Il2CppDumper.Dobby

open Arm64

/-! ### Pieces -/

/-- The words an instruction becomes, and the place in them of the load of a label with the
doubleword that it loads. -/
structure Piece where
  words : List Word
  link : Option (Nat × Addr)
  deriving DecidableEq

/-- An inverted branch over a jump. -/
def conditionalPiece (branchInstr : Word) (branchAddress : Addr) : Piece :=
  ⟨[branchInstr, pendingWord, brWord TMP_REG_0], some (1, branchAddress)⟩

/-- What the word at `pc` becomes, if it is implemented. -/
def piece (pc : Addr) (w : Word) : Option Piece :=
  if top w &&& 0x3B = 0x18 then
    let load := movWords 17 (pc + wordOffset (imm19 w))
    if (top w).extractLsb' 6 2 = 0 then some ⟨load ++ [ldrWord (W (rd w))], none⟩
    else if (top w).extractLsb' 6 2 = 1 then some ⟨load ++ [ldrWord (X (rd w))], none⟩
    else none
  else if top w &&& 0x1F = 0x10 then
    let runtimeAddress :=
      if top w &&& 0x9F = 0x10 then pc + (imm21 w).signExtend 64
      else page pc + (imm21 w).signExtend 64 <<< 12
    some ⟨movWords (rd w) runtimeAddress, none⟩
  else if top w &&& 0x7C = 0x14 then
    let jump := if top w &&& 0xFC = 0x94 then blrWord TMP_REG_0 else brWord TMP_REG_0
    some ⟨[pendingWord, jump], some (0, pc + wordOffset (imm26 w))⟩
  else if top w &&& 0x7E = 0x36 then
    some (conditionalPiece (invertTestBranch w) (pc + wordOffset (imm14 w)))
  else if top w &&& 0x7E = 0x34 then
    some (conditionalPiece (invertCompareBranch w) (pc + wordOffset (imm19 w)))
  else if top w &&& 0xFE = 0x54 then
    some (conditionalPiece (invertConditionalBranch w) (pc + wordOffset (imm19 w)))
  else some ⟨[w], none⟩

def pieces : Addr → List Word → Option (List Piece)
  | _, [] => some []
  | pc, w :: ws =>
    match piece pc w with
    | none => none
    | some p => (pieces (pc + 4) ws).map (p :: ·)

/-- The loads of labels in pieces from position `n` on, each with the doubleword it loads. -/
def links : Nat → List Piece → List (Nat × Addr)
  | _, [] => []
  | n, p :: ps =>
    (p.link.map fun l => (n + l.1, l.2)).toList ++ links (n + p.words.length) ps

/-- The label of a load at position `l.1`. -/
def entryOf (l : Nat × Addr) : RelocLabelEntry := ⟨⟨0, [4 * l.1]⟩, l.2⟩

def TurboAssembler.append (a : TurboAssembler) (p : Piece) : TurboAssembler where
  buffer := ⟨a.buffer.buffer ++ p.words⟩
  dataLabels := a.dataLabels ++
    ((p.link.map fun l => (a.buffer.buffer.length + l.1, l.2)).toList.map entryOf)

theorem append_plain (a : TurboAssembler) (ws : List Word) :
    a.append ⟨ws, none⟩ = ⟨⟨a.buffer.buffer ++ ws⟩, a.dataLabels⟩ := by
  unfold TurboAssembler.append
  simp

theorem emitInst_eq (b : CodeBuffer) (w : Word) : b.emitInst w = ⟨b.buffer ++ [w]⟩ := rfl

theorem ldr_unused (b : CodeBuffer) :
    PseudoLabel.unused.ldr b TMP_REG_0 =
      (⟨0, [4 * b.buffer.length]⟩, ⟨b.buffer ++ [pendingWord]⟩) := rfl

/-- A load of the label that was appended last. -/
theorem ldrReloc_append (b : CodeBuffer) (ls : List RelocLabelEntry) (d : Addr) :
    TurboAssembler.ldrReloc ⟨b, ls ++ [⟨.unused, d⟩]⟩ TMP_REG_0 ls.length =
      ⟨⟨b.buffer ++ [pendingWord]⟩, ls ++ [entryOf (b.buffer.length, d)]⟩ := by
  unfold TurboAssembler.ldrReloc
  have hget : (ls ++ [(⟨.unused, d⟩ : RelocLabelEntry)])[ls.length]? = some ⟨.unused, d⟩ := by
    rw [List.getElem?_append_right (Nat.le_refl _), Nat.sub_self]
    rfl
  simp only [hget, ldr_unused]
  congr 1
  rw [List.set_append_right _ _ (Nat.le_refl _), Nat.sub_self]
  rfl

theorem relocateConditional_eq (a : TurboAssembler) (t : Addr) (w : Word) :
    a.relocateConditional t w = a.append (conditionalPiece w t) := by
  unfold TurboAssembler.relocateConditional TurboAssembler.appendRelocLabelEntry
    TurboAssembler.code TurboAssembler.append conditionalPiece
  simp only [ldrReloc_append, emitInst_eq, CodeBuffer.br]
  simp [brWord]

theorem relocateBranch_eq (a : TurboAssembler) (pc : Addr) (w : Word) :
    a.relocateBranch pc w = a.append
      ⟨[pendingWord, if top w &&& 0xFC = 0x94 then blrWord TMP_REG_0 else brWord TMP_REG_0],
        some (0, pc + wordOffset (imm26 w))⟩ := by
  unfold TurboAssembler.relocateBranch TurboAssembler.appendRelocLabelEntry
    TurboAssembler.code TurboAssembler.append
  simp only [ldrReloc_append, isBL_iff, decodeImm26Offset_eq, BitVec.add_comm _ pc]
  split_ifs <;> simp [emitInst_eq, CodeBuffer.br, CodeBuffer.blr, brWord, blrWord]

theorem relocatePCRel_eq (a : TurboAssembler) (pc : Addr) (w : Word) :
    a.relocatePCRel pc w = a.append
      ⟨movWords (rd w) (if top w &&& 0x9F = 0x10 then pc + (imm21 w).signExtend 64
        else page pc + (imm21 w).signExtend 64 <<< 12), none⟩ := by
  unfold TurboAssembler.relocatePCRel TurboAssembler.code
  simp only [append_plain, isADR_iff, decodeImmhiImmloZero12Offset, decodeImmhiImmloOffset_eq,
    decodeRd_eq]
  congr 1
  rw [CodeBuffer.mk.injEq, mov_buffer]
  rfl

theorem relocateLdrLiteral_eq (a : TurboAssembler) (pc : Addr) (w : Word) :
    a.relocateLdrLiteral pc w =
      if (top w).extractLsb' 6 2 = 0 then some (a.append
        ⟨movWords 17 (pc + wordOffset (imm19 w)) ++ [ldrWord (W (rd w))], none⟩)
      else if (top w).extractLsb' 6 2 = 1 then some (a.append
        ⟨movWords 17 (pc + wordOffset (imm19 w)) ++ [ldrWord (X (rd w))], none⟩)
      else none := by
  have hopc : ∀ v : BitVec 2, bits w 30 31 = v.setWidth 32 ↔ (top w).extractLsb' 6 2 = v := by
    intro v
    have hslice : bits w 30 31 = ((top w).extractLsb' 6 2).setWidth 32 := by
      rw [bits_eq_slice w (by decide) (by decide)]
      congr 1
      apply BitVec.eq_of_getLsbD_eq
      intro i hi
      simp [top, hi, show 6 + i < 8 by omega, show 24 + (6 + i) = 30 + i by omega]
    rw [hslice]
    constructor
    · intro h
      have htrunc := congrArg (fun u : Word => u.setWidth 2) h
      simpa using htrunc
    · intro h
      rw [h]
  have hmov : ∀ (b : CodeBuffer) (imm : BitVec 64) (rt : CPURegister),
      (b.mov TMP_REG_0 imm).ldr rt TMP_REG_0 0 = ⟨b.buffer ++ (movWords 17 imm ++ [ldrWord rt])⟩ := by
    intro b imm rt
    rw [← List.append_assoc, CodeBuffer.mk.injEq, ldr_buffer]
    congr 1
    exact mov_buffer b 17 imm
  have hzero : bits w 30 31 = 0 ↔ (top w).extractLsb' 6 2 = 0 := hopc 0
  have hone : bits w 30 31 = 1 ↔ (top w).extractLsb' 6 2 = 1 := hopc 1
  unfold TurboAssembler.relocateLdrLiteral TurboAssembler.code
  simp only [append_plain, decodeRt_eq, decodeImm19Offset_eq, BitVec.add_comm _ pc, hmov, hzero,
    hone]

theorem relocateInstr_eq (a : TurboAssembler) (pc : Addr) (w : Word) :
    a.relocateInstr pc w = (piece pc w).map a.append := by
  unfold TurboAssembler.relocateInstr piece
  simp only [isLdrLiteral_iff, isPCRel_iff, isBranch_iff, isTestBranch_iff, isCompareBranch_iff,
    isConditionalBranch_iff, relocateLdrLiteral_eq, relocatePCRel_eq, relocateBranch_eq,
    relocateConditional_eq, decodeImm14Offset_eq, decodeImm19Offset_eq, BitVec.add_comm _ pc]
  split_ifs <;> first | rfl | skip
  rw [Option.map_some, append_plain]
  rfl

theorem links_append (n : Nat) (ps qs : List Piece) :
    links n (ps ++ qs) = links n ps ++ links (n + (ps.flatMap Piece.words).length) qs := by
  induction ps generalizing n with
  | nil => rfl
  | cons p ps ih =>
    rw [List.cons_append, links, links, ih, List.flatMap_cons, List.length_append, Nat.add_assoc,
      List.append_assoc]

theorem relocateInstrs_eq (a : TurboAssembler) (pc : Addr) (ws : List Word) :
    a.relocateInstrs pc ws = (pieces pc ws).map fun ps =>
      ⟨⟨a.buffer.buffer ++ ps.flatMap Piece.words⟩,
        a.dataLabels ++ (links a.buffer.buffer.length ps).map entryOf⟩ := by
  induction ws generalizing a pc with
  | nil =>
    rw [TurboAssembler.relocateInstrs, pieces, Option.map_some]
    simp [links]
  | cons w ws ih =>
    rw [TurboAssembler.relocateInstrs, relocateInstr_eq, pieces]
    rcases piece pc w with _ | p
    · rfl
    · simp only [Option.map_some]
      rw [ih, Option.map_map]
      congr 1
      funext ps
      simp [TurboAssembler.append, links]

/-- A piece whose link is at a pending load. -/
def Piece.WellLinked (p : Piece) : Prop :=
  ∀ k d, p.link = some (k, d) → p.words[k]? = some pendingWord

theorem piece_wellLinked {pc : Addr} {w : Word} {p : Piece} (h : piece pc w = some p) :
    p.WellLinked := by
  unfold piece conditionalPiece at h
  split_ifs at h
  all_goals
    obtain rfl := Option.some.inj h
    intro k d hlink
    cases hlink
    try rfl

theorem pieces_wellLinked {pc : Addr} {ws : List Word} {ps : List Piece}
    (h : pieces pc ws = some ps) : ∀ p ∈ ps, p.WellLinked := by
  induction ws generalizing pc ps with
  | nil =>
    obtain rfl := Option.some.inj h
    intro p hp
    cases hp
  | cons w ws ih =>
    rw [pieces] at h
    split at h
    · cases h
    · rename_i p hp
      obtain ⟨qs, hqs, rfl⟩ := Option.map_eq_some_iff.1 h
      intro q hq
      rcases List.mem_cons.1 hq with rfl | hq
      · exact piece_wellLinked hp
      · exact ih hqs q hq

theorem links_pending {n : Nat} {ps : List Piece} (h : ∀ p ∈ ps, p.WellLinked) :
    ∀ l ∈ links n ps, n ≤ l.1 ∧ (ps.flatMap Piece.words)[l.1 - n]? = some pendingWord := by
  induction ps generalizing n with
  | nil =>
    intro l hl
    cases hl
  | cons p ps ih =>
    intro l hl
    rw [links, List.mem_append, Option.mem_toList, Option.map_eq_some_iff] at hl
    rw [List.flatMap_cons]
    rcases hl with ⟨⟨k, d⟩, hk, rfl⟩ | hl
    · have hword := h p List.mem_cons_self k d hk
      have hlt := (List.getElem?_eq_some_iff.1 hword).1
      refine ⟨Nat.le_add_right n k, ?_⟩
      show (p.words ++ _)[n + k - n]? = _
      rw [Nat.add_sub_cancel_left, List.getElem?_append_left hlt, hword]
    · obtain ⟨hle, hword⟩ := ih (fun q hq => h q (List.mem_cons_of_mem p hq)) l hl
      refine ⟨by omega, ?_⟩
      rw [List.getElem?_append_right (by omega), ← hword]
      congr 1
      omega

theorem links_zero_pending {ps : List Piece} (h : ∀ p ∈ ps, p.WellLinked) (ws : List Word) :
    ∀ l ∈ links 0 ps, (ps.flatMap Piece.words ++ ws)[l.1]? = some pendingWord := by
  intro l hl
  have hpend := (links_pending h l hl).2
  rw [Nat.sub_zero] at hpend
  rw [List.getElem?_append_left (List.getElem?_eq_some_iff.1 hpend).1, hpend]

theorem links_nodup {n : Nat} {ps : List Piece} (h : ∀ p ∈ ps, p.WellLinked) :
    ((links n ps).map Prod.fst).Nodup := by
  induction ps generalizing n with
  | nil => exact List.nodup_nil
  | cons p ps ih =>
    have htail : ∀ q ∈ ps, q.WellLinked := fun q hq => h q (List.mem_cons_of_mem p hq)
    rw [links, List.map_append, List.nodup_append]
    refine ⟨?_, ih htail, ?_⟩
    · rcases p.link with _ | l
      · exact List.nodup_nil
      · exact List.nodup_singleton _
    · rintro _ hx y hy rfl
      obtain ⟨l, hl, rfl⟩ := List.mem_map.1 hx
      obtain ⟨l', hl', heq⟩ := List.mem_map.1 hy
      rw [Option.mem_toList, Option.map_eq_some_iff] at hl
      obtain ⟨⟨k, d⟩, hk, rfl⟩ := hl
      have hlt := (List.getElem?_eq_some_iff.1 (h p List.mem_cons_self k d hk)).1
      have hle := (links_pending htail l' hl').1
      simp only at heq
      omega

/-! ### Bound labels -/

/-- The word of a bound label `k` words further on. -/
theorem linkWord_pending {l : PseudoLabel} {position k : Nat} (h : l.pos - position = (4 * k : Nat))
    (hk : k < 2 ^ 29) : l.linkWord position pendingWord = literalWord (BitVec.ofNat 19 k) := by
  have hshift : (BitVec.ofNat 32 (4 * k)).sshiftRight 2 = BitVec.ofNat 32 k := by
    have hmsb : (BitVec.ofNat 32 (4 * k)).msb = false := by
      rw [BitVec.msb_eq_false_iff_two_mul_lt, BitVec.toNat_ofNat, Nat.mod_eq_of_lt (by omega)]
      omega
    apply BitVec.eq_of_toNat_eq
    rw [BitVec.sshiftRight_eq_of_msb_false hmsb, BitVec.toNat_ushiftRight, BitVec.toNat_ofNat,
      BitVec.toNat_ofNat, Nat.mod_eq_of_lt (by omega), Nat.mod_eq_of_lt (by omega),
      Nat.shiftRight_eq_div_pow]
    omega
  have hfield : leftShift (BitVec.ofNat 32 k) 19 5 = (BitVec.ofNat 19 k).setWidth 32 <<< 5 := by
    unfold leftShift
    congr 1
    apply BitVec.eq_of_getLsbD_eq
    intro i hi
    rw [BitVec.getLsbD_and, getLsbD_mask (by decide), BitVec.getLsbD_setWidth, BitVec.getLsbD_ofNat,
      BitVec.getLsbD_ofNat, decide_eq_true hi, Bool.true_and, Bool.true_and, Bool.and_comm]
  unfold PseudoLabel.linkWord
  simp only [h, BitVec.ofInt_natCast, hshift, hfield]
  rfl

/-- Binding the label of a pending load at word `p`, behind all words. -/
theorem relocBindEntry_eq {b : List Word} {p : Nat} (d : Addr) (hp : b[p]? = some pendingWord)
    (hlen : b.length < 2 ^ 29) :
    TurboAssembler.relocBindEntry ⟨b⟩ (entryOf (p, d)) =
      ⟨b.set p (literalWord (BitVec.ofNat 19 (b.length - p))) ++ wordsOf d⟩ := by
  have hlt : p < b.length := (List.getElem?_eq_some_iff.1 hp).1
  have hload : CodeBuffer.loadInst ⟨b⟩ (4 * p) = pendingWord := by
    unfold CodeBuffer.loadInst
    rw [Nat.mul_div_cancel_left p (by decide), List.getD_eq_getElem?_getD, hp, Option.getD_some]
  have hlabel : (entryOf (p, d)).label.bindTo (CodeBuffer.getSize ⟨b⟩) =
      ⟨-(4 * b.length : Nat) - 1, [4 * p]⟩ := rfl
  have hpos : PseudoLabel.pos ⟨-(4 * b.length : Nat) - 1, [4 * p]⟩ - (4 * p : Nat) =
      (4 * (b.length - p) : Nat) := by
    unfold PseudoLabel.pos
    rw [if_pos (by show (-((4 * b.length : Nat) : Int) - 1) < 0; omega)]
    show -(-((4 * b.length : Nat) : Int) - 1) - 1 - ((4 * p : Nat) : Int) = _
    omega
  unfold TurboAssembler.relocBindEntry PseudoLabel.pseudoBind
  rw [hlabel]
  unfold PseudoLabel.linkConfusedInstructions CodeBuffer.fixBindLabel CodeBuffer.emit64
  simp only [List.foldl_cons, List.foldl_nil, hload, linkWord_pending hpos (by omega),
    Nat.mul_div_cancel_left p (show 0 < 4 by decide), reduceCtorEq, if_false]
  rfl

/-- In `F` the word `p` loads the doubleword `d`, which lies at word `q`. -/
structure Linked (F : List Word) (p : Nat) (d : Addr) (q : Nat) : Prop where
  load : F[p]? = some (literalWord (BitVec.ofNat 19 (q - p)))
  low : F[q]? = some (d.extractLsb' 0 32)
  high : F[q + 1]? = some (d.extractLsb' 32 32)
  before : p < q

/-- The buffer after `RelocBind` of the loads `ls`. -/
def bindAll (b : List Word) (ls : List (Nat × Addr)) : List Word :=
  ((ls.map entryOf).foldl TurboAssembler.relocBindEntry ⟨b⟩).buffer

theorem bindAll_cons {b : List Word} {p : Nat} {d : Addr} (ls : List (Nat × Addr))
    (hp : b[p]? = some pendingWord) (hlen : b.length < 2 ^ 29) :
    bindAll b ((p, d) :: ls) =
      bindAll (b.set p (literalWord (BitVec.ofNat 19 (b.length - p))) ++ wordsOf d) ls := by
  unfold bindAll
  rw [List.map_cons, List.foldl_cons, relocBindEntry_eq d hp hlen]

theorem length_bindAll (b : List Word) (ls : List (Nat × Addr)) :
    (bindAll b ls).length = b.length + 2 * ls.length := by
  unfold bindAll
  induction ls generalizing b with
  | nil => rfl
  | cons l ls ih =>
    have hentry : (TurboAssembler.relocBindEntry ⟨b⟩ (entryOf l)).buffer.length = b.length + 2 := by
      unfold TurboAssembler.relocBindEntry PseudoLabel.pseudoBind
        PseudoLabel.linkConfusedInstructions CodeBuffer.fixBindLabel CodeBuffer.emit64
      simp [entryOf, PseudoLabel.bindTo, wordsOf]
    rw [List.map_cons, List.foldl_cons, ih, hentry, List.length_cons]
    omega

/-- What binding leaves alone, and what it links. -/
theorem bindAll_spec {b : List Word} {ls : List (Nat × Addr)} (hnodup : (ls.map Prod.fst).Nodup)
    (hpending : ∀ l ∈ ls, b[l.1]? = some pendingWord) (hlen : b.length + 2 * ls.length < 2 ^ 29) :
    (∀ q < b.length, q ∉ ls.map Prod.fst → (bindAll b ls)[q]? = b[q]?) ∧
      ∀ l ∈ ls, ∃ q, Linked (bindAll b ls) l.1 l.2 q := by
  induction ls generalizing b with
  | nil => exact ⟨fun _ _ _ => rfl, fun l hl => absurd hl List.not_mem_nil⟩
  | cons l ls ih =>
    obtain ⟨p, d⟩ := l
    rw [List.length_cons] at hlen
    rw [List.map_cons, List.nodup_cons] at hnodup
    have hp : b[p]? = some pendingWord := hpending _ List.mem_cons_self
    have hlt : p < b.length := (List.getElem?_eq_some_iff.1 hp).1
    rw [bindAll_cons ls hp (by omega)]
    generalize hb' : b.set p (literalWord (BitVec.ofNat 19 (b.length - p))) ++ wordsOf d = b'
    have hlen' : b'.length = b.length + 2 := by
      rw [← hb', List.length_append, List.length_set]
      rfl
    have hold : ∀ q < b.length, q ≠ p → b'[q]? = b[q]? := by
      intro q hq hqp
      rw [← hb', List.getElem?_append_left (by rwa [List.length_set]), List.getElem?_set_ne hqp.symm]
    have hdata : ∀ i, b'[b.length + i]? = (wordsOf d)[i]? := by
      intro i
      rw [← hb', List.getElem?_append_right (by rw [List.length_set]; omega), List.length_set,
        Nat.add_sub_cancel_left]
    have hnew : b'[p]? = some (literalWord (BitVec.ofNat 19 (b.length - p))) := by
      rw [← hb', List.getElem?_append_left (by rwa [List.length_set]), List.getElem?_set_self hlt]
    have hpending' : ∀ l ∈ ls, b'[l.1]? = some pendingWord := by
      intro l hl
      have hpl := hpending l (List.mem_cons_of_mem _ hl)
      rw [hold l.1 (List.getElem?_eq_some_iff.1 hpl).1, hpl]
      exact fun heq => hnodup.1 (List.mem_map.2 ⟨l, hl, heq⟩)
    have hnot : ∀ q, b.length ≤ q → q ∉ ls.map Prod.fst := by
      intro q hq hmem
      obtain ⟨l, hl, rfl⟩ := List.mem_map.1 hmem
      have := (List.getElem?_eq_some_iff.1 (hpending l (List.mem_cons_of_mem _ hl))).1
      omega
    obtain ⟨hsame, hlinks⟩ := ih hnodup.2 hpending' (by omega)
    refine ⟨?_, ?_⟩
    · intro q hq hmem
      rw [List.map_cons, List.mem_cons, not_or] at hmem
      rw [hsame q (by omega) hmem.2, hold q hq hmem.1]
    · intro l hl
      rcases List.mem_cons.1 hl with rfl | hl
      · refine ⟨b.length, ?_, ?_, ?_, hlt⟩
        · rw [hsame p (by omega) hnodup.1, hnew]
        · rw [hsame _ (by omega) (hnot _ (Nat.le_refl _))]
          exact hdata 0
        · rw [hsame _ (by omega) (hnot _ (Nat.le_succ _))]
          exact hdata 1
      · exact hlinks l hl

/-! ### The finished buffer -/

/-- The jump to `address` that `LiteralLdrBranch` writes. -/
def literalBranchWords (address : Addr) : List Word :=
  [literalWord 2, brWord TMP_REG_0] ++ wordsOf address

theorem literalLdrBranch_eq (a : TurboAssembler) (address : Addr) :
    literalLdrBranch a address =
      ⟨⟨a.buffer.buffer ++ literalBranchWords address⟩, a.dataLabels⟩ := by
  obtain ⟨⟨b⟩, ls⟩ := a
  have hload : CodeBuffer.loadInst ⟨b ++ [pendingWord] ++ [brWord TMP_REG_0]⟩ (4 * b.length) =
      pendingWord := by
    unfold CodeBuffer.loadInst
    rw [Nat.mul_div_cancel_left _ (by decide)]
    simp
  have hlink : PseudoLabel.linkWord ⟨-(4 * (b.length + 2) : Nat) - 1, [4 * b.length]⟩
      (4 * b.length) pendingWord = literalWord 2 := by
    apply linkWord_pending (k := 2) _ (by decide)
    unfold PseudoLabel.pos
    rw [if_pos (by show (-((4 * (b.length + 2) : Nat) : Int) - 1) < 0; omega)]
    show -(-((4 * (b.length + 2) : Nat) : Int) - 1) - 1 - ((4 * b.length : Nat) : Int) = _
    omega
  have hsize : CodeBuffer.getSize ⟨b ++ [pendingWord] ++ [brWord TMP_REG_0]⟩ =
      4 * (b.length + 2) := by
    unfold CodeBuffer.getSize
    simp
  unfold literalLdrBranch TurboAssembler.code
  simp only [ldr_unused, CodeBuffer.br, emitInst_eq]
  rw [show BR ||| Rn TMP_REG_0 = brWord TMP_REG_0 from rfl]
  unfold PseudoLabel.pseudoBind PseudoLabel.linkConfusedInstructions PseudoLabel.bindTo
  simp only [List.foldl_cons, List.foldl_nil, hsize, hload, hlink, reduceCtorEq, if_false,
    CodeBuffer.fixBindLabel, CodeBuffer.emit64, Nat.mul_div_cancel_left b.length (show 0 < 4 by decide)]
  simp [literalBranchWords, List.set_append_right]

/-- The words that `GenRelocateCodeAndBranch` makes of pieces, with the jump to `rest` behind. -/
def finish (ps : List Piece) (rest : Addr) : List Word :=
  bindAll (ps.flatMap Piece.words ++ literalBranchWords rest) (links 0 ps)

theorem genRelocateCodeAndBranch_eq (origin : Addr) (ws : List Word) :
    genRelocateCodeAndBranch origin ws =
      (pieces origin ws).map fun ps => ⟨finish ps (wordAddr origin ws.length)⟩ := by
  unfold genRelocateCodeAndBranch
  rw [relocateInstrs_eq]
  rcases pieces origin ws with _ | ps
  · rfl
  · simp only [Option.map_some, literalLdrBranch_eq]
    congr 1

def offset (ps : List Piece) (i : Nat) : Nat := ((ps.take i).flatMap Piece.words).length

theorem offset_succ {ps : List Piece} {i : Nat} {p : Piece} (hp : ps[i]? = some p) :
    offset ps (i + 1) = offset ps i + p.words.length := by
  unfold offset
  rw [List.take_add_one, hp, List.flatMap_append, List.length_append]
  simp

/-- How many words the first `i` instructions become, so that the next begins there. -/
def place (origin : Addr) (instrs : List Word) (i : Nat) : Nat :=
  match TurboAssembler.empty.relocateInstrs origin (instrs.take i) with
  | none => 0
  | some a => a.buffer.buffer.length

theorem pieces_take {pc : Addr} {ws : List Word} {ps : List Piece} (h : pieces pc ws = some ps)
    (i : Nat) : pieces pc (ws.take i) = some (ps.take i) := by
  induction i generalizing pc ws ps with
  | zero => rw [List.take_zero, List.take_zero, pieces]
  | succ i ih =>
    cases ws with
    | nil =>
      obtain rfl := Option.some.inj h
      rfl
    | cons w ws =>
      rw [pieces] at h
      split at h
      · cases h
      · rename_i p hp
        obtain ⟨qs, hqs, rfl⟩ := Option.map_eq_some_iff.1 h
        rw [List.take_succ_cons, List.take_succ_cons, pieces, hp, ih hqs]
        rfl

theorem place_eq {pc : Addr} {ws : List Word} {ps : List Piece} (h : pieces pc ws = some ps)
    (i : Nat) : place pc ws i = offset ps i := by
  unfold place offset
  rw [relocateInstrs_eq, pieces_take h]
  rfl

/-- The piece `p` lies at `off` in `F`, with its link bound. -/
structure Placed (F : List Word) (off : Nat) (p : Piece) : Prop where
  plain : ∀ j w, p.words[j]? = some w → (∀ l, p.link = some l → l.1 ≠ j) → F[off + j]? = some w
  linked : ∀ k d, p.link = some (k, d) → ∃ q, Linked F (off + k) d q

section finish
variable {ps : List Piece} {rest : Addr}

theorem finish_plain (hwell : ∀ p ∈ ps, p.WellLinked) (hsmall : (finish ps rest).length < 2 ^ 18)
    {q : Nat} {w : Word} (hw : (ps.flatMap Piece.words ++ literalBranchWords rest)[q]? = some w)
    (hq : ∀ l ∈ links 0 ps, l.1 ≠ q) : (finish ps rest)[q]? = some w := by
  unfold finish at hsmall ⊢
  rw [length_bindAll] at hsmall
  obtain ⟨hsame, -⟩ :=
    bindAll_spec (links_nodup hwell) (links_zero_pending hwell (literalBranchWords rest)) (by omega)
  rw [hsame q (List.getElem?_eq_some_iff.1 hw).1, hw]
  intro hmem
  obtain ⟨l, hl, heq⟩ := List.mem_map.1 hmem
  exact hq l hl heq

theorem placed (hwell : ∀ p ∈ ps, p.WellLinked) (hsmall : (finish ps rest).length < 2 ^ 18)
    {i : Nat} {p : Piece} (hp : ps[i]? = some p) : Placed (finish ps rest) (offset ps i) p := by
  obtain ⟨hi, rfl⟩ := List.getElem?_eq_some_iff.1 hp
  have hsplit : ps = ps.take i ++ ps[i] :: ps.drop (i + 1) := by
    rw [List.getElem_cons_drop, List.take_append_drop]
  generalize hx : ps.take i = xs at hsplit
  generalize hy : ps.drop (i + 1) = ys at hsplit
  have hoff : offset ps i = (xs.flatMap Piece.words).length := by rw [← hx]; rfl
  have hwellx : ∀ p ∈ xs, p.WellLinked := fun p hp => hwell p (List.mem_of_mem_take (hx ▸ hp))
  have hwelly : ∀ p ∈ ys, p.WellLinked := fun p hp => hwell p (List.mem_of_mem_drop (hy ▸ hp))
  generalize ps[i] = p at hsplit
  have hlinks : links 0 ps = links 0 xs ++
      ((p.link.map fun l => (offset ps i + l.1, l.2)).toList ++
        links (offset ps i + p.words.length) ys) := by
    conv_lhs => rw [hsplit]
    rw [links_append, links, hoff, Nat.zero_add]
  constructor
  · intro j w hw hj
    have hlt := (List.getElem?_eq_some_iff.1 hw).1
    apply finish_plain hwell hsmall
    · rw [hoff, hsplit, List.flatMap_append, List.flatMap_cons, List.append_assoc,
        List.getElem?_append_right (Nat.le_add_right _ _), Nat.add_sub_cancel_left,
        List.append_assoc, List.getElem?_append_left hlt, hw]
    · intro l hl
      rw [hlinks, List.mem_append, List.mem_append, Option.mem_toList,
        Option.map_eq_some_iff] at hl
      rcases hl with hl | ⟨l, hl, rfl⟩ | hl
      · have hbefore := (List.getElem?_eq_some_iff.1 (links_pending hwellx l hl).2).1
        omega
      · have := hj l hl
        simp only
        omega
      · have hafter := (links_pending hwelly l hl).1
        omega
  · intro k d hlink
    unfold finish at hsmall ⊢
    rw [length_bindAll] at hsmall
    obtain ⟨-, hbound⟩ :=
      bindAll_spec (links_nodup hwell) (links_zero_pending hwell (literalBranchWords rest)) (by omega)
    apply hbound (offset ps i + k, d)
    rw [hlinks, hlink]
    simp

theorem finish_rest (hwell : ∀ p ∈ ps, p.WellLinked) (hsmall : (finish ps rest).length < 2 ^ 18)
    {j : Nat} {w : Word} (hw : (literalBranchWords rest)[j]? = some w) :
    (finish ps rest)[offset ps ps.length + j]? = some w := by
  have hoff : offset ps ps.length = (ps.flatMap Piece.words).length := by
    unfold offset
    rw [List.take_length]
  rw [hoff]
  apply finish_plain hwell hsmall
  · rw [List.getElem?_append_right (Nat.le_add_right _ _), Nat.add_sub_cancel_left, hw]
  · intro l hl
    have hbefore := (List.getElem?_eq_some_iff.1 (links_pending hwell l hl).2).1
    omega

end finish

end Il2CppDumper.Dobby
