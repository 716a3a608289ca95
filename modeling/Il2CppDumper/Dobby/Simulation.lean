import Il2CppDumper.Dobby.Words

/-!
# The relocated code does what the original does

`Carries` says of a word which registers may differ before and after it when it is run in its
relocated form. One instruction: `piece_follows`, one case for each class. A block:
`relocated_leaves`, by induction on the rest of the block.
-/

namespace Il2CppDumper.Dobby

open Arm64

/-! ### The pieces of each class -/

section pieces
variable {pc : Addr} {w : Word}

/-- What the class of a top byte says of the tests that relocation makes on it, and of the byte with
its lowest bit inverted. Of the rest, two bytes that are unallocated pass other tests. -/
structure ClassTests (t : BitVec 8) : Prop where
  ldrLit : classOf t = .ldrLit .x → t = 0x58
  adr : classOf t = .adr → t &&& 0x3B ≠ 0x18 ∧ t &&& 0x1F = 0x10 ∧ t &&& 0x9F = 0x10
  adrp : classOf t = .adrp → t &&& 0x3B ≠ 0x18 ∧ t &&& 0x1F = 0x10 ∧ t &&& 0x9F ≠ 0x10
  b : classOf t = .b →
    t &&& 0x3B ≠ 0x18 ∧ t &&& 0x1F ≠ 0x10 ∧ t &&& 0x7C = 0x14 ∧ t &&& 0xFC ≠ 0x94
  bl : classOf t = .bl →
    t &&& 0x3B ≠ 0x18 ∧ t &&& 0x1F ≠ 0x10 ∧ t &&& 0x7C = 0x14 ∧ t &&& 0xFC = 0x94
  tb : ∀ nz, classOf t = .tb nz →
    t &&& 0x3B ≠ 0x18 ∧ t &&& 0x1F ≠ 0x10 ∧ t &&& 0x7C ≠ 0x14 ∧ t &&& 0x7E = 0x36
  tb_inverted : ∀ nz, classOf t = .tb nz → classOf (t ^^^ 1) = .tb (!nz)
  cb : ∀ sf nz, classOf t = .cb sf nz → t &&& 0x3B ≠ 0x18 ∧ t &&& 0x1F ≠ 0x10 ∧
    t &&& 0x7C ≠ 0x14 ∧ t &&& 0x7E ≠ 0x36 ∧ t &&& 0x7E = 0x34
  cb_inverted : ∀ sf nz, classOf t = .cb sf nz → classOf (t ^^^ 1) = .cb sf (!nz)
  bcond : classOf t = .bcond → t = 0x54
  rest : classOf t = .rest → t ≠ 0x55 → t ≠ 0xDC → t &&& 0x3B ≠ 0x18 ∧ t &&& 0x1F ≠ 0x10 ∧
    t &&& 0x7C ≠ 0x14 ∧ t &&& 0x7E ≠ 0x36 ∧ t &&& 0x7E ≠ 0x34 ∧ t &&& 0xFE ≠ 0x54

theorem classTests (t : BitVec 8) : ClassTests t := by
  constructor
  all_goals
    revert t
    decide +kernel

theorem piece_ldrLit (h : classOf (top w) = .ldrLit .x) :
    piece pc w = some ⟨movWords 17 (pc + wordOffset (imm19 w)) ++ [ldrWord (X (rd w))], none⟩ := by
  unfold piece
  rw [(classTests _).ldrLit h]
  rfl

theorem piece_adr (h : classOf (top w) = .adr) :
    piece pc w = some ⟨movWords (rd w) (pc + (imm21 w).signExtend 64), none⟩ := by
  obtain ⟨h1, h2, h3⟩ := (classTests _).adr h
  simp only [piece, if_neg h1, if_pos h2, if_pos h3]

theorem piece_adrp (h : classOf (top w) = .adrp) :
    piece pc w = some ⟨movWords (rd w) (page pc + (imm21 w).signExtend 64 <<< 12), none⟩ := by
  obtain ⟨h1, h2, h3⟩ := (classTests _).adrp h
  simp only [piece, if_neg h1, if_pos h2, if_neg h3]

theorem piece_b (h : classOf (top w) = .b) :
    piece pc w = some ⟨[pendingWord, brWord TMP_REG_0], some (0, pc + wordOffset (imm26 w))⟩ := by
  obtain ⟨h1, h2, h3, h4⟩ := (classTests _).b h
  simp only [piece, if_neg h1, if_neg h2, if_pos h3, if_neg h4]

theorem piece_bl (h : classOf (top w) = .bl) :
    piece pc w = some ⟨[pendingWord, blrWord TMP_REG_0], some (0, pc + wordOffset (imm26 w))⟩ := by
  obtain ⟨h1, h2, h3, h4⟩ := (classTests _).bl h
  simp only [piece, if_neg h1, if_neg h2, if_pos h3, if_pos h4]

theorem piece_tb {nz : Bool} (h : classOf (top w) = .tb nz) :
    piece pc w = some (conditionalPiece (invertTestBranch w) (pc + wordOffset (imm14 w))) := by
  obtain ⟨h1, h2, h3, h4⟩ := (classTests _).tb nz h
  simp only [piece, if_neg h1, if_neg h2, if_neg h3, if_pos h4]

theorem piece_cb {sf nz : Bool} (h : classOf (top w) = .cb sf nz) :
    piece pc w = some (conditionalPiece (invertCompareBranch w) (pc + wordOffset (imm19 w))) := by
  obtain ⟨h1, h2, h3, h4, h5⟩ := (classTests _).cb sf nz h
  simp only [piece, if_neg h1, if_neg h2, if_neg h3, if_neg h4, if_pos h5]

theorem piece_bcond (h : classOf (top w) = .bcond) :
    piece pc w =
      some (conditionalPiece (invertConditionalBranch w) (pc + wordOffset (imm19 w))) := by
  unfold piece
  rw [(classTests _).bcond h]
  rfl

/-- The words that are copied: all the rest but two unallocated bytes, one of which aborts. -/
theorem piece_rest {p : Piece} (h : classOf (top w) = .rest) (h55 : top w ≠ 0x55)
    (hpiece : piece pc w = some p) : p = ⟨[w], none⟩ := by
  have hDC : top w ≠ 0xDC := by
    intro hDC
    unfold piece at hpiece
    rw [hDC] at hpiece
    cases hpiece
  obtain ⟨h1, h2, h3, h4, h5, h6⟩ := (classTests _).rest h h55 hDC
  unfold piece at hpiece
  rw [if_neg h1, if_neg h2, if_neg h3, if_neg h4, if_neg h5, if_neg h6] at hpiece
  exact (Option.some.inj hpiece).symm

end pieces

/-! ### Inverted branches -/

section inverted
variable {w : Word}

theorem decode_invertTestBranch {nz : Bool} (h : classOf (top w) = .tb nz) :
    decode (invertTestBranch w) = .tb (!nz) (rd w) (testedBit w) 3 := by
  obtain ⟨htop, hrd, hbit, himm⟩ := slices_invertTestBranch w
  unfold decode
  rw [htop, (classTests _).tb_inverted nz h, hrd, hbit, himm]

theorem decode_invertCompareBranch {sf nz : Bool} (h : classOf (top w) = .cb sf nz) :
    decode (invertCompareBranch w) = .cb sf (!nz) (rd w) 3 := by
  obtain ⟨htop, hrd, himm⟩ := slices_invertCompareBranch w
  unfold decode
  rw [htop, (classTests _).cb_inverted sf nz h, hrd, himm]

theorem decode_invertConditionalBranch (h : classOf (top w) = .bcond) :
    decode (invertConditionalBranch w) = .bcond (w.extractLsb' 0 4 ^^^ 1) 3 := by
  obtain ⟨htop, hcond, himm⟩ := slices_invertConditionalBranch w
  unfold decode
  rw [htop, h, hcond, himm]

/-- Of the conditions, the last two hold whatever their lowest bit is. -/
theorem condHolds_invert (cond nzcv : BitVec 4) :
    condHolds (cond ^^^ 1) nzcv = if cond < 14 then !condHolds cond nzcv else true := by
  revert cond nzcv
  decide +kernel

end inverted

/-! ### One instruction -/

section instruction
variable (other : Word → Core → Option (Core × Flow)) (P K : Set Addr)

/-- The word `w` at `pc` can be moved: with states that are alike off the registers `X` before it,
they are alike off `Y` after it. The literals loaded lie off `P`, and a copied word reads nothing
that may differ and writes nothing in `K`. -/
def Carries (pc : Addr) (X Y : Set Reg) (w : Word) : Prop :=
  match classOf (top w) with
  | .ldrLit .x =>
    (X ∪ {17}) \ {rd w} ⊆ Y ∧ Disjoint (region (pc + wordOffset (imm19 w)) 8) P
  | .ldrLit _ => False
  | .adr | .adrp => X \ {rd w} ⊆ Y
  | .b | .bl => True
  | .tb _ | .cb _ _ => rd w ∉ X ∧ X ⊆ Y
  | .bcond => w.extractLsb' 0 4 < 14 ∧ X ⊆ Y
  | .rest => top w ≠ 0x55 ∧ Uniform other w X Y P ∧ Keeps other w K

/-- The code at word `q` from `R`, `len` words long, does from `d` what an instruction did from `c`:
it goes on the same way, from its last word, in a state that is alike off `Y`, or off `x17` where the
instruction did not go on with the next. -/
def Follows (R : Addr) (q len : Nat) (Y : Set Reg) (c d : Core) : Option (Core × Flow) → Prop
  | none => ∃ v, Reaches other ⟨d, wordAddr R q⟩ v ∧ step other v = none
  | some (c', f) => ∃ d',
    Reaches other ⟨d, wordAddr R q⟩ (f.resume (wordAddr R (q + len)) d') ∧
      AgreeOff (if f = .next then Y else {17}) P c' d' ∧
      (∀ a ∈ K, c'.mem a = c.mem a) ∧ ∀ a ∈ K, d'.mem a = d.mem a

variable {other P K} {pc R : Addr} {F : List Word} {q : Nat} {X Y : Set Reg} {c d : Core}
  {w : Word}

/-- An instruction that writes one register, as its relocated form does. -/
theorem follows_setReg {len : Nat} {r : Reg} {e : BitVec 64} {d' : Core}
    (hagree : AgreeOff X P c d') (hX : X \ {r} ⊆ Y) (hmem : d'.mem = d.mem)
    (hrun : Reaches other ⟨d, wordAddr R q⟩ ⟨d'.setReg r e, wordAddr R (q + len + 1)⟩) :
    Follows other P K R q len Y c d (some (c.setReg r e, .next)) := by
  refine ⟨d'.setReg r e, ?_, ?_, ?_, ?_⟩
  · rwa [Flow.resume, wordAddr_add_four]
  · rw [if_pos rfl]
    exact hagree.setReg r e hX
  · intro a _
    rw [Core.setReg_mem]
  · intro a _
    rw [Core.setReg_mem, hmem]

theorem follows_scratch {len : Nat} {a : Addr} {f : Flow} (hf : f ≠ .next) (hX : X ⊆ {17})
    (hagree : AgreeOff X P c d)
    (hrun : Reaches other ⟨d, wordAddr R q⟩ (f.resume (wordAddr R (q + len)) (d.setReg 17 a))) :
    Follows other P K R q len Y c d (some (c, f)) := by
  refine ⟨d.setReg 17 a, hrun, ?_, fun _ _ => rfl, ?_⟩
  · rw [if_neg hf]
    exact hagree.setReg_right a rfl hX
  · intro b _
    rw [Core.setReg_mem]

theorem follows_conditional {w' : Word} {a : Addr} {taken : Bool} (hF : Holds d.mem R F)
    (hsmall : F.length < 2 ^ 18) (hp : Placed F q (conditionalPiece w' a))
    (hagree : AgreeOff X P c d) (hX : X ⊆ {17}) (hY : X ⊆ Y)
    (hexec : execute other (decode w') (wordAddr R q) d =
      some (d, branchIf (!taken) (wordAddr R (q + 3)))) :
    Follows other P K R q 2 Y c d (some (c, branchIf taken a)) := by
  have hrun := run_conditional hF hsmall hp hexec
  cases taken with
  | false =>
    refine ⟨d, ?_, ?_, fun _ _ => rfl, fun _ _ => rfl⟩
    · show Reaches other _ ⟨d, wordAddr R (q + 2) + 4⟩
      rwa [wordAddr_add_four]
    · exact hagree.mono hY
  | true => exact follows_scratch nofun hX hagree hrun

/-! Each class, where its piece lies at word `q`. -/

section classes
variable {p : Piece}

theorem follows_ldrLit (hclass : classOf (top w) = .ldrLit .x) (hpiece : piece pc w = some p)
    (hX : (X ∪ {17}) \ {rd w} ⊆ Y)
    (hliteral : Disjoint (region (pc + wordOffset (imm19 w)) 8) P) (hF : Holds d.mem R F)
    (hp : Placed F q p) (hagree : AgreeOff X P c d) :
    Follows other P K R q (p.words.length - 1) Y c d (execute other (decode w) pc c) := by
  obtain rfl := Option.some.inj ((piece_ldrLit hclass).symm.trans hpiece)
  have hdecode : decode w = .ldrLit .x (rd w) (imm19 w) := by rw [decode, hclass]
  have hread := hagree.read64 hliteral
  rw [hdecode]
  show Follows other P K R q 4 Y c d (some (c.setReg (rd w) (read64 c.mem _), .next))
  rw [hread]
  generalize pc + wordOffset (imm19 w) = a at hp
  have hmov : Reaches other ⟨d, wordAddr R q⟩ ⟨d.setReg 17 a, wordAddr R (q + 4)⟩ := by
    apply run_mov hF
    intro k v hk
    apply hp.plain k v _ (by rintro l ⟨⟩)
    rw [List.getElem?_append_left (List.getElem?_eq_some_iff.1 hk).1, hk]
  have hldr : Reaches other ⟨d.setReg 17 a, wordAddr R (q + 4)⟩
      ⟨(d.setReg 17 a).setReg (rd w) (read64 d.mem a), wordAddr R (q + 4 + 1)⟩ := by
    have hload : Reaches other ⟨d.setReg 17 a, wordAddr R (q + 4)⟩ _ :=
      run_ldr (by rwa [Core.setReg_mem]) (hp.plain 4 _ rfl (by rintro l ⟨⟩))
    rwa [Core.reg_setReg_self d a (by decide), Core.setReg_mem] at hload
  have hscratch : AgreeOff (X ∪ {17}) P c (d.setReg 17 a) :=
    hagree.setReg_right a (Set.mem_union_right X (Set.mem_singleton 17)) Set.subset_union_left
  exact follows_setReg hscratch hX (Core.setReg_mem d 17 a) (hmov.trans hldr)

theorem follows_adr (hclass : classOf (top w) = .adr ∨ classOf (top w) = .adrp)
    (hpiece : piece pc w = some p) (hX : X \ {rd w} ⊆ Y) (hF : Holds d.mem R F)
    (hp : Placed F q p) (hagree : AgreeOff X P c d) :
    Follows other P K R q (p.words.length - 1) Y c d (execute other (decode w) pc c) := by
  rcases hclass with hclass | hclass
  · obtain rfl := Option.some.inj ((piece_adr hclass).symm.trans hpiece)
    have hdecode : decode w = .adr (rd w) (imm21 w) := by rw [decode, hclass]
    rw [hdecode]
    apply follows_setReg hagree hX rfl
    exact run_mov hF fun k v hk => hp.plain k v hk (by rintro l ⟨⟩)
  · obtain rfl := Option.some.inj ((piece_adrp hclass).symm.trans hpiece)
    have hdecode : decode w = .adrp (rd w) (imm21 w) := by rw [decode, hclass]
    rw [hdecode]
    apply follows_setReg hagree hX rfl
    exact run_mov hF fun k v hk => hp.plain k v hk (by rintro l ⟨⟩)

theorem follows_branch (hclass : classOf (top w) = .b ∨ classOf (top w) = .bl)
    (hpiece : piece pc w = some p) (hX : X ⊆ {17}) (hF : Holds d.mem R F)
    (hsmall : F.length < 2 ^ 18) (hp : Placed F q p) (hagree : AgreeOff X P c d) :
    Follows other P K R q (p.words.length - 1) Y c d (execute other (decode w) pc c) := by
  rcases hclass with hclass | hclass
  · obtain rfl := Option.some.inj ((piece_b hclass).symm.trans hpiece)
    obtain ⟨q', hlink⟩ := hp.linked 0 _ rfl
    have hbr := hp.plain 1 _ rfl (by rintro l ⟨⟩; simp)
    have hdecode : decode w = .b (imm26 w) := by rw [decode, hclass]
    rw [hdecode]
    exact follows_scratch nofun hX hagree (run_linked_br hF hsmall hlink hbr)
  · obtain rfl := Option.some.inj ((piece_bl hclass).symm.trans hpiece)
    obtain ⟨q', hlink⟩ := hp.linked 0 _ rfl
    have hblr := hp.plain 1 _ rfl (by rintro l ⟨⟩; simp)
    have hdecode : decode w = .bl (imm26 w) := by rw [decode, hclass]
    rw [hdecode]
    exact follows_scratch nofun hX hagree (run_linked_blr hF hsmall hlink hblr)

theorem follows_tb {nz : Bool} (hclass : classOf (top w) = .tb nz) (hpiece : piece pc w = some p)
    (hrd : rd w ∉ X) (hX : X ⊆ {17}) (hY : X ⊆ Y) (hF : Holds d.mem R F)
    (hsmall : F.length < 2 ^ 18) (hp : Placed F q p) (hagree : AgreeOff X P c d) :
    Follows other P K R q (p.words.length - 1) Y c d (execute other (decode w) pc c) := by
  obtain rfl := Option.some.inj ((piece_tb hclass).symm.trans hpiece)
  have hdecode : decode w = .tb nz (rd w) (testedBit w) (imm14 w) := by rw [decode, hclass]
  have hneg : ∀ b, (b == !nz) = !(b == nz) := by
    intro b
    cases b <;> cases nz <;> rfl
  rw [hdecode]
  apply follows_conditional hF hsmall hp hagree hX hY
  rw [decode_invertTestBranch hclass]
  show some (d, branchIf _ (wordAddr R q + wordOffset (3 : BitVec 14))) = _
  rw [skip_target (by decide) (by decide), hneg, hagree.reg _ hrd]

theorem follows_cb {sf nz : Bool} (hclass : classOf (top w) = .cb sf nz)
    (hpiece : piece pc w = some p) (hrd : rd w ∉ X) (hX : X ⊆ {17}) (hY : X ⊆ Y)
    (hF : Holds d.mem R F) (hsmall : F.length < 2 ^ 18) (hp : Placed F q p)
    (hagree : AgreeOff X P c d) :
    Follows other P K R q (p.words.length - 1) Y c d (execute other (decode w) pc c) := by
  obtain rfl := Option.some.inj ((piece_cb hclass).symm.trans hpiece)
  have hdecode : decode w = .cb sf nz (rd w) (imm19 w) := by rw [decode, hclass]
  have hneg : ∀ b, (b != !nz) = !(b != nz) := by
    intro b
    cases b <;> cases nz <;> rfl
  rw [hdecode]
  apply follows_conditional hF hsmall hp hagree hX hY
  rw [decode_invertCompareBranch hclass]
  show some (d, branchIf _ (wordAddr R q + wordOffset (3 : BitVec 19))) = _
  rw [skip_target (by decide) (by decide), hneg, hagree.reg _ hrd]

theorem follows_bcond (hclass : classOf (top w) = .bcond) (hpiece : piece pc w = some p)
    (hcond : w.extractLsb' 0 4 < 14) (hX : X ⊆ {17}) (hY : X ⊆ Y) (hF : Holds d.mem R F)
    (hsmall : F.length < 2 ^ 18) (hp : Placed F q p) (hagree : AgreeOff X P c d) :
    Follows other P K R q (p.words.length - 1) Y c d (execute other (decode w) pc c) := by
  obtain rfl := Option.some.inj ((piece_bcond hclass).symm.trans hpiece)
  have hdecode : decode w = .bcond (w.extractLsb' 0 4) (imm19 w) := by rw [decode, hclass]
  rw [hdecode]
  apply follows_conditional hF hsmall hp hagree hX hY
  rw [decode_invertConditionalBranch hclass]
  show some (d, branchIf (condHolds _ _) (wordAddr R q + wordOffset (3 : BitVec 19))) = _
  rw [skip_target (by decide) (by decide), condHolds_invert, if_pos hcond, hagree.nzcv]

theorem follows_rest (hclass : classOf (top w) = .rest) (hF : Holds d.mem R F)
    (hw : F[q]? = some w) (huniform : Uniform other w X Y P) (hkeeps : Keeps other w K)
    (hY : Y ⊆ {17}) (hagree : AgreeOff X P c d) :
    Follows other P K R q 0 Y c d (execute other (decode w) pc c) := by
  have hexec : ∀ pc c, execute other (decode w) pc c = effect other w c :=
    fun pc c => execute_rest hclass pc c
  have hsame := huniform c d hagree
  rw [hexec]
  generalize hc : effect other w c = oc at hsame ⊢
  generalize hd : effect other w d = od at hsame
  cases hsame with
  | none =>
    refine ⟨⟨d, wordAddr R q⟩, .refl, ?_⟩
    unfold step
    rw [show State.fetch ⟨d, wordAddr R q⟩ = w from hF q w hw, hexec, hd]
    rfl
  | @some r r' hboth =>
    obtain ⟨c', f⟩ := r
    obtain ⟨d', f'⟩ := r'
    obtain ⟨hagree', hflow⟩ := hboth
    obtain rfl : f = f' := hflow
    refine ⟨d', ?_, ?_, hkeeps _ _ _ hc, hkeeps _ _ _ hd⟩
    · exact reaches_at hF hw (by rw [hexec, hd])
    · split
      · exact hagree'
      · exact hagree'.mono hY

end classes

/-- The relocated form of an instruction does what the instruction does. -/
theorem piece_follows {p : Piece} (hpiece : piece pc w = some p)
    (hcarries : Carries other P K pc X Y w) (hX : X ⊆ {17}) (hY : Y ⊆ {17})
    (hF : Holds d.mem R F) (hsmall : F.length < 2 ^ 18) (hp : Placed F q p)
    (hagree : AgreeOff X P c d) :
    Follows other P K R q (p.words.length - 1) Y c d (execute other (decode w) pc c) := by
  unfold Carries at hcarries
  split at hcarries
  case h_1 hclass => exact follows_ldrLit hclass hpiece hcarries.1 hcarries.2 hF hp hagree
  case h_2 => exact hcarries.elim
  case h_3 hclass => exact follows_adr (Or.inl hclass) hpiece hcarries hF hp hagree
  case h_4 hclass => exact follows_adr (Or.inr hclass) hpiece hcarries hF hp hagree
  case h_5 hclass => exact follows_branch (Or.inl hclass) hpiece hX hF hsmall hp hagree
  case h_6 hclass => exact follows_branch (Or.inr hclass) hpiece hX hF hsmall hp hagree
  case h_7 hclass => exact follows_tb hclass hpiece hcarries.1 hX hcarries.2 hF hsmall hp hagree
  case h_8 hclass => exact follows_cb hclass hpiece hcarries.1 hX hcarries.2 hF hsmall hp hagree
  case h_9 hclass =>
    exact follows_bcond hclass hpiece hcarries.1 hX hcarries.2 hF hsmall hp hagree
  case h_10 hclass =>
    obtain ⟨h55, huniform, hkeeps⟩ := hcarries
    obtain rfl := piece_rest hclass h55 hpiece
    exact follows_rest hclass hF (hp.plain 0 w rfl (by rintro l ⟨⟩)) huniform hkeeps hY hagree

end instruction

/-! ### Blocks -/

section blocks

theorem pieces_length {pc : Addr} {ws : List Word} {ps : List Piece} (h : pieces pc ws = some ps) :
    ps.length = ws.length := by
  induction ws generalizing pc ps with
  | nil =>
    obtain rfl := Option.some.inj h
    rfl
  | cons w ws ih =>
    rw [pieces] at h
    split at h
    · cases h
    · obtain ⟨qs, hqs, rfl⟩ := Option.map_eq_some_iff.1 h
      rw [List.length_cons, List.length_cons, ih hqs]

theorem pieces_getElem? {pc : Addr} {ws : List Word} {ps : List Piece} (h : pieces pc ws = some ps)
    {i : Nat} {w : Word} (hw : ws[i]? = some w) :
    ∃ p, ps[i]? = some p ∧ piece (wordAddr pc i) w = some p := by
  induction ws generalizing pc ps i with
  | nil => cases hw
  | cons v ws ih =>
    rw [pieces] at h
    split at h
    · cases h
    · rename_i p hp
      obtain ⟨qs, hqs, rfl⟩ := Option.map_eq_some_iff.1 h
      cases i with
      | zero =>
        obtain rfl : v = w := Option.some.inj hw
        exact ⟨p, rfl, by rwa [wordAddr_zero]⟩
      | succ i =>
        obtain ⟨p', hget, hpiece⟩ := ih hqs hw
        refine ⟨p', hget, ?_⟩
        rw [Nat.add_comm, ← wordAddr_add]
        exact hpiece

theorem piece_nonempty {pc : Addr} {w : Word} {p : Piece} (h : piece pc w = some p) :
    0 < p.words.length := by
  unfold piece conditionalPiece at h
  split_ifs at h
  all_goals
    obtain rfl := Option.some.inj h
    exact Nat.succ_pos _

variable (other : Word → Core → Option (Core × Flow)) (P : Set Addr)

/-- What the relocated block does from `t` where the original leaves by `e`: it gets stuck where the
original does, and otherwise leaves the same way, with all but `x17` alike. The end of the block is
at `rest`, and a call made by word `j` returns to the relocated form of word `j + 1`, at
`returns (j + 1)`. -/
def LeavesAs (rest : Addr) (returns : Nat → Addr) (t : State) : Option Exit → Prop
  | none => ∃ v, Reaches other t v ∧ step other v = none
  | some (c, .next, _) => ∃ d, Reaches other t ⟨d, rest⟩ ∧ AgreeOff {17} P c d
  | some (c, .jump a, _) => ∃ d, Reaches other t ⟨d, a⟩ ∧ AgreeOff {17} P c d
  | some (c, .call a, j) => ∃ d,
    Reaches other t ⟨d.setReg lr (returns (j + 1)), a⟩ ∧ AgreeOff {17} P c d

/-- The memory the block and its relocated form lie in. -/
def codeRegion (A : Addr) (ws : List Word) (R : Addr) (F : List Word) : Set Addr :=
  region A (4 * ws.length) ∪ region R (4 * F.length)

variable {other P} {A R : Addr} {ws : List Word} {F : CodeBuffer}

theorem LeavesAs.of_reaches {rest : Addr} {returns : Nat → Addr} {t u : State} {e : Option Exit}
    (hreach : Reaches other t u) (h : LeavesAs other P rest returns u e) :
    LeavesAs other P rest returns t e := by
  unfold LeavesAs at h ⊢
  split at h
  all_goals
    obtain ⟨d, hrun, hrest⟩ := h
    exact ⟨d, hreach.trans hrun, hrest⟩

theorem LeavesAs.succ {rest : Addr} {returns : Nat → Addr} {t : State} {e : Option Exit}
    (h : LeavesAs other P rest (fun j => returns (j + 1)) t e) :
    LeavesAs other P rest returns t (e.map fun e => (e.1, e.2.1, e.2.2 + 1)) := by
  rcases e with _ | ⟨c, _ | a | a, j⟩
  · exact h
  · exact h
  · exact h
  · exact h

/-- The pieces of a finished buffer. -/
theorem pieces_of_gen (hgen : genRelocateCodeAndBranch A ws = some F) :
    ∃ ps, pieces A ws = some ps ∧ F.buffer = finish ps (wordAddr A ws.length) := by
  rw [genRelocateCodeAndBranch_eq] at hgen
  obtain ⟨ps, hps, rfl⟩ := Option.map_eq_some_iff.1 hgen
  exact ⟨ps, hps, rfl⟩

/-- The next piece begins behind the last word of this one. -/
theorem piece_end {ps : List Piece} {p : Piece} {i : Nat} {pc : Addr} {w : Word}
    (hpiece : piece pc w = some p) (hp : ps[i]? = some p) :
    wordAddr R (offset ps i + (p.words.length - 1)) + 4 = wordAddr R (offset ps (i + 1)) := by
  have := piece_nonempty hpiece
  rw [wordAddr_add_four, offset_succ hp]
  congr 1
  omega

theorem relocated_leaves_from {D : Nat → Set Reg} (hgen : genRelocateCodeAndBranch A ws = some F)
    (hsmall : F.buffer.length < 2 ^ 18) (hD : ∀ i, D i ⊆ {17})
    (hcarries : ∀ i w, ws[i]? = some w →
      Carries other P (codeRegion A ws R F.buffer) (wordAddr A i) (D i) (D (i + 1)) w)
    {k i : Nat} {c d : Core} (hi : i + k = ws.length) (hA : Holds c.mem A ws)
    (hR : Holds d.mem R F.buffer) (hagree : AgreeOff (D i) P c d) :
    LeavesAs other P (wordAddr A ws.length) (fun j => wordAddr R (place A ws (i + j)))
      ⟨d, wordAddr R (place A ws i)⟩ (leave other k ⟨c, wordAddr A i⟩) := by
  obtain ⟨ps, hps, hF⟩ := pieces_of_gen hgen
  have hwell := pieces_wellLinked hps
  have hlen := pieces_length hps
  rw [hF] at hsmall
  simp only [place_eq hps]
  induction k generalizing i c d with
  | zero =>
    have hrun : Reaches other ⟨d, wordAddr R (offset ps i)⟩
        ⟨d.setReg 17 (wordAddr A ws.length), wordAddr A ws.length⟩ := by
      apply run_literalBranch hR (hF ▸ hsmall)
      intro j w hw
      rw [show i = ps.length by omega, hF]
      exact finish_rest hwell hsmall hw
    exact ⟨_, hrun, hagree.setReg_right _ rfl (hD i)⟩
  | succ k ih =>
    have hlt : i < ws.length := by omega
    obtain ⟨w, hw⟩ : ∃ w, ws[i]? = some w := ⟨_, List.getElem?_eq_getElem hlt⟩
    obtain ⟨p, hp, hpiece⟩ := pieces_getElem? hps hw
    have hplaced : Placed F.buffer (offset ps i) p := hF ▸ placed hwell hsmall hp
    have hfollows := piece_follows hpiece (hcarries i w hw) (hD i) (hD (i + 1)) hR (hF ▸ hsmall)
      hplaced hagree
    have hend := piece_end (R := R) hpiece hp
    rw [leave, show State.fetch ⟨c, wordAddr A i⟩ = w from hA i w hw]
    generalize execute other (decode w) (wordAddr A i) c = outcome at hfollows ⊢
    rcases outcome with _ | ⟨c', _ | a | a⟩
    · exact hfollows
    · obtain ⟨d', hrun, hagree', hc, hd⟩ := hfollows
      rw [Flow.resume, hend] at hrun
      have hA' : Holds c'.mem A ws := hA.congr fun x hx => hc x (Or.inl hx)
      have hR' : Holds d'.mem R F.buffer := hR.congr fun x hx => hd x (Or.inr hx)
      have hrest := ih (show i + 1 + k = ws.length by omega) hA' hR' hagree'
      simp only [wordAddr_add_four]
      apply LeavesAs.succ
      apply LeavesAs.of_reaches hrun
      convert hrest using 4
      omega
    · obtain ⟨d', hrun, hagree', -, -⟩ := hfollows
      exact ⟨d', hrun, hagree'⟩
    · obtain ⟨d', hrun, hagree', -, -⟩ := hfollows
      rw [Flow.resume, hend] at hrun
      exact ⟨d', hrun, hagree'⟩

/-- **Relocation keeps the meaning**: where the block leaves, its relocated form leaves the same way. -/
theorem relocated_leaves {D : Nat → Set Reg} (hgen : genRelocateCodeAndBranch A ws = some F)
    (hsmall : F.buffer.length < 2 ^ 18) (hD : ∀ i, D i ⊆ {17})
    (hcarries : ∀ i w, ws[i]? = some w →
      Carries other P (codeRegion A ws R F.buffer) (wordAddr A i) (D i) (D (i + 1)) w)
    {c d : Core} (hA : Holds c.mem A ws) (hR : Holds d.mem R F.buffer)
    (hagree : AgreeOff (D 0) P c d) :
    LeavesAs other P (wordAddr A ws.length) (fun j => wordAddr R (place A ws j)) ⟨d, R⟩
      (leave other ws.length ⟨c, A⟩) := by
  have hstart : wordAddr R (place A ws 0) = R := wordAddr_zero R
  have hleaves := relocated_leaves_from hgen hsmall hD hcarries (Nat.zero_add _) hA hR hagree
  simpa only [Nat.zero_add, wordAddr_zero, hstart] using hleaves

/-- `adr x0, #8`, `cbz x1, #8` and `nop`. -/
abbrev prologue : List Word := [0x10000040, 0xB4000041, 0xD503201F]

/-- The words of `prologue` can be moved, where every other instruction does nothing. -/
theorem prologue_carries (K P : Set Addr) (a : Addr) : ∀ i w, prologue[i]? = some w →
    Carries (fun _ c => some (c, .next)) P K (wordAddr a i) ∅ ∅ w := by
  intro i w hw
  rcases i with _ | _ | _ | i
  · obtain rfl := Option.some.inj hw
    exact fun _ h => h.1
  · obtain rfl := Option.some.inj hw
    exact ⟨id, Set.empty_subset _⟩
  · obtain rfl := Option.some.inj hw
    refine ⟨by decide, ?_, ?_⟩
    · intro c d h
      exact .some ⟨h, rfl⟩
    · intro c c' f h b _
      obtain ⟨rfl, -⟩ := Prod.mk.inj (Option.some.inj h)
      rfl
  · cases hw

/-- A block with an `adr`, a `cbz` and a `nop`, where every other instruction does nothing. -/
theorem relocated_leaves_block : ∃ F d,
    genRelocateCodeAndBranch 0x1000 [0x10000040, 0xB4000041, 0xD503201F] = some F ∧
    LeavesAs (fun _ c => some (c, .next)) ∅ (wordAddr 0x1000 3)
      (fun j => wordAddr 0x8000 (place 0x1000 [0x10000040, 0xB4000041, 0xD503201F] j))
      ⟨d, 0x8000⟩ (leave (fun _ c => some (c, .next)) 3 ⟨d, 0x1000⟩) := by
  have hlen : (genRelocateCodeAndBranch 0x1000 [0x10000040, 0xB4000041, 0xD503201F]).map
      (fun F => F.buffer.length) = some 14 := by decide
  obtain ⟨F, hgen, hF⟩ := Option.map_eq_some_iff.1 hlen
  have hsmall : F.buffer.length < 2 ^ 18 := hF ▸ by decide
  have hblock : Holds (store (fun _ => 0) 0x1000
      ([0x10000040, 0xB4000041, 0xD503201F].flatMap bytesOf)) 0x1000
      [0x10000040, 0xB4000041, 0xD503201F] := holds_store _ _ (by decide)
  have hA : Holds (store (store (fun _ => 0) 0x1000
      ([0x10000040, 0xB4000041, 0xD503201F].flatMap bytesOf)) 0x8000 (F.buffer.flatMap bytesOf))
      0x1000 [0x10000040, 0xB4000041, 0xD503201F] := by
    apply hblock.store
    apply disjoint_region (by decide)
    rw [length_flatMap_bytesOf, hF]
    decide
  have hR : Holds (store (store (fun _ => 0) 0x1000
      ([0x10000040, 0xB4000041, 0xD503201F].flatMap bytesOf)) 0x8000 (F.buffer.flatMap bytesOf))
      0x8000 F.buffer := holds_store _ _ (by rw [hF]; decide)
  generalize store (store _ _ _) _ _ = m at hA hR
  have hleaves := relocated_leaves (D := fun _ => ∅) (c := .start m) (d := .start m) hgen hsmall
    (fun _ => Set.empty_subset _) (prologue_carries _ ∅ _) hA hR (.refl _ _ _)
  exact ⟨F, .start m, hgen, hleaves⟩

end blocks

end Il2CppDumper.Dobby
