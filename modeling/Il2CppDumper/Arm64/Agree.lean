import Il2CppDumper.Arm64.Machine

/-!
# Code run in two places

`AgreeOff X P` relates two states that may differ in the registers of `X` and in the memory of `P`
only. An instruction is `Uniform` if it maps states that are so related to states that are so
related, and `Keeps` a part of the memory if it does not write there.

`leave n` runs the instructions of a block of `n` words one after the other until one of them jumps or
calls, or the end of the block is reached; `leave_reaches` and `leave_stuck` say that this is what the
machine does.
-/

namespace Arm64

variable {X Y : Set Reg} {P : Set Addr} {c d : Core} {r : Reg}

/-- Two states are alike off the registers `X` and the memory `P`. -/
structure AgreeOff (X : Set Reg) (P : Set Addr) (c d : Core) : Prop where
  reg : ∀ r ∉ X, c.reg r = d.reg r
  sp : c.sp = d.sp
  v : c.v = d.v
  nzcv : c.nzcv = d.nzcv
  mem : ∀ a ∉ P, c.mem a = d.mem a

namespace AgreeOff

theorem refl (X : Set Reg) (P : Set Addr) (c : Core) : AgreeOff X P c c :=
  ⟨fun _ _ => rfl, rfl, rfl, rfl, fun _ _ => rfl⟩

theorem mono (h : AgreeOff X P c d) (hX : X ⊆ Y) : AgreeOff Y P c d :=
  { h with reg := fun r hr => h.reg r fun hmem => hr (hX hmem) }

theorem read32 {a : Addr} (h : AgreeOff X P c d) (ha : Disjoint (region a 4) P) :
    read32 c.mem a = read32 d.mem a :=
  read32_congr fun y hy => h.mem y (Set.disjoint_left.1 ha hy)

theorem read64 {a : Addr} (h : AgreeOff X P c d) (ha : Disjoint (region a 8) P) :
    read64 c.mem a = read64 d.mem a :=
  read64_congr fun y hy => h.mem y (Set.disjoint_left.1 ha hy)

/-- A change of the registers alone. -/
theorem of_reg {c' d' : Core} (h : AgreeOff X P c d) (hreg : ∀ r ∉ Y, c'.reg r = d'.reg r)
    (hsp : c'.sp = c.sp ∧ d'.sp = d.sp) (hv : c'.v = c.v ∧ d'.v = d.v)
    (hnzcv : c'.nzcv = c.nzcv ∧ d'.nzcv = d.nzcv) (hmem : c'.mem = c.mem ∧ d'.mem = d.mem) :
    AgreeOff Y P c' d' where
  reg := hreg
  sp := by rw [hsp.1, hsp.2, h.sp]
  v := by rw [hv.1, hv.2, h.v]
  nzcv := by rw [hnzcv.1, hnzcv.2, h.nzcv]
  mem := by
    intro a ha
    rw [hmem.1, hmem.2, h.mem a ha]

/-- Both write the same value to the same register. -/
theorem setReg (h : AgreeOff X P c d) (r : Reg) (e : BitVec 64) (hX : X \ {r} ⊆ Y) :
    AgreeOff Y P (c.setReg r e) (d.setReg r e) := by
  apply h.of_reg
  · intro s hs
    by_cases hsr : s = r
    · subst hsr
      by_cases h31 : s = 31
      · subst h31
        rfl
      · rw [Core.reg_setReg_self c e h31, Core.reg_setReg_self d e h31]
    · rw [Core.reg_setReg_of_ne c e hsr, Core.reg_setReg_of_ne d e hsr]
      exact h.reg s fun hmem => hs (hX ⟨hmem, hsr⟩)
  all_goals simp

/-- The second state alone writes a register in which the two may differ. -/
theorem setReg_right (h : AgreeOff X P c d) {r : Reg} (e : BitVec 64) (hr : r ∈ Y) (hX : X ⊆ Y) :
    AgreeOff Y P c (d.setReg r e) := by
  apply h.of_reg
  · intro s hs
    have hsr : s ≠ r := fun heq => hs (heq ▸ hr)
    rw [Core.reg_setReg_of_ne d e hsr]
    exact h.reg s fun hmem => hs (hX hmem)
  all_goals simp

end AgreeOff

/-! ## Instructions that do the same in both states -/

section words
variable (other : Word → Core → Option (Core × Flow))

/-- From states alike off `X`, both give up or both go on alike off `Y` the same way. -/
def Uniform (w : Word) (X Y : Set Reg) (P : Set Addr) : Prop :=
  ∀ c d, AgreeOff X P c d → Option.Rel (fun p q => AgreeOff Y P p.1 q.1 ∧ p.2 = q.2)
    (effect other w c) (effect other w d)

/-- The memory at `K` is left alone. -/
def Keeps (w : Word) (K : Set Addr) : Prop :=
  ∀ c c' f, effect other w c = some (c', f) → ∀ a ∈ K, c'.mem a = c.mem a

/-! ## Blocks -/

/-- The way out of a block: the state and flow of its last instruction and how many instructions
came before, where the flow `next` stands for the end of the block. -/
abbrev Exit := Core × Flow × Nat

/-- The block of `n` words at the program counter. -/
def leave : Nat → State → Option Exit
  | 0, s => some (s.core, .next, 0)
  | n + 1, s =>
    match execute other (decode s.fetch) s.pc s.core with
    | none => none
    | some (c, .next) => (leave n ⟨c, s.pc + 4⟩).map fun e => (e.1, e.2.1, e.2.2 + 1)
    | some (c, f) => some (c, f, 0)

/-- The state behind an exit of the block at `a`. -/
def Exit.state (a : Addr) (e : Exit) : State :=
  match e.2.1 with
  | .next => ⟨e.1, wordAddr a e.2.2⟩
  | f => f.resume (wordAddr a e.2.2) e.1

variable {other}

theorem leave_reaches {n : Nat} {s : State} {e : Exit} (h : leave other n s = some e) :
    Reaches other s (e.state s.pc) := by
  induction n generalizing s e with
  | zero =>
    obtain rfl := Option.some.inj h
    show Reaches other s ⟨s.core, wordAddr s.pc 0⟩
    rw [wordAddr_zero]
    exact .refl
  | succ n ih =>
    rw [leave] at h
    split at h
    · cases h
    · rename_i c hexec
      obtain ⟨e', he', rfl⟩ := Option.map_eq_some_iff.1 h
      have hrest := ih he'
      have hstate : Exit.state (s.pc + 4) e' = Exit.state s.pc (e'.1, e'.2.1, e'.2.2 + 1) := by
        have haddr : wordAddr (s.pc + 4) e'.2.2 = wordAddr s.pc (e'.2.2 + 1) := by
          rw [Nat.add_comm, ← wordAddr_add]
          rfl
        unfold Exit.state
        rw [haddr]
      rw [hstate] at hrest
      exact hrest.step (step_of_execute rfl hexec)
    · rename_i c f hf hexec
      obtain rfl := Option.some.inj h
      have hstate : Exit.state s.pc (c, f, 0) = f.resume s.pc c := by
        unfold Exit.state
        cases f with
        | next => exact absurd rfl hf
        | jump a => rfl
        | call a => simp only [wordAddr_zero]
      rw [hstate]
      exact Reaches.step (step_of_execute rfl hexec) .refl

/-- Where the block gives up the machine is stuck. -/
theorem leave_stuck {n : Nat} {s : State} (h : leave other n s = none) :
    ∃ u, Reaches other s u ∧ step other u = none := by
  induction n generalizing s with
  | zero => cases h
  | succ n ih =>
    rw [leave] at h
    split at h
    · rename_i hexec
      refine ⟨s, .refl, ?_⟩
      unfold step
      rw [hexec]
      rfl
    · rename_i c hexec
      obtain ⟨u, hreach, hstuck⟩ := ih (Option.map_eq_none_iff.1 h)
      exact ⟨u, hreach.step (step_of_execute rfl hexec), hstuck⟩
    · cases h

end words

end Arm64
