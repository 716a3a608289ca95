import Il2CppDumper.Arm64.Memory
import Mathlib.Logic.Function.Basic
import Mathlib.Logic.Relation

/-!
# A64 instructions

The instructions that depend on the address they are at, which are known by their top byte
(`Class`), and the few others that code generators write for themselves, are executed as the
architecture says. Every other instruction is left to the parameter `other`, which sees the word and
the state but not the address.

`step` fetches and executes one instruction, `Reaches` is its reflexive and transitive closure.
-/

namespace Arm64

abbrev Reg := BitVec 5

/-- The state of a thread, less the address of its next instruction. Register 31 is no part of
`x`. -/
structure Core where
  x : Reg → BitVec 64
  sp : BitVec 64
  v : Reg → BitVec 128
  nzcv : BitVec 4
  mem : Mem

namespace Core

/-- A thread whose registers are all zero. -/
def start (m : Mem) : Core := ⟨fun _ => 0, 0, fun _ => 0, 0, m⟩

/-- A register, where number 31 reads as zero. -/
def reg (c : Core) (r : Reg) : BitVec 64 := if r = 31 then 0 else c.x r

/-- A write to a register, where number 31 drops it. -/
def setReg (c : Core) (r : Reg) (d : BitVec 64) : Core :=
  if r = 31 then c else { c with x := Function.update c.x r d }

/-- A register, where number 31 is the stack pointer. -/
def regSp (c : Core) (r : Reg) : BitVec 64 := if r = 31 then c.sp else c.x r

def setRegSp (c : Core) (r : Reg) (d : BitVec 64) : Core :=
  if r = 31 then { c with sp := d } else { c with x := Function.update c.x r d }

def setV (c : Core) (r : Reg) (d : BitVec 128) : Core := { c with v := Function.update c.v r d }

variable (c : Core) (r s : Reg) (d e : BitVec 64)

@[simp] theorem setReg_mem : (c.setReg r d).mem = c.mem := by unfold setReg; split <;> rfl
@[simp] theorem setReg_sp : (c.setReg r d).sp = c.sp := by unfold setReg; split <;> rfl
@[simp] theorem setReg_v : (c.setReg r d).v = c.v := by unfold setReg; split <;> rfl
@[simp] theorem setReg_nzcv : (c.setReg r d).nzcv = c.nzcv := by unfold setReg; split <;> rfl

@[simp] theorem reg_zero : c.reg 31 = 0 := rfl

theorem reg_setReg_of_ne {r s : Reg} (h : s ≠ r) : (c.setReg r d).reg s = c.reg s := by
  unfold reg setReg
  split_ifs with hs hr
  · rfl
  · rfl
  · exact Function.update_of_ne h d c.x

theorem reg_setReg_self {r : Reg} (h : r ≠ 31) : (c.setReg r d).reg r = d := by
  unfold reg setReg
  rw [if_neg h, if_neg h]
  exact Function.update_self r d c.x

theorem regSp_of_ne {r : Reg} (h : r ≠ 31) : c.regSp r = c.reg r := by
  unfold regSp reg
  rw [if_neg h, if_neg h]

/-- A write to the register that reads as zero. -/
@[simp] theorem setReg_zero : c.setReg 31 d = c := rfl

@[simp] theorem setReg_setReg : (c.setReg r d).setReg r e = c.setReg r e := by
  unfold setReg
  by_cases h : r = 31
  · rw [if_pos h, if_pos h, if_pos h]
  · rw [if_neg h, if_neg h, if_neg h]
    simp only [Function.update_idem]

theorem setRegSp_of_ne {r : Reg} (h : r ≠ 31) : c.setRegSp r d = c.setReg r d := by
  unfold setRegSp setReg
  rw [if_neg h, if_neg h]

end Core

/-! ## Instructions -/

/-- What a load from a literal loads. -/
inductive LitKind
  | w | x | sw | prfm | s | d | q
  deriving DecidableEq

/-- The instructions that depend on their address, and the rest. -/
inductive Class
  | ldrLit (k : LitKind)
  | adr | adrp
  | b | bl
  | tb (nz : Bool)
  | cb (sf nz : Bool)
  | bcond
  | rest
  deriving DecidableEq

/-- The class of a word by its top byte. -/
def classOf (t : BitVec 8) : Class :=
  if t = 0x18 then .ldrLit .w
  else if t = 0x58 then .ldrLit .x
  else if t = 0x98 then .ldrLit .sw
  else if t = 0xD8 then .ldrLit .prfm
  else if t = 0x1C then .ldrLit .s
  else if t = 0x5C then .ldrLit .d
  else if t = 0x9C then .ldrLit .q
  else if t &&& 0x9F = 0x10 then .adr
  else if t &&& 0x9F = 0x90 then .adrp
  else if t &&& 0xFC = 0x14 then .b
  else if t &&& 0xFC = 0x94 then .bl
  else if t &&& 0x7E = 0x36 then .tb (t.getLsbD 0)
  else if t &&& 0x7E = 0x34 then .cb (t.getLsbD 7) (t.getLsbD 0)
  else if t = 0x54 then .bcond
  else .rest

/-- The top byte of a word. -/
def top (w : Word) : BitVec 8 := w.extractLsb' 24 8

/-- The register in the lowest bits of a word, `Rd` or `Rt`. -/
def rd (w : Word) : Reg := w.extractLsb' 0 5

def rn (w : Word) : Reg := w.extractLsb' 5 5

def imm14 (w : Word) : BitVec 14 := w.extractLsb' 5 14
def imm19 (w : Word) : BitVec 19 := w.extractLsb' 5 19
def imm26 (w : Word) : BitVec 26 := w.extractLsb' 0 26

/-- `immhi:immlo`. -/
def imm21 (w : Word) : BitVec 21 := w.extractLsb' 5 19 ++ w.extractLsb' 29 2

/-- The number of the bit a word tests, `b5:b40`. -/
def testedBit (w : Word) : BitVec 6 := w.extractLsb' 31 1 ++ w.extractLsb' 19 5

inductive Instr
  | ldrLit (k : LitKind) (rt : Reg) (imm : BitVec 19)
  | adr (rd : Reg) (imm : BitVec 21)
  | adrp (rd : Reg) (imm : BitVec 21)
  | b (imm : BitVec 26)
  | bl (imm : BitVec 26)
  | tb (nz : Bool) (rt : Reg) (bit : BitVec 6) (imm : BitVec 14)
  | cb (sf nz : Bool) (rt : Reg) (imm : BitVec 19)
  | bcond (cond : BitVec 4) (imm : BitVec 19)
  | movz (rd : Reg) (hw : BitVec 2) (imm : BitVec 16)
  | movk (rd : Reg) (hw : BitVec 2) (imm : BitVec 16)
  | add (rd rn : Reg) (imm : BitVec 12)
  | ldr (rt rn : Reg) (imm : BitVec 12)
  | br (rn : Reg)
  | blr (rn : Reg)
  | other (w : Word)
  deriving DecidableEq

/-- The ten bits that tell the instructions here that do not depend on their address. -/
def opcode (w : Word) : BitVec 10 := w.extractLsb' 22 10

/-- The instructions that do not depend on their address. -/
def decodeRest (w : Word) : Instr :=
  if opcode w &&& 0x3FE = 0x34A then .movz (rd w) (w.extractLsb' 21 2) (w.extractLsb' 5 16)
  else if opcode w &&& 0x3FE = 0x3CA then .movk (rd w) (w.extractLsb' 21 2) (w.extractLsb' 5 16)
  else if opcode w = 0x244 then .add (rd w) (rn w) (w.extractLsb' 10 12)
  else if opcode w = 0x3E5 then .ldr (rd w) (rn w) (w.extractLsb' 10 12)
  else if opcode w = 0x358 ∧ w.extractLsb' 10 12 = 0x7C0 ∧ rd w = 0 then .br (rn w)
  else if opcode w = 0x358 ∧ w.extractLsb' 10 12 = 0xFC0 ∧ rd w = 0 then .blr (rn w)
  else .other w

def decode (w : Word) : Instr :=
  match classOf (top w) with
  | .ldrLit k => .ldrLit k (rd w) (imm19 w)
  | .adr => .adr (rd w) (imm21 w)
  | .adrp => .adrp (rd w) (imm21 w)
  | .b => .b (imm26 w)
  | .bl => .bl (imm26 w)
  | .tb nz => .tb nz (rd w) (testedBit w) (imm14 w)
  | .cb sf nz => .cb sf nz (rd w) (imm19 w)
  | .bcond => .bcond (w.extractLsb' 0 4) (imm19 w)
  | .rest => decodeRest w

/-- The top byte is the upper part of the opcode. -/
theorem top_eq (w : Word) : top w = (opcode w).extractLsb' 2 8 := by
  unfold top opcode
  apply BitVec.eq_of_getLsbD_eq
  intro i hi
  simp [hi, show 2 + i < 10 by omega, show 22 + (2 + i) = 24 + i by omega]

theorem decode_rest {w : Word} (h : classOf (top w) = .rest) : decode w = decodeRest w := by
  unfold decode
  rw [h]

theorem decode_movz {w : Word} (h : opcode w &&& 0x3FE = 0x34A) :
    decode w = .movz (rd w) (w.extractLsb' 21 2) (w.extractLsb' 5 16) := by
  have hrest : ∀ o : BitVec 10, o &&& 0x3FE = 0x34A → classOf (o.extractLsb' 2 8) = .rest := by
    decide
  rw [decode_rest (by rw [top_eq]; exact hrest _ h)]
  unfold decodeRest
  rw [if_pos h]

theorem decode_movk {w : Word} (h : opcode w &&& 0x3FE = 0x3CA) :
    decode w = .movk (rd w) (w.extractLsb' 21 2) (w.extractLsb' 5 16) := by
  have hrest : ∀ o : BitVec 10, o &&& 0x3FE = 0x3CA → classOf (o.extractLsb' 2 8) = .rest := by
    decide
  rw [decode_rest (by rw [top_eq]; exact hrest _ h)]
  unfold decodeRest
  rw [if_neg (by rw [h]; decide), if_pos h]

theorem decode_add {w : Word} (h : opcode w = 0x244) :
    decode w = .add (rd w) (rn w) (w.extractLsb' 10 12) := by
  rw [decode_rest (by rw [top_eq, h]; decide)]
  unfold decodeRest
  rw [if_neg (by rw [h]; decide), if_neg (by rw [h]; decide), if_pos h]

theorem decode_ldr {w : Word} (h : opcode w = 0x3E5) :
    decode w = .ldr (rd w) (rn w) (w.extractLsb' 10 12) := by
  rw [decode_rest (by rw [top_eq, h]; decide)]
  unfold decodeRest
  rw [if_neg (by rw [h]; decide), if_neg (by rw [h]; decide), if_neg (by rw [h]; decide), if_pos h]

theorem decode_br {w : Word} (h : opcode w = 0x358) (hmid : w.extractLsb' 10 12 = 0x7C0)
    (hrd : rd w = 0) : decode w = .br (rn w) := by
  rw [decode_rest (by rw [top_eq, h]; decide)]
  unfold decodeRest
  rw [if_neg (by rw [h]; decide), if_neg (by rw [h]; decide), if_neg (by rw [h]; decide),
    if_neg (by rw [h]; decide), if_pos ⟨h, hmid, hrd⟩]

theorem decode_blr {w : Word} (h : opcode w = 0x358) (hmid : w.extractLsb' 10 12 = 0xFC0)
    (hrd : rd w = 0) : decode w = .blr (rn w) := by
  rw [decode_rest (by rw [top_eq, h]; decide)]
  unfold decodeRest
  rw [if_neg (by rw [h]; decide), if_neg (by rw [h]; decide), if_neg (by rw [h]; decide),
    if_neg (by rw [h]; decide),
    if_neg fun hbr => absurd (hmid.symm.trans hbr.2.1) (by decide), if_pos ⟨h, hmid, hrd⟩]

/-! ## Execution -/

/-- Where a thread goes on after an instruction. -/
inductive Flow
  | next
  | jump (a : Addr)
  | call (a : Addr)
  deriving DecidableEq

/-- The distance of a branch or literal, a number of words. -/
def wordOffset {n : Nat} (imm : BitVec n) : BitVec 64 := (imm ++ 0#2).signExtend 64

/-- The page of an address. -/
def page (a : Addr) : Addr := a &&& ~~~ 0xFFF#64

/-- Whether a condition holds of the flags. -/
def condHolds (cond nzcv : BitVec 4) : Bool :=
  let n := nzcv.getLsbD 3
  let z := nzcv.getLsbD 2
  let c := nzcv.getLsbD 1
  let v := nzcv.getLsbD 0
  let base :=
    match (cond >>> 1).toNat with
    | 0 => z
    | 1 => c
    | 2 => n
    | 3 => v
    | 4 => c && !z
    | 5 => n == v
    | 6 => n == v && !z
    | _ => true
  if cond.getLsbD 0 ∧ cond ≠ 15 then !base else base

def Core.loadLit (c : Core) (k : LitKind) (rt : Reg) (a : Addr) : Core :=
  match k with
  | .w => c.setReg rt ((read32 c.mem a).setWidth 64)
  | .x => c.setReg rt (read64 c.mem a)
  | .sw => c.setReg rt ((read32 c.mem a).signExtend 64)
  | .prfm => c
  | .s => c.setV rt ((read32 c.mem a).setWidth 128)
  | .d => c.setV rt ((read64 c.mem a).setWidth 128)
  | .q => c.setV rt (read64 c.mem (a + 8) ++ read64 c.mem a)

/-- A branch that is taken under a condition. -/
def branchIf (taken : Bool) (a : Addr) : Flow := if taken then .jump a else .next

/-- The bits `lo` to `lo + 15` of a register, replaced. -/
def insert16 (d : BitVec 64) (imm : BitVec 16) (lo : Nat) : BitVec 64 :=
  (d &&& ~~~ (0xFFFF#64 <<< lo)) ||| (imm.setWidth 64 <<< lo)

section execution
variable (other : Word → Core → Option (Core × Flow))

def execute (i : Instr) (pc : Addr) (c : Core) : Option (Core × Flow) :=
  match i with
  | .ldrLit k rt imm => some (c.loadLit k rt (pc + wordOffset imm), .next)
  | .adr rd imm => some (c.setReg rd (pc + imm.signExtend 64), .next)
  | .adrp rd imm => some (c.setReg rd (page pc + imm.signExtend 64 <<< 12), .next)
  | .b imm => some (c, .jump (pc + wordOffset imm))
  | .bl imm => some (c, .call (pc + wordOffset imm))
  | .tb nz rt bit imm =>
    some (c, branchIf ((c.reg rt).getLsbD bit.toNat == nz) (pc + wordOffset imm))
  | .cb sf nz rt imm =>
    let operand := if sf then c.reg rt else ((c.reg rt).setWidth 32).setWidth 64
    some (c, branchIf ((operand == 0) != nz) (pc + wordOffset imm))
  | .bcond cond imm => some (c, branchIf (condHolds cond c.nzcv) (pc + wordOffset imm))
  | .movz rd hw imm => some (c.setReg rd (insert16 0 imm (16 * hw.toNat)), .next)
  | .movk rd hw imm => some (c.setReg rd (insert16 (c.reg rd) imm (16 * hw.toNat)), .next)
  | .add rd rn imm => some (c.setRegSp rd (c.regSp rn + imm.setWidth 64), .next)
  | .ldr rt rn imm =>
    some (c.setReg rt (read64 c.mem (c.regSp rn + imm.setWidth 64 <<< 3)), .next)
  | .br rn => some (c, .jump (c.reg rn))
  | .blr rn => some (c, .call (c.reg rn))
  | .other w => other w c

/-- What a word that does not depend on its address does. -/
def effect (w : Word) (c : Core) : Option (Core × Flow) := execute other (decodeRest w) 0 c

structure State where
  core : Core
  pc : Addr

/-- The link register. -/
def lr : Reg := 30

/-- The state an instruction at `pc` leaves. -/
def Flow.resume (f : Flow) (pc : Addr) (c : Core) : State :=
  match f with
  | .next => ⟨c, pc + 4⟩
  | .jump a => ⟨c, a⟩
  | .call a => ⟨c.setReg lr (pc + 4), a⟩

/-- The word at the program counter. -/
def State.fetch (s : State) : Word := read32 s.core.mem s.pc

/-- One instruction, or nothing where `other` gives up. -/
def step (s : State) : Option State :=
  (execute other (decode s.fetch) s.pc s.core).map fun r => r.2.resume s.pc r.1

def Reaches : State → State → Prop := Relation.ReflTransGen fun s t => step other s = some t

variable {other}

theorem execute_rest {w : Word} (h : classOf (top w) = .rest) (pc : Addr) (c : Core) :
    execute other (decode w) pc c = effect other w c := by
  unfold effect decode
  rw [h]
  show execute other (decodeRest w) pc c = _
  unfold decodeRest
  split_ifs <;> rfl

theorem Reaches.step {s t u : State} (h : step other s = some t) (hrest : Reaches other t u) :
    Reaches other s u := Relation.ReflTransGen.head h hrest

theorem Reaches.trans {s t u : State} (h : Reaches other s t) (hrest : Reaches other t u) :
    Reaches other s u := Relation.ReflTransGen.trans h hrest

/-- The step of an instruction found at the program counter. -/
theorem step_of_execute {s : State} {w : Word} {c : Core} {f : Flow} (hfetch : s.fetch = w)
    (hexec : execute other (decode w) s.pc s.core = some (c, f)) :
    Arm64.step other s = some (f.resume s.pc c) := by
  unfold Arm64.step
  rw [hfetch, hexec]
  rfl

/-! ## Code in memory -/

section code
variable {R : Addr} {F : List Word} {c c' : Core} {q : Nat} {w : Word}

/-- The step of word `q` of code in memory. -/
theorem step_at {f : Flow} (hF : Holds c.mem R F) (hw : F[q]? = some w)
    (hexec : execute other (decode w) (wordAddr R q) c = some (c', f)) :
    Arm64.step other ⟨c, wordAddr R q⟩ = some (f.resume (wordAddr R q) c') :=
  step_of_execute (hF q w hw) hexec

theorem reaches_at {f : Flow} (hF : Holds c.mem R F) (hw : F[q]? = some w)
    (hexec : execute other (decode w) (wordAddr R q) c = some (c', f)) :
    Reaches other ⟨c, wordAddr R q⟩ (f.resume (wordAddr R q) c') :=
  Reaches.step (step_at hF hw hexec) .refl

/-- The same where the code goes on with the next word. -/
theorem reaches_next (hF : Holds c.mem R F) (hw : F[q]? = some w)
    (hexec : execute other (decode w) (wordAddr R q) c = some (c', .next)) :
    Reaches other ⟨c, wordAddr R q⟩ ⟨c', wordAddr R (q + 1)⟩ := by
  have hstep := reaches_at hF hw hexec
  rwa [Flow.resume, wordAddr_add_four] at hstep

end code

/-- A distance of `k` words forward. -/
theorem wordOffset_ofNat {n k : Nat} (hn : n + 2 ≤ 64) (hk : 2 * k < 2 ^ n) :
    wordOffset (BitVec.ofNat n k) = BitVec.ofNat 64 (4 * k) := by
  have hpow : 2 ^ n ≤ 2 ^ 62 := Nat.pow_le_pow_right (by decide) (by omega)
  have hval : (BitVec.ofNat n k ++ 0#2).toNat = 4 * k := by
    rw [BitVec.toNat_append, BitVec.toNat_ofNat, BitVec.toNat_ofNat, Nat.zero_mod, Nat.or_zero,
      Nat.mod_eq_of_lt (by omega), Nat.shiftLeft_eq]
    omega
  have hmsb : (BitVec.ofNat n k ++ 0#2).msb = false := by
    rw [BitVec.msb_eq_false_iff_two_mul_lt, hval, Nat.pow_add]
    omega
  unfold wordOffset
  apply BitVec.eq_of_toNat_eq
  rw [BitVec.signExtend_eq_setWidth_of_msb_false hmsb, BitVec.toNat_setWidth, hval,
    BitVec.toNat_ofNat]

/-- The four halves of a doubleword, inserted one after the other. -/
theorem insert16_all (d : BitVec 64) :
    insert16 (insert16 (insert16 (insert16 0 (d.extractLsb' 0 16) 0) (d.extractLsb' 16 16) 16)
      (d.extractLsb' 32 16) 32) (d.extractLsb' 48 16) 48 = d := by
  unfold insert16
  ext i hi
  interval_cases i <;> simp

end execution

end Arm64
