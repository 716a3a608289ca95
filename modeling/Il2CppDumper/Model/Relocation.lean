import Il2CppDumper.Model.Assembler

/-!
# Dobby's trampolines and relocation for arm64

`GenerateNormalTrampolineBuffer` writes the jump that is put over the start of a hooked function,
and `GenRelocateCodeAndBranch` the copy of the instructions it covers, in which those that depend on
their address are replaced, with a jump to the rest of the function behind it.

An instruction that Dobby does not implement aborts the process; the relocation is then `none`.
-/

namespace Il2CppDumper.Dobby

open Arm64

/-! ### Operands -/

/-- `SignExtend`, of `m` bits to `n`. -/
def signExtend (x : BitVec 64) (m n : Nat) : BitVec 64 := (x <<< (n - m)).sshiftRight (n - m)

def decodeImm14Offset (instr : Word) : BitVec 64 :=
  signExtend ((bits instr 5 18).setWidth 64 <<< 2) (2 + 14) 64

def decodeImm19Offset (instr : Word) : BitVec 64 :=
  signExtend ((bits instr 5 23).setWidth 64 <<< 2) (2 + 19) 64

def decodeImm26Offset (instr : Word) : BitVec 64 :=
  signExtend ((bits instr 0 25).setWidth 64 <<< 2) (2 + 26) 64

/-- `decode_immhi_immlo_offset`, which reads `immhi` and `immlo` as bit fields. -/
def decodeImmhiImmloOffset (instr : Word) : BitVec 64 :=
  signExtend ((instr.extractLsb' 29 2).setWidth 64 + (instr.extractLsb' 5 19).setWidth 64 <<< 2)
    (2 + 19) 64

def decodeImmhiImmloZero12Offset (instr : Word) : BitVec 64 := decodeImmhiImmloOffset instr <<< 12

def decodeRt (instr : Word) : BitVec 5 := (bits instr 0 4).setWidth 5

def decodeRd (instr : Word) : BitVec 5 := (bits instr 0 4).setWidth 5

/-! ### Inverted branches -/

/-- The number of words from an inverted branch to behind its jump. -/
def skip : BitVec 32 := BitVec.ofNat 32 (4 * 3) >>> 2

/-- `tbz` and `tbnz`. -/
def invertTestBranch (instr : Word) : Word :=
  setBits (setBit instr 24 (bit instr 24 ^^^ 1)) 5 18 skip

/-- `cbz` and `cbnz`. -/
def invertCompareBranch (instr : Word) : Word :=
  setBits (setBit instr 24 (bit instr 24 ^^^ 1)) 5 23 skip

/-- `b.cond`. -/
def invertConditionalBranch (instr : Word) : Word :=
  setBits (setBits instr 0 3 (bits instr 0 3 ^^^ 1)) 5 23 skip

/-! ### Relocation -/

namespace TurboAssembler

/-- `ldr` of a literal: its address in `x17`, then a load from there. -/
def relocateLdrLiteral (a : TurboAssembler) (pc : Addr) (instr : Word) : Option TurboAssembler :=
  let rt := decodeRt instr
  let opc := bits instr 30 31
  let memoryAddress := decodeImm19Offset instr + pc
  let a := a.code fun b => b.mov TMP_REG_0 memoryAddress
  if opc = 0b00 then some (a.code fun b => b.ldr (W rt) TMP_REG_0 0)
  else if opc = 0b01 then some (a.code fun b => b.ldr (X rt) TMP_REG_0 0)
  else none

/-- `adr` and `adrp`. -/
def relocatePCRel (a : TurboAssembler) (pc : Addr) (instr : Word) : TurboAssembler :=
  let rd := decodeRd instr
  let runtimeAddress :=
    if instr &&& PCRelAddressingMask = ADR then pc + decodeImmhiImmloOffset instr
    else alignFloor pc (1#64 <<< 12) + decodeImmhiImmloZero12Offset instr
  a.code fun b => b.mov (X rd) runtimeAddress

/-- `b` and `bl`. -/
def relocateBranch (a : TurboAssembler) (pc : Addr) (instr : Word) : TurboAssembler :=
  let branchAddress := decodeImm26Offset instr + pc
  let (a, branchAddressLabel) := a.appendRelocLabelEntry branchAddress
  let a := a.ldrReloc TMP_REG_0 branchAddressLabel
  if instr &&& UnconditionalBranchMask = BL then a.code fun b => b.blr TMP_REG_0
  else a.code fun b => b.br TMP_REG_0

/-- The three conditional branches: the inverted branch over a jump to `branchAddress`. -/
def relocateConditional (a : TurboAssembler) (branchAddress : Addr) (branchInstr : Word) :
    TurboAssembler :=
  let (a, branchAddressLabel) := a.appendRelocLabelEntry branchAddress
  let a := a.code fun b => b.emitInst branchInstr
  let a := a.ldrReloc TMP_REG_0 branchAddressLabel
  a.code fun b => b.br TMP_REG_0

/-- The body of the loop of `GenRelocateCodeAndBranch`. -/
def relocateInstr (a : TurboAssembler) (pc : Addr) (instr : Word) : Option TurboAssembler :=
  if instr &&& LoadRegLiteralFixedMask = LoadRegLiteralFixed then a.relocateLdrLiteral pc instr
  else if instr &&& PCRelAddressingFixedMask = PCRelAddressingFixed then
    some (a.relocatePCRel pc instr)
  else if instr &&& UnconditionalBranchFixedMask = UnconditionalBranchFixed then
    some (a.relocateBranch pc instr)
  else if instr &&& TestBranchFixedMask = TestBranchFixed then
    some (a.relocateConditional (decodeImm14Offset instr + pc) (invertTestBranch instr))
  else if instr &&& CompareBranchFixedMask = CompareBranchFixed then
    some (a.relocateConditional (decodeImm19Offset instr + pc) (invertCompareBranch instr))
  else if instr &&& ConditionalBranchFixedMask = ConditionalBranchFixed then
    some (a.relocateConditional (decodeImm19Offset instr + pc) (invertConditionalBranch instr))
  else some (a.code fun b => b.emitInst instr)

/-- The loop, over the words from `pc` on. -/
def relocateInstrs (a : TurboAssembler) (pc : Addr) : List Word → Option TurboAssembler
  | [] => some a
  | instr :: instrs =>
    match a.relocateInstr pc instr with
    | none => none
    | some a => relocateInstrs a (pc + 4) instrs

end TurboAssembler

/-- `GenRelocateCodeAndBranch`, up to the finished buffer. -/
def genRelocateCodeAndBranch (origin : Addr) (instrs : List Word) : Option CodeBuffer :=
  match TurboAssembler.empty.relocateInstrs origin instrs with
  | none => none
  | some a =>
    let currOrigPc := origin + BitVec.ofNat 64 (4 * instrs.length)
    some (literalLdrBranch a currOrigPc).relocBind.buffer

/-! ### Trampolines -/

/-- The distance of two addresses, `llabs((int64_t)(from - to))`. -/
def distance (src dst : Addr) : Nat := (src - dst).toInt.natAbs

/-- `adrp_range`. -/
def adrpRange : Nat := 2 ^ (2 + 19 + 12 - 1)

def generateNormalTrampolineBuffer (src dst : Addr) : CodeBuffer :=
  if distance src dst < adrpRange then ((CodeBuffer.mk []).adrpAdd TMP_REG_0 src dst).br TMP_REG_0
  else (literalLdrBranch .empty dst).buffer

end Il2CppDumper.Dobby
