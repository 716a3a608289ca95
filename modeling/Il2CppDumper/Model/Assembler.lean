import Il2CppDumper.Arm64.Memory

/-!
# Dobby's assembler for arm64

The macros of `utility_macro.h`, the constants of `constants-arm64.h` and the part of
`assembler-arm64.h` that hooking uses: the encoders, labels that are bound after the instructions
that refer to them, and the code buffer these write to. All that is emitted are whole words, so a
buffer is a list of words; positions are in bytes as in the source.

A label that `AppendRelocLabelEntry` takes is then known by its place in `data_labels_`.
-/

namespace Il2CppDumper.Dobby

open Arm64

/-! ### Macros -/

section macros
variable {w : Nat}

def leftShift (a : BitVec w) (b c : Nat) : BitVec w := (a &&& ((1#w <<< b) - 1#w)) <<< c

def alignFloor (address range : BitVec w) : BitVec w := address &&& ~~~ (range - 1#w)

def submask (w x : Nat) : BitVec w := (1#w <<< (x + 1)) - 1#w

def bits (obj : BitVec w) (st fn : Nat) : BitVec w := (obj >>> st) &&& submask w (fn - st)

def bit (obj : BitVec w) (st : Nat) : BitVec w := (obj >>> st) &&& 1#w

def setBit (obj : BitVec w) (st : Nat) (bit : BitVec w) : BitVec w :=
  (~~~ (1#w <<< st) &&& obj) ||| (bit <<< st)

def setBits (obj : BitVec w) (st fn : Nat) (bits : BitVec w) : BitVec w :=
  (~~~ (submask w (fn - st) <<< st) &&& obj) ||| (bits <<< st)

end macros

/-! ### Constants -/

def LoadRegLiteralFixed : Word := 0x18000000
def LoadRegLiteralFixedMask : Word := 0x3B000000
def PCRelAddressingFixed : Word := 0x10000000
def PCRelAddressingFixedMask : Word := 0x1F000000
def PCRelAddressingMask : Word := 0x9F000000
def UnconditionalBranchFixed : Word := 0x14000000
def UnconditionalBranchFixedMask : Word := 0x7C000000
def UnconditionalBranchMask : Word := 0xFC000000
def UnconditionalBranchToRegisterFixed : Word := 0xD6000000
def CompareBranchFixed : Word := 0x34000000
def CompareBranchFixedMask : Word := 0x7E000000
def ConditionalBranchFixed : Word := 0x54000000
def ConditionalBranchFixedMask : Word := 0xFE000000
def TestBranchFixed : Word := 0x36000000
def TestBranchFixedMask : Word := 0x7E000000
def MoveWideImmediateFixed : Word := 0x12800000
def LoadStoreUnsignedOffsetFixed : Word := 0x39000000
def AddSubImmediateFixed : Word := 0x11000000

def ADR : Word := PCRelAddressingFixed ||| 0x00000000
def ADRP : Word := PCRelAddressingFixed ||| 0x80000000
def BL : Word := UnconditionalBranchFixed ||| 0x80000000
def BR : Word := UnconditionalBranchToRegisterFixed ||| 0x001F0000
def BLR : Word := UnconditionalBranchToRegisterFixed ||| 0x003F0000
def MOVZ : Word := 0x40000000
def MOVK : Word := 0x60000000

/-- `LoadRegLiteralSub`. -/
def loadRegLiteralSub (opc V : Word) : Word :=
  LoadRegLiteralFixed ||| leftShift opc 2 30 ||| leftShift V 1 26

def LDR_w_literal : Word := loadRegLiteralSub 0b00 0
def LDR_x_literal : Word := loadRegLiteralSub 0b01 0

/-- `LoadStoreOpSub`. -/
def loadStoreOpSub (size V opc : Word) : Word :=
  leftShift size 2 30 ||| leftShift V 1 26 ||| leftShift opc 2 22

def LDR_x : Word := loadStoreOpSub 0b11 0 0b01

/-- `AddSubImmediateOpSub`. -/
def addSubImmediateOpSub (sf op S : Word) : Word :=
  AddSubImmediateFixed ||| leftShift sf 1 31 ||| leftShift op 1 30 ||| leftShift S 1 29

def ADD_w_imm : Word := addSubImmediateOpSub 0 0 0
def ADD_x_imm : Word := addSubImmediateOpSub 1 0 0

/-! ### Registers -/

/-- The sizes of the general registers. -/
inductive RegisterType
  | kRegister_W
  | kRegister_X
  deriving DecidableEq

structure CPURegister where
  regCode : BitVec 5
  regType : RegisterType
  deriving DecidableEq

def W (code : BitVec 5) : CPURegister := ⟨code, .kRegister_W⟩
def X (code : BitVec 5) : CPURegister := ⟨code, .kRegister_X⟩

def TMP_REG_0 : CPURegister := X 17

/-- The register in `Rd` and in `Rt`, whose shifts are both 0. -/
def Rd (rd : CPURegister) : Word := rd.regCode.setWidth 32 <<< 0

def Rt (rt : CPURegister) : Word := rt.regCode.setWidth 32 <<< 0

def Rn (rn : CPURegister) : Word := rn.regCode.setWidth 32 <<< 5

/-- `OpEncode::sf`. -/
def sf (reg : CPURegister) : Word :=
  if reg.regType = .kRegister_X then leftShift 1 1 31 else 0

/-! ### Code buffers -/

/-- The words written so far. -/
structure CodeBuffer where
  buffer : List Word
  deriving DecidableEq

namespace CodeBuffer

def getSize (b : CodeBuffer) : Nat := 4 * b.buffer.length

def emitInst (b : CodeBuffer) (instr : Word) : CodeBuffer := ⟨b.buffer ++ [instr]⟩

def emit64 (b : CodeBuffer) (data : BitVec 64) : CodeBuffer := ⟨b.buffer ++ wordsOf data⟩

def loadInst (b : CodeBuffer) (offset : Nat) : Word := b.buffer.getD (offset / 4) 0

def fixBindLabel (b : CodeBuffer) (offset : Nat) (instr : Word) : CodeBuffer :=
  ⟨b.buffer.set (offset / 4) instr⟩

/-! ### Instructions -/

/-- `ldr(Register, int64_t)`. -/
def ldrLiteral (b : CodeBuffer) (rt : CPURegister) (imm : BitVec 64) : CodeBuffer :=
  let op := if rt.regType = .kRegister_X then LDR_x_literal else LDR_w_literal
  b.emitInst (op ||| (leftShift imm 26 5).setWidth 32 ||| Rt rt)

/-- `OpEncode::scale`. -/
def scale (op : Word) : Nat :=
  if op &&& LoadStoreUnsignedOffsetFixed = LoadStoreUnsignedOffsetFixed then (bits op 30 31).toNat
  else 0

/-- `LoadStore` at an immediate offset. -/
def loadStore (b : CodeBuffer) (op : Word) (rt base : CPURegister) (offset : BitVec 64) :
    CodeBuffer :=
  let imm12 := offset.sshiftRight (scale (LoadStoreUnsignedOffsetFixed ||| op))
  b.emitInst (LoadStoreUnsignedOffsetFixed ||| op ||| (leftShift imm12 12 10).setWidth 32 |||
    Rn base ||| Rt rt)

/-- `ldr(CPURegister, MemOperand)`, whatever the size of the register. -/
def ldr (b : CodeBuffer) (rt base : CPURegister) (offset : BitVec 64) : CodeBuffer :=
  b.loadStore LDR_x rt base offset

def br (b : CodeBuffer) (rn : CPURegister) : CodeBuffer := b.emitInst (BR ||| Rn rn)

def blr (b : CodeBuffer) (rn : CPURegister) : CodeBuffer := b.emitInst (BLR ||| Rn rn)

/-- `MoveWide`, with the shift in bits. -/
def moveWide (b : CodeBuffer) (rd : CPURegister) (imm : BitVec 64) (shift : Nat) (op : Word) :
    CodeBuffer :=
  let shift := if 0 < shift then shift / 16 else 0
  let imm16 := (leftShift imm 16 5).setWidth 32
  b.emitInst (MoveWideImmediateFixed ||| op ||| sf rd |||
    leftShift (BitVec.ofNat 32 shift) 2 21 ||| imm16 ||| Rd rd)

def movz (b : CodeBuffer) (rd : CPURegister) (imm : BitVec 64) (shift : Nat) : CodeBuffer :=
  b.moveWide rd imm shift MOVZ

def movk (b : CodeBuffer) (rd : CPURegister) (imm : BitVec 64) (shift : Nat) : CodeBuffer :=
  b.moveWide rd imm shift MOVK

/-- `Mov(Register, uint64_t)`. -/
def mov (b : CodeBuffer) (rd : CPURegister) (imm : BitVec 64) : CodeBuffer :=
  let h0 := (imm.extractLsb' 0 16).setWidth 64
  let h1 := (imm.extractLsb' 16 16).setWidth 64
  let h2 := (imm.extractLsb' 32 16).setWidth 64
  let h3 := (imm.extractLsb' 48 16).setWidth 64
  (((b.movz rd h0 0).movk rd h1 16).movk rd h2 32).movk rd h3 48

/-- `AddSubImmediate` of an immediate. -/
def addSubImmediate (b : CodeBuffer) (rd rn : CPURegister) (immediate : BitVec 64) (op : Word) :
    CodeBuffer :=
  b.emitInst (op ||| Rd rd ||| Rn rn ||| (leftShift immediate 12 10).setWidth 32)

def add (b : CodeBuffer) (rd rn : CPURegister) (imm : BitVec 64) : CodeBuffer :=
  if rd.regType = .kRegister_X ∧ rn.regType = .kRegister_X then
    b.addSubImmediate rd rn imm ADD_x_imm
  else b.addSubImmediate rd rn imm ADD_w_imm

def adrp (b : CodeBuffer) (rd : CPURegister) (imm : BitVec 64) : CodeBuffer :=
  let immlo := leftShift (bits (imm.sshiftRight 12) 0 1) 2 29
  let immhi := leftShift (bits (imm.sshiftRight 12) 2 20) 19 5
  b.emitInst (ADRP ||| Rd rd ||| immlo.setWidth 32 ||| immhi.setWidth 32)

/-- `AdrpAdd`. -/
def adrpAdd (b : CodeBuffer) (rd : CPURegister) (src dst : Addr) : CodeBuffer :=
  let fromPage := alignFloor src 0x1000
  let toPage := alignFloor dst 0x1000
  let toPageOff := dst % 0x1000
  (b.adrp rd (toPage - fromPage)).add rd rd toPageOff

end CodeBuffer

/-! ### Labels -/

/-- A `PseudoLabel`: its `pos_`, which is negative once it is bound, and the positions of the
instructions that wait for it, all of the one type `kLdrLiteral`. -/
structure PseudoLabel where
  pos_ : Int
  instructions : List Nat
  deriving DecidableEq

namespace PseudoLabel

def unused : PseudoLabel := ⟨0, []⟩

def isBound (l : PseudoLabel) : Bool := l.pos_ < 0

def pos (l : PseudoLabel) : Int :=
  if l.pos_ < 0 then -l.pos_ - 1 else if 0 < l.pos_ then l.pos_ - 1 else 0

def bindTo (l : PseudoLabel) (pos : Int) : PseudoLabel := { l with pos_ := -pos - 1 }

/-- `PseudoLabel::link_to`. -/
def linkTo (l : PseudoLabel) (pos : Nat) : PseudoLabel :=
  { l with instructions := l.instructions ++ [pos] }

/-- The word that refers to a bound label from `position`. -/
def linkWord (l : PseudoLabel) (position : Nat) (inst32 : Word) : Word :=
  let offset := BitVec.ofInt 32 (l.pos - position)
  (inst32 &&& 0xFF00001F) ||| leftShift (offset.sshiftRight 2) 19 5

/-- `link_confused_instructions`. -/
def linkConfusedInstructions (l : PseudoLabel) (b : CodeBuffer) : CodeBuffer :=
  l.instructions.foldl (fun b position =>
    b.fixBindLabel position (l.linkWord position (b.loadInst position))) b

/-- `Ldr(Register, PseudoLabel)`. -/
def ldr (l : PseudoLabel) (b : CodeBuffer) (rt : CPURegister) : PseudoLabel × CodeBuffer :=
  if l.isBound then (l, b.ldrLiteral rt (BitVec.ofInt 64 (l.pos - b.getSize)))
  else (l.linkTo b.getSize, b.ldrLiteral rt 0)

/-- `PseudoBind`. -/
def pseudoBind (l : PseudoLabel) (b : CodeBuffer) : PseudoLabel × CodeBuffer :=
  let l := l.bindTo b.getSize
  (l, if l.instructions = [] then b else l.linkConfusedInstructions b)

end PseudoLabel

/-- A `RelocLabelEntry`: a label with the doubleword that is to lie there. -/
structure RelocLabelEntry where
  label : PseudoLabel
  data : BitVec 64
  deriving DecidableEq

/-- A `TurboAssembler`: the code buffer and `data_labels_`. -/
structure TurboAssembler where
  buffer : CodeBuffer
  dataLabels : List RelocLabelEntry
  deriving DecidableEq

namespace TurboAssembler

def empty : TurboAssembler := ⟨⟨[]⟩, []⟩

/-- A write to the code buffer alone. -/
def code (a : TurboAssembler) (emission : CodeBuffer → CodeBuffer) : TurboAssembler :=
  { a with buffer := emission a.buffer }

/-- `AppendRelocLabelEntry` of a new label, and the place it gets. -/
def appendRelocLabelEntry (a : TurboAssembler) (data : BitVec 64) : TurboAssembler × Nat :=
  ({ a with dataLabels := a.dataLabels ++ [⟨.unused, data⟩] }, a.dataLabels.length)

/-- `Ldr` of the label at a place of `data_labels_`. -/
def ldrReloc (a : TurboAssembler) (rt : CPURegister) (place : Nat) : TurboAssembler :=
  match a.dataLabels[place]? with
  | none => a
  | some entry =>
    let (label, buffer) := entry.label.ldr a.buffer rt
    ⟨buffer, a.dataLabels.set place { entry with label := label }⟩

/-- `RelocBind`, one label. -/
def relocBindEntry (b : CodeBuffer) (entry : RelocLabelEntry) : CodeBuffer :=
  (entry.label.pseudoBind b).2.emit64 entry.data

def relocBind (a : TurboAssembler) : TurboAssembler :=
  { a with buffer := a.dataLabels.foldl relocBindEntry a.buffer }

end TurboAssembler

/-- `CodeGen::LiteralLdrBranch`. -/
def literalLdrBranch (a : TurboAssembler) (address : Addr) : TurboAssembler :=
  a.code fun b =>
    let (addressPtr, b) := PseudoLabel.unused.ldr b TMP_REG_0
    let b := b.br TMP_REG_0
    (addressPtr.pseudoBind b).2.emit64 address

end Il2CppDumper.Dobby
