import Il2CppDumper.Model.Relocation

/-!
# Dobby's interceptor

`CodePatch`, the arena that code is allocated from, the list of hooks, and `DobbyHook` and
`DobbyDestroy` over these. A store to a page that is not writable and an unimplemented instruction
end the process.

The page size is that of `sysconf`, and what `mmap` returns when a call asks it for a page comes with
the call. `list_add` puts an entry at the head of the list; the list is taken as a list.
-/

namespace Il2CppDumper.Dobby

open Arm64

/-- How the process ends. -/
inductive Crash
  | abort
  | segv
  deriving DecidableEq

/-- The memory of the process with the addresses that may be written. All of it can be read, so that
the read of the word behind the block in `GenRelocateCodeAndBranch` is no fault here. -/
structure Memory where
  bytes : Mem
  writable : Addr → Bool

/-! ### `CodePatch` -/

namespace Memory

/-- `mprotect` of one page, with or without `PROT_WRITE`. -/
def mprotect (m : Memory) (page : Addr) (pageSize : Nat) (write : Bool) : Memory :=
  { m with writable := fun x => if (x - page).toNat < pageSize then write else m.writable x }

/-- `memcpy` of a buffer to an address. -/
def memcpy (m : Memory) (address : Addr) (buffer : List (BitVec 8)) : Except Crash Memory :=
  if (List.range buffer.length).all fun i => m.writable (address + BitVec.ofNat 64 i) then
    .ok { m with bytes := store m.bytes address buffer }
  else .error .segv

/-- `CodePatch`. -/
def codePatch (pageSize : Nat) (m : Memory) (address : Addr) (buffer : List (BitVec 8)) :
    Except Crash Memory := do
  let pageAlignAddress := alignFloor address (BitVec.ofNat 64 pageSize)
  let m := m.mprotect pageAlignAddress pageSize true
  let m ← m.memcpy address buffer
  return m.mprotect pageAlignAddress pageSize false

end Memory

/-! ### The arena -/

inductive MemoryPermission
  | kNoAccess
  | kRead
  | kReadWrite
  | kReadWriteExecute
  | kReadExecute
  deriving DecidableEq

structure MemoryChunk where
  address : Addr
  length : Nat
  deriving DecidableEq

structure PageChunk where
  page : MemoryChunk
  pageCursor : Addr
  permission : MemoryPermission
  chunks : List MemoryChunk
  deriving DecidableEq

/-- `MemoryArena::pageChunks`. -/
abbrev MemoryArena := List PageChunk

namespace MemoryArena

/-- Whether `AllocateChunk` takes the page. -/
def fits (page : PageChunk) (allocSize : Nat) (permission : MemoryPermission) : Bool :=
  page.permission = permission ∧
    page.pageCursor + BitVec.ofNat 64 allocSize <
      page.page.address + BitVec.ofNat 64 page.page.length

/-- A chunk at the cursor of a page. -/
def take (page : PageChunk) (allocSize : Nat) : MemoryChunk × PageChunk :=
  let chunk : MemoryChunk := ⟨page.pageCursor, allocSize⟩
  (chunk, { page with
    chunks := page.chunks ++ [chunk]
    pageCursor := page.pageCursor + BitVec.ofNat 64 allocSize })

/-- `AllocateChunk`: from the first page that fits, or from a new page. -/
def allocateChunk (pageSize : Nat) (mmap : Option Addr) (allocSize : Nat)
    (permission : MemoryPermission) : MemoryArena → MemoryArena × Option MemoryChunk
  | [] =>
    match mmap with
    | none => ([], none)
    | some pageAddress =>
      let (chunk, page) := take ⟨⟨pageAddress, pageSize⟩, pageAddress, permission, []⟩ allocSize
      ([page], some chunk)
  | page :: pages =>
    if fits page allocSize permission then
      let (chunk, page) := take page allocSize
      (page :: pages, some chunk)
    else
      let (pages, chunk) := allocateChunk pageSize mmap allocSize permission pages
      (page :: pages, chunk)

/-- `AllocateCodeChunk`. -/
def allocateCodeChunk (pageSize : Nat) (mmap : Option Addr) (arena : MemoryArena)
    (allocSize : Nat) : MemoryArena × Option MemoryChunk :=
  allocateChunk pageSize mmap allocSize .kReadExecute arena

end MemoryArena

/-! ### Hooks -/

/-- A `HookEntry`: its id, the hooked address, the target of its route, the relocated instructions,
and the instructions they are from. -/
structure HookEntry where
  id : Nat
  functionAddress : Addr
  trampolineTarget : Addr
  relocatedOriginFunction : Addr
  chunk : MemoryChunk
  chunkBuffer : List (BitVec 8)
  deriving DecidableEq

/-- The process with Dobby in it: `hook_entry_list_` starts with the newest entry. -/
structure HookedProcess where
  memory : Memory
  pageChunks : MemoryArena
  hookEntryList : List HookEntry

/-- The bytes of a code buffer. -/
def CodeBuffer.bytes (b : CodeBuffer) : List (BitVec 8) := b.buffer.flatMap bytesOf

namespace HookedProcess

/-- `FindHookEntry`. -/
def findHookEntry (s : HookedProcess) (address : Addr) : Option HookEntry :=
  s.hookEntryList.find? fun entry => entry.functionAddress = address

/-- The instructions that a trampoline of `n` words covers. -/
def instructions (s : HookedProcess) (address : Addr) (n : Nat) : List Word :=
  (List.range n).map fun i => read32 s.memory.bytes (wordAddr address i)

/-- `FinalizeFromTurboAssembler` of a buffer that has no address yet. -/
def finalize (pageSize : Nat) (mmap : Option Addr) (s : HookedProcess) (buffer : CodeBuffer) :
    Except Crash (HookedProcess × MemoryChunk) :=
  -- four more bytes than the code are allocated
  match s.pageChunks.allocateCodeChunk pageSize mmap (buffer.getSize + 4) with
  | (_, none) => .error .segv
  | (pageChunks, some chunk) => do
    let memory ← s.memory.codePatch pageSize chunk.address buffer.bytes
    return ({ s with memory, pageChunks }, chunk)

/-- `DispatchRouting`: the trampoline, and the relocated form of the instructions it covers. -/
def dispatchRouting (pageSize : Nat) (mmap : Option Addr) (s : HookedProcess)
    (address replaceCall : Addr) : Except Crash (HookedProcess × CodeBuffer × HookEntry) :=
  let trampolineBuffer := generateNormalTrampolineBuffer address replaceCall
  let size := trampolineBuffer.getSize
  match genRelocateCodeAndBranch address (s.instructions address trampolineBuffer.buffer.length) with
  | none => .error .abort
  | some buffer => do
    let (s, relocated) ← s.finalize pageSize mmap buffer
    let entry : HookEntry := {
      id := s.hookEntryList.length
      functionAddress := address
      trampolineTarget := replaceCall
      relocatedOriginFunction := relocated.address
      chunk := ⟨address, size⟩
      chunkBuffer := load s.memory.bytes address size }
    return (s, trampolineBuffer, entry)

/-- `DobbyHook`: what it returns, and what it stores in `origin_call`. -/
def dobbyHook (pageSize : Nat) (mmap : Option Addr) (s : HookedProcess)
    (address replaceCall : Addr) : Except Crash (HookedProcess × Int × Option Addr) :=
  if address = 0 then .ok (s, -1, none)
  else if (s.findHookEntry address).any fun entry => entry.trampolineTarget = replaceCall then
    .ok (s, -1, none)
  else do
    let (s, trampolineBuffer, entry) ← s.dispatchRouting pageSize mmap address replaceCall
    let s := { s with hookEntryList := entry :: s.hookEntryList }
    -- the patch comes last
    let memory ← s.memory.codePatch pageSize address trampolineBuffer.bytes
    return ({ s with memory }, 0, some entry.relocatedOriginFunction)

/-- `DobbyDestroy`. -/
def dobbyDestroy (pageSize : Nat) (s : HookedProcess) (address : Addr) :
    Except Crash (HookedProcess × Int) :=
  match s.findHookEntry address with
  | none => .ok (s, -1)
  | some entry => do
    let memory ← s.memory.codePatch pageSize address entry.chunkBuffer
    let hookEntryList :=
      s.hookEntryList.eraseP fun entry => entry.functionAddress = address
    return ({ s with memory, hookEntryList }, 0)

end HookedProcess

end Il2CppDumper.Dobby
