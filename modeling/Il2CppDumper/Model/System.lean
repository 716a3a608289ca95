import Il2CppDumper.Dobby.Trampoline
import Il2CppDumper.Hook.Calls
import Il2CppDumper.Model.Interceptor

/-!
# The process of an application

The callbacks of the module, the hack threads and the threads of the application, as one machine over
what they share: the static variables, the memory with Dobby in it, and the pointers to the originals.

A step is what one thread does between two points at which another can see it. So `DobbyHook` is five
steps: it looks for an entry, routes, adds the new entry, stores the original, and patches. The patch is
one step.
-/

namespace Il2CppDumper

open Arm64 Clib Dobby

/-- `atoi`: 0 for a text that is no number. -/
def atoi (t : Text) : Int :=
  match Kind.run (.int .dec) (cstring t) with
  | .ok (.int n, _) => n
  | _ => 0

/-- What is the same in a process from start to end. `sdk` is the property `ro.build.version.sdk`, and
`dlsym` is that of the handle of `libdl.so`. A symbol that is not found is null. -/
structure Environment where
  gamePackageName : Text
  pageSize : Nat
  sdk : Text
  dobbySymbolResolver : Text → Addr
  dlsym : Text → Addr
  /-- The code of `new_##func`. -/
  replacement : Hook → Addr
  memory : Memory

namespace Environment
variable (env : Environment)

def getAndroidApiLevel : Int := atoi env.sdk

/-- A hook of a symbol of the linker, if there is one. -/
def resolved (symbol : Text) (hook : Hook) : Option (Addr × Hook) :=
  if env.dobbySymbolResolver symbol ≠ 0 then some (env.dobbySymbolResolver symbol, hook) else none

/-- The address and the hook with which `hack_thread` calls `DobbyHook`. The branch of `libdl.so` does
not ask whether the address is null. -/
def hookCall : Option (Addr × Hook) :=
  if env.getAndroidApiLevel ≥ 30 then
    env.resolved "__dl__Z9do_dlopenPKciPK17android_dlextinfoPKv" .doDlopenV24
  else if env.getAndroidApiLevel ≥ 26 then some (env.dlsym "__loader_dlopen", .loaderDlopen)
  else if env.getAndroidApiLevel ≥ 24 then
    env.resolved "__dl__Z9do_dlopenPKciPK17android_dlextinfoPv" .doDlopenV24
  else env.resolved "__dl__Z9do_dlopenPKciPK17android_dlextinfo" .doDlopenV19

/-- The trampoline to a replacement. -/
def trampoline (address : Addr) (hook : Hook) : CodeBuffer :=
  generateNormalTrampolineBuffer address (env.replacement hook)

/-- The trampoline is in memory. -/
def trampolined (process : HookedProcess) (address : Addr) (hook : Hook) : Bool :=
  process.instructions address (env.trampoline address hook).buffer.length =
    (env.trampoline address hook).buffer

end Environment

/-! ### Threads -/

/-- A call of a replacement, on the stack of a thread. -/
inductive Frame where
  /-- The replacement has not called the original yet. -/
  | entered (hook : Hook) (name : Option Text)
  /-- The original runs, and with it the initialisers of the library. -/
  | original (hook : Hook) (name : Option Text)
  /-- The original has returned the handle. -/
  | returned (name : Option Text) (handle : UInt64)
  /-- The test of `dlopen_process` has passed. -/
  | passed (handle : UInt64)
  deriving DecidableEq, Repr

/-- Where a hack thread is. In `DobbyHook` it has the buffer of the trampoline and the new entry. -/
inductive HackThread where
  | created
  | routing (address : Addr) (hook : Hook)
  | adding (hook : Hook) (trampolineBuffer : CodeBuffer) (entry : HookEntry)
  | storing (hook : Hook) (trampolineBuffer : CodeBuffer) (entry : HookEntry)
  | committing (trampolineBuffer : CodeBuffer) (entry : HookEntry)
  /-- In the wait loop or after it. -/
  | looping (phase : HackPhase)

/-- A call of `il2cpp_dump`. -/
structure DumpCall where
  handle : UInt64
  outDir : Option Text
  deriving DecidableEq, Repr

structure SystemState where
  statics : ModuleState
  process : HookedProcess
  /-- The variables `orig_##func`. -/
  orig : Hook → Addr
  frames : Nat → List Frame
  hackThread : Nat → HackThread
  dumps : List DumpCall
  /-- The calls whose original has returned, the last one first. -/
  returned : List (Option Text × UInt64)

namespace SystemState

def init (env : Environment) : SystemState where
  statics := .init
  process := ⟨env.memory, [], []⟩
  orig := fun _ => 0
  frames := fun _ => []
  hackThread := fun _ => .created
  dumps := []
  returned := []

def setFrames (s : SystemState) (t : Nat) (frames : List Frame) : SystemState :=
  { s with frames := fun u => if u = t then frames else s.frames u }

def setHackThread (s : SystemState) (h : Nat) (thread : HackThread) : SystemState :=
  { s with hackThread := fun u => if u = h then thread else s.hackThread u }

def setOrig (s : SystemState) (hook : Hook) (address : Addr) : SystemState :=
  { s with orig := fun u => if u = hook then address else s.orig u }

def setIl2cppHandle (s : SystemState) (handle : UInt64) : SystemState :=
  { s with statics := { s.statics with hook := { s.statics.hook with il2cppHandle := handle } } }

end SystemState

/-- The thread runs code of the application. -/
def callsDlopen : List Frame → Bool
  | [] => true
  | .original _ _ :: _ => true
  | _ => false

/-- A step of a hack thread. -/
inductive HackAction where
  /-- It calls `DobbyHook`, which looks for an entry of the address. -/
  | find
  | route (mmap : Option Addr)
  | add
  | storeOrigin
  | commit
  /-- A turn of the wait loop. -/
  | poll
  | dump
  deriving DecidableEq

inductive SystemAction where
  | callback (c : Callback)
  /-- The application writes to memory. -/
  | write (address : Addr) (bytes : List (BitVec 8))
  /-- Thread `t` calls the function that is to be hooked. -/
  | call (t : Nat) (name : Option Text)
  /-- The replacement calls its original. -/
  | callOrigin (t : Nat)
  /-- The original returns. -/
  | dlopen (t : Nat) (handle : UInt64)
  | test (t : Nat)
  | store (t : Nat)
  | hack (h : Nat) (a : HackAction)

/-! ### Steps -/

/-- `DobbyHook` up to its lookup. -/
def findStep (env : Environment) (s : SystemState) (h : Nat) : SystemState :=
  match env.hookCall with
  | none => s.setHackThread h (.looping .waiting)
  | some (address, hook) =>
    if address = 0 ∨ (s.process.findHookEntry address).any
        (fun entry => entry.trampolineTarget = env.replacement hook) then
      s.setHackThread h (.looping .waiting)
    else s.setHackThread h (.routing address hook)

def hackStep (env : Environment) (s : SystemState) (h : Nat) : HackAction → Option SystemState
  | .find =>
    match s.hackThread h with
    | .created => if h < s.statics.hackThreads then some (findStep env s h) else none
    | _ => none
  | .route mmap =>
    match s.hackThread h with
    | .routing address hook =>
      match s.process.dispatchRouting env.pageSize mmap address (env.replacement hook) with
      | .ok (process, trampolineBuffer, entry) =>
        some { s.setHackThread h (.adding hook trampolineBuffer entry) with process }
      | .error _ => none
    | _ => none
  | .add =>
    match s.hackThread h with
    | .adding hook trampolineBuffer entry =>
      let process := { s.process with hookEntryList := entry :: s.process.hookEntryList }
      some { s.setHackThread h (.storing hook trampolineBuffer entry) with process }
    | _ => none
  | .storeOrigin =>
    match s.hackThread h with
    | .storing hook trampolineBuffer entry =>
      some ((s.setOrig hook entry.relocatedOriginFunction).setHackThread h
        (.committing trampolineBuffer entry))
    | _ => none
  | .commit =>
    match s.hackThread h with
    | .committing trampolineBuffer entry =>
      match s.process.memory.codePatch env.pageSize entry.functionAddress
          trampolineBuffer.bytes with
      | .ok memory =>
        some { s.setHackThread h (.looping .waiting) with process := { s.process with memory } }
      | .error _ => none
    | _ => none
  | .poll =>
    match s.hackThread h with
    | .looping .waiting =>
      let il2cppHandle := s.statics.hook.il2cppHandle
      some (if il2cppHandle ≠ 0 then s.setHackThread h (.looping (.ended il2cppHandle)) else s)
    | _ => none
  | .dump =>
    match s.hackThread h with
    | .looping (.ended handle) =>
      let il2cppHandle := s.statics.hook.il2cppHandle
      some { s.setHackThread h (.looping (.dumping handle il2cppHandle)) with
        dumps := ⟨il2cppHandle, hackThreadOutDir s.statics⟩ :: s.dumps }
    | _ => none

/-- A call through a null pointer, a null name that is searched, and what ends the process in Dobby have
no next state. Nor has a trampoline that leads past its replacement. -/
def systemStep (env : Environment) (s : SystemState) : SystemAction → Option SystemState
  | .callback c =>
    ((moduleMachine env.gamePackageName).step s.statics c).map fun statics => { s with statics }
  | .write address bytes =>
    let memory := { s.process.memory with bytes := Arm64.store s.process.memory.bytes address bytes }
    some { s with process := { s.process with memory } }
  | .call t name =>
    if callsDlopen (s.frames t) then
      match env.hookCall with
      | none => some s
      | some (address, hook) =>
        if env.trampolined s.process address hook then
          if landing address (env.replacement hook) = env.replacement hook then
            some (s.setFrames t (.entered hook name :: s.frames t))
          else none
        else some s
    else none
  | .callOrigin t =>
    match s.frames t with
    | .entered hook name :: frames =>
      if s.orig hook ≠ 0 then some (s.setFrames t (.original hook name :: frames)) else none
    | _ => none
  | .dlopen t handle =>
    match s.frames t with
    | .original _ name :: frames =>
      some { s.setFrames t (.returned name handle :: frames) with
        returned := (name, handle) :: s.returned }
    | _ => none
  | .test t =>
    match s.frames t with
    | .returned name handle :: frames =>
      match dlopenTest s.statics.hook.il2cppHandle name with
      | .ok true => some (s.setFrames t (.passed handle :: frames))
      | .ok false => some (s.setFrames t frames)
      | .error _ => none
    | _ => none
  | .store t =>
    match s.frames t with
    | .passed handle :: frames => some ((s.setFrames t frames).setIl2cppHandle handle)
    | _ => none
  | .hack h a => hackStep env s h a

def systemMachine (env : Environment) : Machine SystemState SystemAction :=
  ⟨.init env, systemStep env⟩

end Il2CppDumper
