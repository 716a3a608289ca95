import Il2CppDumper.Clib.Machine
import Il2CppDumper.Clib.Scanf
import Il2CppDumper.Model.Api

/-!
# The hooks and the Zygisk module

`hook.cpp` and `main.cpp`. The variables of `hook.h` are static in a header, so each of the two files
has a copy of its own (`Statics`): `main.cpp` sets and tests its `enable_hack`, and `hook.cpp` its
`il2cpp_handle` and `game_data_dir`.

The buffers that `sscanf` stores into are taken as unbounded.

The hooks run as a program over `hook.cpp`'s handle that may fault, the callbacks of the module as a
machine over both copies, and the hooked calls of many threads with the hack thread as a machine whose
steps are single loads and stores.
-/

namespace Il2CppDumper

open Clib

/-! ### The hooked `dlopen` -/

/-- `hook.cpp`'s `il2cpp_handle`, and whatever else of the process the original may change. -/
structure HookState (ω : Type) where
  il2cppHandle : UInt64
  rest : ω
  deriving DecidableEq

/-- A program in the process of the game, which a fault ends. -/
abbrev HookM (ω : Type) := StateT (HookState ω) (Except Fault)

variable {ω : Type}

/-- The test of `dlopen_process`: whether the handle is to be stored. -/
def dlopenTest (il2cppHandle : UInt64) (name : Option Text) : Except Fault Bool :=
  if il2cppHandle = 0 then return strstr (← cstr name) "libil2cpp.so" else return false

def dlopenProcess (name : Option Text) (handle : UInt64) : HookM ω Unit := do
  if ← dlopenTest (← get).il2cppHandle name then
    modify fun s => { s with il2cppHandle := handle }

theorem dlopenProcess_apply (name : Option Text) (handle : UInt64) (s : HookState ω) :
    dlopenProcess name handle s = (dlopenTest s.il2cppHandle name).map fun store =>
      ((), if store then { s with il2cppHandle := handle } else s) := by
  simp only [dlopenProcess, bind, StateT.bind, Except.bind, pure, Except.pure, get, getThe,
    MonadStateOf.get, StateT.get, liftM, monadLift, MonadLift.monadLift, StateT.lift, Except.map]
  rcases dlopenTest s.il2cppHandle name with fault | store
  · rfl
  · cases store <;> rfl

/-- `HOOK_DEF`: the original, then `dlopen_process`, then the original's handle. -/
def hooked (orig : HookM ω UInt64) (name : Option Text) : HookM ω UInt64 := do
  let handle ← orig
  dlopenProcess name handle
  return handle

def newLoaderDlopen (orig : Option Text → Int → UInt64 → HookM ω UInt64) (filename : Option Text)
    (flags : Int) (callerAddr : UInt64) : HookM ω UInt64 :=
  hooked (orig filename flags callerAddr) filename

def newDoDlopenV24 (orig : Option Text → Int → UInt64 → UInt64 → HookM ω UInt64)
    (name : Option Text) (flags : Int) (extinfo callerAddr : UInt64) : HookM ω UInt64 :=
  hooked (orig name flags extinfo callerAddr) name

def newDoDlopenV19 (orig : Option Text → Int → UInt64 → HookM ω UInt64) (name : Option Text)
    (flags : Int) (extinfo : UInt64) : HookM ω UInt64 :=
  hooked (orig name flags extinfo) name

/-! ### The callbacks of the module -/

/-- One copy of the static variables of `hook.h`. -/
structure Statics where
  enableHack : Int
  il2cppHandle : UInt64
  gameDataDir : Option Text
  deriving DecidableEq, Repr

/-- Both copies, the static buffer of `isGame`, and the number of hack threads created. -/
structure ModuleState where
  main : Statics
  hook : Statics
  packageName : Text
  hackThreads : Nat
  deriving DecidableEq, Repr

def ModuleState.init : ModuleState := ⟨⟨0, 0, none⟩, ⟨0, 0, none⟩, [], 0⟩

def userFormat : Text := "/data/%*[^/]/%d/%s"

def plainFormat : Text := "/data/%*[^/]/%s"

/-- The end of `isGame`: the comparison of the package names. -/
def matchGame (gamePackageName appDataDir : Text) (s : ModuleState) : Int × ModuleState :=
  if s.packageName = gamePackageName then
    (1, { s with hook := { s.hook with gameDataDir := some appDataDir } })
  else (0, s)

def isGame (gamePackageName : Text) (appDataDir : Option Text) (s : ModuleState) :
    Int × ModuleState :=
  match appDataDir with
  | none => (0, s)
  | some appDataDir =>
    let withUser := sscanf appDataDir userFormat
    let s := { s with packageName := storeStr s.packageName withUser.items[1]? }
    if withUser.result ≠ 2 then
      let plain := sscanf appDataDir plainFormat
      let s := { s with packageName := storeStr s.packageName plain.items[0]? }
      if plain.result ≠ 1 then (0, { s with packageName := [] })
      else matchGame gamePackageName appDataDir s
    else matchGame gamePackageName appDataDir s

/-- The arguments that `preAppSpecialize` reads. -/
structure AppSpecializeArgs where
  niceName : Option Text
  appDataDir : Option Text
  deriving DecidableEq, Repr

def preAppSpecialize (gamePackageName : Text) (args : Option AppSpecializeArgs) (s : ModuleState) :
    ModuleState :=
  match args with
  | none => s
  | some args =>
    if args.niceName = none then s
    else
      let (enableHack, s) := isGame gamePackageName args.appDataDir s
      { s with main := { s.main with enableHack } }

/-- `created` says whether `pthread_create` succeeds. -/
def postAppSpecialize (created : Bool) (s : ModuleState) : ModuleState :=
  if s.main.enableHack ≠ 0 ∧ created then { s with hackThreads := s.hackThreads + 1 } else s

/-- The directory that a hack thread passes to `il2cpp_dump` when it gets there. -/
def hackThreadOutDir (s : ModuleState) : Option Text := s.hook.gameDataDir

inductive Callback where
  | preAppSpecialize (args : Option AppSpecializeArgs)
  | postAppSpecialize (created : Bool)
  deriving DecidableEq, Repr

def moduleMachine (gamePackageName : Text) : Machine ModuleState Callback where
  init := .init
  step s
    | .preAppSpecialize args => some (preAppSpecialize gamePackageName args s)
    | .postAppSpecialize created => some (postAppSpecialize created s)

/-! ### Threads -/

/-- Where a thread is in a hooked call. -/
inductive Phase where
  /-- Outside, or in the original `dlopen`. -/
  | outside
  /-- The original has returned the handle. -/
  | returned (name : Option Text) (handle : UInt64)
  /-- The test of `dlopen_process` has passed. -/
  | passed (handle : UInt64)
  deriving DecidableEq, Repr

/-- Where the hack thread is. -/
inductive HackPhase where
  | waiting
  /-- The wait loop has ended on a handle. -/
  | ended (handle : UInt64)
  /-- The handle passed to `il2cpp_dump`, after the one the loop ended on. -/
  | dumping (handle passed : UInt64)
  deriving DecidableEq, Repr

structure ThreadState where
  il2cppHandle : UInt64
  phase : Nat → Phase
  hack : HackPhase

def ThreadState.init : ThreadState := ⟨0, fun _ => .outside, .waiting⟩

def ThreadState.setPhase (s : ThreadState) (t : Nat) (phase : Phase) : ThreadState :=
  { s with phase := fun u => if u = t then phase else s.phase u }

/-- A load or a store of one thread. -/
inductive Action where
  /-- The original `dlopen` of thread `t` returns. -/
  | dlopen (t : Nat) (name : Option Text) (handle : UInt64)
  /-- Thread `t` makes the test of `dlopen_process`. -/
  | test (t : Nat)
  /-- Thread `t` stores its handle. -/
  | store (t : Nat)
  /-- The hack thread makes a turn of its wait loop. -/
  | poll
  /-- The hack thread reads the handle for `il2cpp_dump`. -/
  | dump
  deriving DecidableEq, Repr

/-- A null name that is read ends the process: there is no next state. -/
def threadStep (s : ThreadState) : Action → Option ThreadState
  | .dlopen t name handle =>
    match s.phase t with
    | .outside => some (s.setPhase t (.returned name handle))
    | _ => none
  | .test t =>
    match s.phase t with
    | .returned name handle =>
      match dlopenTest s.il2cppHandle name with
      | .ok true => some (s.setPhase t (.passed handle))
      | .ok false => some (s.setPhase t .outside)
      | .error _ => none
    | _ => none
  | .store t =>
    match s.phase t with
    | .passed handle => some { s.setPhase t .outside with il2cppHandle := handle }
    | _ => none
  | .poll =>
    match s.hack with
    | .waiting => some (if s.il2cppHandle ≠ 0 then { s with hack := .ended s.il2cppHandle } else s)
    | _ => none
  | .dump =>
    match s.hack with
    | .ended handle => some { s with hack := .dumping handle s.il2cppHandle }
    | _ => none

def threadMachine : Machine ThreadState Action := ⟨.init, threadStep⟩

end Il2CppDumper
