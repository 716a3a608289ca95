import Il2CppDumper.Dobby.Session
import Il2CppDumper.Hook.Callbacks
import Il2CppDumper.Model.System

/-!
# The hook in a process of many threads

The hooked function is called while hack threads set the hook, and a call is led to the replacement as
soon as the trampoline is in memory. By then the original is known: no call goes through a null pointer
(`original_never_null`).

`Originals` is the invariant. What is known of an original beside that it is not null is a parameter of
it.
-/

namespace Il2CppDumper

open Arm64 Clib Dobby

/-! ### Steps -/

/-- What a step of a hack thread is and does. -/
inductive HackMove (env : Environment) (s : SystemState) (h : Nat) : HackAction → SystemState → Prop
  /-- Nothing is hooked: no symbol, a null address, or a function that is hooked already. -/
  | refuse : s.hackThread h = .created → h < s.statics.hackThreads →
      HackMove env s h .find (s.setHackThread h (.looping .waiting))
  | find {address : Addr} {hook : Hook} : s.hackThread h = .created → h < s.statics.hackThreads →
      env.hookCall = some (address, hook) → address ≠ 0 →
      (∀ entry, s.process.findHookEntry address = some entry →
        entry.trampolineTarget ≠ env.replacement hook) →
      HackMove env s h .find (s.setHackThread h (.routing address hook))
  | route {mmap : Option Addr} {address : Addr} {hook : Hook} {process : HookedProcess}
      {trampolineBuffer : CodeBuffer} {entry : HookEntry} : s.hackThread h = .routing address hook →
      s.process.dispatchRouting env.pageSize mmap address (env.replacement hook) =
        .ok (process, trampolineBuffer, entry) →
      HackMove env s h (.route mmap)
        { s.setHackThread h (.adding hook trampolineBuffer entry) with process }
  | add {hook : Hook} {trampolineBuffer : CodeBuffer} {entry : HookEntry} :
      s.hackThread h = .adding hook trampolineBuffer entry →
      HackMove env s h .add { s.setHackThread h (.storing hook trampolineBuffer entry) with
        process := { s.process with hookEntryList := entry :: s.process.hookEntryList } }
  | storeOrigin {hook : Hook} {trampolineBuffer : CodeBuffer} {entry : HookEntry} :
      s.hackThread h = .storing hook trampolineBuffer entry →
      HackMove env s h .storeOrigin ((s.setOrig hook entry.relocatedOriginFunction).setHackThread h
        (.committing trampolineBuffer entry))
  | commit {trampolineBuffer : CodeBuffer} {entry : HookEntry} {memory : Memory} :
      s.hackThread h = .committing trampolineBuffer entry →
      s.process.memory.codePatch env.pageSize entry.functionAddress trampolineBuffer.bytes =
        .ok memory →
      HackMove env s h .commit
        { s.setHackThread h (.looping .waiting) with process := { s.process with memory } }
  | wait : s.hackThread h = .looping .waiting → s.statics.hook.il2cppHandle = 0 →
      HackMove env s h .poll s
  | stop : s.hackThread h = .looping .waiting → s.statics.hook.il2cppHandle ≠ 0 →
      HackMove env s h .poll
        (s.setHackThread h (.looping (.ended s.statics.hook.il2cppHandle)))
  | dump {handle : UInt64} : s.hackThread h = .looping (.ended handle) →
      HackMove env s h .dump
        { s.setHackThread h (.looping (.dumping handle s.statics.hook.il2cppHandle)) with
          dumps := ⟨s.statics.hook.il2cppHandle, hackThreadOutDir s.statics⟩ :: s.dumps }

/-- What a step is and does. -/
inductive SystemMove (env : Environment) (s : SystemState) : SystemAction → SystemState → Prop
  | callback {c : Callback} {statics : ModuleState} :
      (moduleMachine env.gamePackageName).step s.statics c = some statics →
      SystemMove env s (.callback c) { s with statics }
  | write {address : Addr} {bytes : List (BitVec 8)} :
      SystemMove env s (.write address bytes) { s with process := { s.process with
        memory := { s.process.memory with
          bytes := Arm64.store s.process.memory.bytes address bytes } } }
  /-- The function is not hooked. -/
  | plain {t : Nat} {name : Option Text} : SystemMove env s (.call t name) s
  | call {t : Nat} {name : Option Text} {address : Addr} {hook : Hook} :
      callsDlopen (s.frames t) = true → env.hookCall = some (address, hook) →
      env.trampolined s.process address hook = true →
      landing address (env.replacement hook) = env.replacement hook →
      SystemMove env s (.call t name) (s.setFrames t (.entered hook name :: s.frames t))
  | callOrigin {t : Nat} {hook : Hook} {name : Option Text} {frames : List Frame} :
      s.frames t = .entered hook name :: frames → s.orig hook ≠ 0 →
      SystemMove env s (.callOrigin t) (s.setFrames t (.original hook name :: frames))
  | dlopen {t : Nat} {hook : Hook} {name : Option Text} {handle : UInt64} {frames : List Frame} :
      s.frames t = .original hook name :: frames →
      SystemMove env s (.dlopen t handle) { s.setFrames t (.returned name handle :: frames) with
        returned := (name, handle) :: s.returned }
  | pass {t : Nat} {name : Option Text} {handle : UInt64} {frames : List Frame} :
      s.frames t = .returned name handle :: frames →
      dlopenTest s.statics.hook.il2cppHandle name = .ok true →
      SystemMove env s (.test t) (s.setFrames t (.passed handle :: frames))
  | skip {t : Nat} {name : Option Text} {handle : UInt64} {frames : List Frame} :
      s.frames t = .returned name handle :: frames →
      dlopenTest s.statics.hook.il2cppHandle name = .ok false →
      SystemMove env s (.test t) (s.setFrames t frames)
  | store {t : Nat} {handle : UInt64} {frames : List Frame} :
      s.frames t = .passed handle :: frames →
      SystemMove env s (.store t) ((s.setFrames t frames).setIl2cppHandle handle)
  | hack {h : Nat} {a : HackAction} {s' : SystemState} : HackMove env s h a s' →
      SystemMove env s (.hack h a) s'

section moves
variable {env : Environment} {s s' : SystemState}

theorem hackMove_of_step {h : Nat} {a : HackAction} (hstep : hackStep env s h a = some s') :
    HackMove env s h a s' := by
  cases a with
  | find =>
    simp only [hackStep] at hstep
    split at hstep
    · rename_i hthread
      split_ifs at hstep with hh
      obtain rfl := Option.some.inj hstep
      unfold findStep
      split
      · exact .refuse hthread hh
      · rename_i address hook hcall
        split_ifs with hfound
        · exact .refuse hthread hh
        · obtain ⟨haddress, hnone⟩ := not_or.1 hfound
          refine .find hthread hh hcall haddress ?_
          intro entry hentry htarget
          apply hnone
          rw [hentry, Option.any_some]
          exact decide_eq_true htarget
    · cases hstep
  | route mmap =>
    simp only [hackStep] at hstep
    split at hstep
    · rename_i hthread
      split at hstep
      · rename_i hroute
        obtain rfl := Option.some.inj hstep
        exact .route hthread hroute
      · cases hstep
    · cases hstep
  | add =>
    simp only [hackStep] at hstep
    split at hstep
    · rename_i hthread
      obtain rfl := Option.some.inj hstep
      exact .add hthread
    · cases hstep
  | storeOrigin =>
    simp only [hackStep] at hstep
    split at hstep
    · rename_i hthread
      obtain rfl := Option.some.inj hstep
      exact .storeOrigin hthread
    · cases hstep
  | commit =>
    simp only [hackStep] at hstep
    split at hstep
    · rename_i hthread
      split at hstep
      · rename_i hpatch
        obtain rfl := Option.some.inj hstep
        exact .commit hthread hpatch
      · cases hstep
    · cases hstep
  | poll =>
    simp only [hackStep] at hstep
    split at hstep
    · rename_i hthread
      split_ifs at hstep with hhandle
      · obtain rfl := Option.some.inj hstep
        exact .stop hthread hhandle
      · obtain rfl := Option.some.inj hstep
        exact .wait hthread (not_not.1 hhandle)
    · cases hstep
  | dump =>
    simp only [hackStep] at hstep
    split at hstep
    · rename_i hthread
      obtain rfl := Option.some.inj hstep
      exact .dump hthread
    · cases hstep

theorem systemMove_of_step {a : SystemAction} (hstep : systemStep env s a = some s') :
    SystemMove env s a s' := by
  cases a with
  | callback c =>
    obtain ⟨statics, hstatics, rfl⟩ := Option.map_eq_some_iff.1 hstep
    exact .callback hstatics
  | write address bytes =>
    obtain rfl := Option.some.inj hstep
    exact .write
  | call t name =>
    simp only [systemStep] at hstep
    split_ifs at hstep with hframes
    split at hstep
    · obtain rfl := Option.some.inj hstep
      exact .plain
    · rename_i hcall
      split_ifs at hstep with htrampoline hlanding
      · obtain rfl := Option.some.inj hstep
        exact .call hframes hcall htrampoline hlanding
      · obtain rfl := Option.some.inj hstep
        exact .plain
  | callOrigin t =>
    simp only [systemStep] at hstep
    split at hstep
    · rename_i hframes
      split_ifs at hstep with horig
      obtain rfl := Option.some.inj hstep
      exact .callOrigin hframes horig
    · cases hstep
  | dlopen t handle =>
    simp only [systemStep] at hstep
    split at hstep
    · rename_i hframes
      obtain rfl := Option.some.inj hstep
      exact .dlopen hframes
    · cases hstep
  | test t =>
    simp only [systemStep] at hstep
    split at hstep
    · rename_i hframes
      split at hstep
      · rename_i htest
        obtain rfl := Option.some.inj hstep
        exact .pass hframes htest
      · rename_i htest
        obtain rfl := Option.some.inj hstep
        exact .skip hframes htest
      · cases hstep
    · cases hstep
  | store t =>
    simp only [systemStep] at hstep
    split at hstep
    · rename_i hframes
      obtain rfl := Option.some.inj hstep
      exact .store hframes
    · cases hstep
  | hack h a => exact .hack (hackMove_of_step hstep)

theorem HackMove.frame {h : Nat} {a : HackAction} (hmove : HackMove env s h a s') :
    s'.statics = s.statics ∧ s'.frames = s.frames ∧
      ∀ u, u ≠ h → s'.hackThread u = s.hackThread u := by
  cases hmove with
  | wait _ _ => exact ⟨rfl, rfl, fun _ _ => rfl⟩
  | _ => exact ⟨rfl, rfl, fun u hu => if_neg hu⟩

theorem il2cppHandle_of_callback {g : Text} {c : Callback} {statics statics' : ModuleState}
    (h : (moduleMachine g).step statics c = some statics') :
    statics'.hook.il2cppHandle = statics.hook.il2cppHandle := by
  cases c with
  | preAppSpecialize args =>
    obtain rfl := Option.some.inj h
    match args with
    | none => rfl
    | some ⟨none, appDataDir⟩ => rfl
    | some ⟨some niceName, appDataDir⟩ =>
      show (isGame g appDataDir statics).2.hook.il2cppHandle = _
      rcases isGame_cases g appDataDir statics with ⟨dir, -, -, hgame⟩ | ⟨buffer, hgame⟩
      · rw [hgame]
      · rw [hgame]
  | postAppSpecialize created =>
    obtain rfl := Option.some.inj h
    show (postAppSpecialize created statics).hook.il2cppHandle = _
    rw [postAppSpecialize]
    split <;> rfl

end moves

/-! ### Memory -/

section memory
variable {env : Environment} {process process' : HookedProcess} {address : Addr} {hook : Hook}

theorem covered_congr (replaceCall : Addr)
    (h : ∀ x ∈ region address 16, process'.memory.bytes x = process.memory.bytes x) :
    process'.covered address replaceCall = process.covered address replaceCall := by
  have hlen := trampoline_length address replaceCall
  apply List.map_congr_left
  intro i hi
  have hi := List.mem_range.1 hi
  apply read32_congr
  intro x hx
  exact h x (region_subset (n := 4) (i := 4 * i) (by omega) hx)

theorem trampolined_congr
    (h : ∀ x ∈ region address 16, process'.memory.bytes x = process.memory.bytes x) :
    env.trampolined process' address hook = env.trampolined process address hook := by
  have hcovered := covered_congr (env.replacement hook) h
  unfold HookedProcess.covered at hcovered
  unfold Environment.trampolined Environment.trampoline
  rw [hcovered]

/-- All code in the arena stays. -/
def ArenaKept (process process' : HookedProcess) : Prop :=
  ∀ c ∈ chunksOf process.pageChunks, c ∈ chunksOf process'.pageChunks ∧
    ∀ x ∈ c.region, process'.memory.bytes x = process.memory.bytes x

theorem ArenaKept.refl (process : HookedProcess) : ArenaKept process process :=
  fun _ hc => ⟨hc, fun _ _ => rfl⟩

theorem arenaKept_store {pageSize : Nat} (harena : ArenaSound pageSize process.pageChunks)
    {a : Addr} {bs : List (BitVec 8)} {writable : Addr → Bool}
    (h : Disjoint (arenaRegion process.pageChunks) (region a bs.length)) :
    ArenaKept process { process with memory := ⟨Arm64.store process.memory.bytes a bs, writable⟩ } := by
  intro c hc
  refine ⟨hc, fun x hx => store_outside ?_⟩
  exact Set.disjoint_left.1 h (mem_arenaRegion harena hc hx)

theorem routed {pageSize : Nat} {mmap : Option Addr} {replaceCall : Addr}
    {trampolineBuffer : CodeBuffer} {entry : HookEntry}
    (h : process.dispatchRouting pageSize mmap address replaceCall =
      .ok (process', trampolineBuffer, entry)) :
    ∃ (F : CodeBuffer) (hooked : HookedProcess),
      HookedProcess.Hooked pageSize mmap process hooked address replaceCall
        entry.relocatedOriginFunction F ∧
      hooked.pageChunks = process'.pageChunks ∧
      process'.memory.bytes =
        Arm64.store process.memory.bytes entry.relocatedOriginFunction F.bytes ∧
      process'.hookEntryList = process.hookEntryList ∧
      trampolineBuffer = generateNormalTrampolineBuffer address replaceCall ∧
      entry.functionAddress = address ∧ entry.trampolineTarget = replaceCall := by
  obtain ⟨F, c, hgen, halloc, hmem, hlist, rfl, rfl⟩ := HookedProcess.dispatchRouting_inv h
  have hbytes : process'.memory.bytes = Arm64.store process.memory.bytes c.address F.bytes := by
    rw [hmem]
    rfl
  refine ⟨F, ⟨process'.memory.patched pageSize address
      (generateNormalTrampolineBuffer address replaceCall).bytes, process'.pageChunks,
      process.newEntry address replaceCall c.address process'.memory.bytes ::
        process'.hookEntryList⟩, ⟨hgen, ⟨c, halloc, rfl⟩, ?_, ?_, ?_⟩, rfl, hbytes, hlist, rfl, rfl,
      rfl⟩
  · show Arm64.store process'.memory.bytes address _ = _
    rw [hbytes]
    rfl
  · rw [hbytes, hlist]
    rfl
  · intro x hx
    obtain ⟨hx, haddress⟩ := Memory.patched_writable hx
    rw [hmem] at hx
    obtain ⟨hx, horigin⟩ := Memory.patched_writable hx
    exact ⟨hx, haddress, horigin⟩

end memory

/-! ### Steps with nothing in between -/

section undisturbed
variable {env : Environment} {s : SystemState}

/-- The steps of a hack thread are `DobbyHook`. -/
theorem run_dobbyHook {h : Nat} {mmap : Option Addr} {address : Addr} {hook : Hook}
    {process : HookedProcess} {r : Int} {origin : Option Addr} (hthread : s.hackThread h = .created)
    (hh : h < s.statics.hackThreads) (hcall : env.hookCall = some (address, hook))
    (hhook : s.process.dobbyHook env.pageSize mmap address (env.replacement hook) =
      .ok (process, r, origin)) :
    ∃ as ∈ [[SystemAction.hack h .find], [.hack h .find, .hack h (.route mmap), .hack h .add,
        .hack h .storeOrigin, .hack h .commit]],
      (systemMachine env).run s as = some { s.setHackThread h (.looping .waiting) with
        process
        orig := (origin.elim s (s.setOrig hook)).orig } := by
  unfold HookedProcess.dobbyHook at hhook
  by_cases hrefuse : address = 0 ∨ (s.process.findHookEntry address).any
      (fun entry => entry.trampolineTarget = env.replacement hook) = true
  · -- the function is null or hooked
    have hfind : findStep env s h = s.setHackThread h (.looping .waiting) := by
      simp only [findStep, hcall, if_pos hrefuse]
    have hsame : process = s.process ∧ origin = none := by
      rcases hrefuse with hzero | hfound
      · rw [if_pos hzero] at hhook
        cases hhook
        exact ⟨rfl, rfl⟩
      · rw [if_pos hfound, ite_self] at hhook
        cases hhook
        exact ⟨rfl, rfl⟩
    obtain ⟨rfl, rfl⟩ := hsame
    refine ⟨_, List.mem_cons_self, ?_⟩
    simp only [Machine.run, systemMachine, systemStep, hackStep, hthread, if_pos hh, hfind]
    rfl
  · have hfind : findStep env s h = s.setHackThread h (.routing address hook) := by
      simp only [findStep, hcall, if_neg hrefuse]
    obtain ⟨haddress, hnone⟩ := not_or.1 hrefuse
    rw [if_neg haddress, if_neg hnone] at hhook
    obtain ⟨⟨process', trampolineBuffer, entry⟩, hroute, hadded⟩ := bind_eq_ok.1 hhook
    obtain ⟨memory, hpatch, hdone⟩ := bind_eq_ok.1 hadded
    obtain ⟨-, -, -, -, -, -, rfl, rfl, -⟩ := routed hroute
    cases hdone
    refine ⟨_, List.mem_cons_of_mem _ List.mem_cons_self, ?_⟩
    simp only [Machine.run, systemMachine, systemStep, hackStep, hthread, if_pos hh, hfind,
      SystemState.setHackThread, if_true, hroute, SystemState.setOrig, hpatch]
    simp only [Option.some.injEq, SystemState.mk.injEq, true_and, and_true]
    refine ⟨rfl, ?_⟩
    funext u
    by_cases hu : u = h
    · simp only [if_pos hu]
    · simp only [if_neg hu]

/-- The steps of a call are `hooked`. -/
theorem run_hooked {t : Nat} {hook : Hook} {name : Option Text} {handle result captured : UInt64}
    {frames : List Frame} (hframes : s.frames t = .entered hook name :: frames)
    (horig : s.orig hook ≠ 0)
    (h : hooked (return handle) name ⟨s.statics.hook.il2cppHandle, ()⟩ =
      .ok (result, ⟨captured, ()⟩)) :
    result = handle ∧
      ∃ as ∈ [[SystemAction.callOrigin t, .dlopen t handle, .test t],
          [.callOrigin t, .dlopen t handle, .test t, .store t]],
        (systemMachine env).run s as = some { (s.setFrames t frames).setIl2cppHandle captured with
          returned := (name, handle) :: s.returned } := by
  have hsame : ∀ fs gs : List Frame, (fun u => if u = t then gs else if u = t then fs
      else s.frames u) = fun u => if u = t then gs else s.frames u := by
    intro fs gs
    funext u
    split <;> rfl
  rw [Calls.hooked_apply] at h
  have h : (dlopenTest s.statics.hook.il2cppHandle name).map (fun store =>
      (handle, if store then (⟨handle, ()⟩ : HookState Unit) else ⟨s.statics.hook.il2cppHandle, ()⟩)) =
      .ok (result, ⟨captured, ()⟩) := h
  rcases htest : dlopenTest s.statics.hook.il2cppHandle name with fault | store
  · rw [htest] at h
    cases h
  rw [htest] at h
  cases store with
  | false =>
    cases h
    refine ⟨rfl, _, List.mem_cons_self, ?_⟩
    simp only [Machine.run, systemMachine, systemStep, hframes, SystemState.setFrames, horig, ne_eq,
      not_false_eq_true, if_true, htest, hsame]
    rfl
  | true =>
    cases h
    refine ⟨rfl, _, List.mem_cons_of_mem _ List.mem_cons_self, ?_⟩
    simp only [Machine.run, systemMachine, systemStep, hframes, SystemState.setFrames, horig, ne_eq,
      not_false_eq_true, if_true, htest, hsame]
    rfl

end undisturbed

/-! ### Originals -/

/-- What `mmap` returns is a new page that is not at 0, and the application writes neither to the
function to be hooked nor to the arena. -/
def Allowed (env : Environment) (s : SystemState) : SystemAction → Prop
  | .hack _ (.route mmap) => ∀ a, mmap = some a →
      a ≠ 0 ∧ FreshPage env.pageSize s.process.pageChunks a ∧
      ∀ address hook, env.hookCall = some (address, hook) →
        Disjoint (region a env.pageSize) (region address 16)
  | .write a bytes => Disjoint (arenaRegion s.process.pageChunks) (region a bytes.length) ∧
      ∀ address hook, env.hookCall = some (address, hook) →
        Disjoint (region address 16) (region a bytes.length)
  | _ => True

/-- The original of a hook that is being set: `P` holds of it, or of what is stored already. -/
def HackThread.Sound (env : Environment) (P : Addr → Prop) (orig : Hook → Addr) : HackThread → Prop
  | .created => True
  | .routing address hook => env.hookCall = some (address, hook)
  | .adding hook trampolineBuffer entry => env.hookCall = some (entry.functionAddress, hook) ∧
      trampolineBuffer = env.trampoline entry.functionAddress hook ∧
      entry.trampolineTarget = env.replacement hook ∧ P entry.relocatedOriginFunction
  | .storing hook trampolineBuffer entry => env.hookCall = some (entry.functionAddress, hook) ∧
      trampolineBuffer = env.trampoline entry.functionAddress hook ∧
      entry.trampolineTarget = env.replacement hook ∧ P entry.relocatedOriginFunction
  | .committing trampolineBuffer entry => ∃ hook,
      env.hookCall = some (entry.functionAddress, hook) ∧
      trampolineBuffer = env.trampoline entry.functionAddress hook ∧ orig hook ≠ 0
  | .looping _ => True

/-- A function is as it was until its original is stored, of which `P` holds. -/
structure Originals (env : Environment) (P : HookedProcess → Addr → Prop) (s : SystemState) :
    Prop where
  arena : ArenaSound env.pageSize s.process.pageChunks
  nonzero : 0 ∉ arenaRegion s.process.pageChunks
  apart : ∀ address hook, env.hookCall = some (address, hook) →
    Disjoint (arenaRegion s.process.pageChunks) (region address 16)
  threads : ∀ h, (s.hackThread h).Sound env (P s.process) s.orig
  orig : ∀ hook, s.orig hook ≠ 0 → P s.process (s.orig hook)
  unpatched : ∀ address hook, env.hookCall = some (address, hook) → s.orig hook = 0 →
    ∀ x ∈ region address 16, s.process.memory.bytes x = env.memory.bytes x
  entered : ∀ t hook name, .entered hook name ∈ s.frames t →
    s.orig hook ≠ 0 ∧ ∃ address, env.hookCall = some (address, hook)

section originals
variable {env : Environment} {P : HookedProcess → Addr → Prop} {s s' : SystemState}

theorem HackThread.Sound.mono {Q R : Addr → Prop} {orig orig' : Hook → Addr} {thread : HackThread}
    (h : thread.Sound env Q orig) (hQ : ∀ a, Q a → R a)
    (horig : ∀ hook, orig hook ≠ 0 → orig' hook ≠ 0) : thread.Sound env R orig' := by
  cases thread with
  | created => trivial
  | routing address hook => exact h
  | adding hook trampolineBuffer entry =>
    obtain ⟨hcall, hbuffer, htarget, horigin⟩ := h
    exact ⟨hcall, hbuffer, htarget, hQ _ horigin⟩
  | storing hook trampolineBuffer entry =>
    obtain ⟨hcall, hbuffer, htarget, horigin⟩ := h
    exact ⟨hcall, hbuffer, htarget, hQ _ horigin⟩
  | committing trampolineBuffer entry =>
    obtain ⟨hook, hcall, hbuffer, hne⟩ := h
    exact ⟨hook, hcall, hbuffer, horig hook hne⟩
  | looping phase => trivial

theorem Originals.frames (hs : Originals env P s) (hprocess : s'.process = s.process)
    (hthreads : s'.hackThread = s.hackThread) (horig : s'.orig = s.orig)
    (hframes : ∀ t hook name, .entered hook name ∈ s'.frames t →
      .entered hook name ∈ s.frames t ∨
        s.orig hook ≠ 0 ∧ ∃ address, env.hookCall = some (address, hook)) : Originals env P s' where
  arena := hprocess ▸ hs.arena
  nonzero := hprocess ▸ hs.nonzero
  apart := hprocess ▸ hs.apart
  threads := by
    rw [hprocess, hthreads, horig]
    exact hs.threads
  orig := by
    rw [hprocess, horig]
    exact hs.orig
  unpatched := by
    rw [hprocess, horig]
    exact hs.unpatched
  entered t hook name hmem := by
    rw [horig]
    exact (hframes t hook name hmem).elim (hs.entered t hook name) id

theorem mem_setFrames {t u : Nat} {frames : List Frame} {frame : Frame}
    (h : frame ∈ (s.setFrames t frames).frames u) :
    (u = t ∧ frame ∈ frames) ∨ frame ∈ s.frames u := by
  by_cases hu : u = t
  · subst hu
    exact .inl ⟨rfl, by simpa [SystemState.setFrames] using h⟩
  · exact .inr (by simpa [SystemState.setFrames, hu] using h)

theorem entered_of_goes_on {t : Nat} {frame : Frame} {frames new : List Frame}
    (hframes : s.frames t = frame :: frames)
    (hnew : ∀ hook name, .entered hook name ∈ new → .entered hook name ∈ frames) (u : Nat)
    (hook : Hook) (name : Option Text) (h : .entered hook name ∈ (s.setFrames t new).frames u) :
    .entered hook name ∈ s.frames u ∨
      s.orig hook ≠ 0 ∧ ∃ address, env.hookCall = some (address, hook) := by
  rcases mem_setFrames h with ⟨rfl, hin⟩ | h
  · rw [hframes]
    exact .inl (List.mem_cons_of_mem frame (hnew hook name hin))
  · exact .inl h

theorem Originals.thread (hs : Originals env P s) {h : Nat} {thread : HackThread}
    (hthread : thread.Sound env (P s.process) s.orig) : Originals env P (s.setHackThread h thread) where
  arena := hs.arena
  nonzero := hs.nonzero
  apart := hs.apart
  threads u := by
    show HackThread.Sound env (P s.process) s.orig (if u = h then thread else s.hackThread u)
    split
    · exact hthread
    · exact hs.threads u
  orig := hs.orig
  unpatched := hs.unpatched
  entered := hs.entered

theorem Originals.process (hs : Originals env P s) {process : HookedProcess}
    (hP : ∀ a, P s.process a → P process a) (harena : ArenaSound env.pageSize process.pageChunks)
    (hnonzero : 0 ∉ arenaRegion process.pageChunks)
    (hapart : ∀ address hook, env.hookCall = some (address, hook) →
      Disjoint (arenaRegion process.pageChunks) (region address 16))
    (hbytes : ∀ address hook, env.hookCall = some (address, hook) → s.orig hook = 0 →
      ∀ x ∈ region address 16, process.memory.bytes x = s.process.memory.bytes x) :
    Originals env P { s with process } where
  arena := harena
  nonzero := hnonzero
  apart := hapart
  threads h := (hs.threads h).mono hP fun _ => id
  orig hook hne := hP _ (hs.orig hook hne)
  unpatched address hook hcall hzero x hx :=
    (hbytes address hook hcall hzero x hx).trans (hs.unpatched address hook hcall hzero x hx)
  entered := hs.entered

theorem zero_not_mem_page {pageSize : Nat} {arena : MemoryArena} {a : Addr} (hne : a ≠ 0)
    (hfresh : FreshPage pageSize arena a) : (0 : Addr) ∉ region a pageSize := by
  obtain ⟨-, hlow, -⟩ := hfresh
  rw [mem_region_iff (by omega)]
  rintro ⟨hle, -⟩
  exact hne (BitVec.eq_of_toNat_eq (Nat.le_zero.1 hle))

theorem page_subset {arena : MemoryArena} {p : PageChunk} (hp : p ∈ arena) :
    p.region ⊆ arenaRegion arena := fun _ hx => ⟨p, hp, hx⟩

theorem Originals.hookable (hs : Originals env P s) {h : Nat} {mmap : Option Addr}
    (hguard : Allowed env s (.hack h (.route mmap))) {address : Addr} {hook : Hook}
    (hcall : env.hookCall = some (address, hook)) :
    HookedProcess.Hookable env.pageSize mmap s.process address where
  fresh a ha := (hguard a ha).2.1
  apart _ hp := (hs.apart address hook hcall).mono_left (page_subset hp)
  apartNew a ha := (hguard a ha).2.2 address hook hcall

theorem Originals.route (hs : Originals env P s) (hpage : 100 ≤ env.pageSize)
    (hP : ∀ process process' a, ArenaKept process process' → P process a → P process' a)
    {h : Nat} {mmap : Option Addr} (hguard : Allowed env s (.hack h (.route mmap))) {address : Addr}
    {hook : Hook} {process : HookedProcess} {trampolineBuffer : CodeBuffer} {entry : HookEntry}
    (hthread : s.hackThread h = .routing address hook)
    (hroute : s.process.dispatchRouting env.pageSize mmap address (env.replacement hook) =
      .ok (process, trampolineBuffer, entry))
    (hnew : entry.relocatedOriginFunction ≠ 0 → P process entry.relocatedOriginFunction) :
    Originals env P
      { s.setHackThread h (.adding hook trampolineBuffer entry) with process } := by
  obtain ⟨F, hooked, hhooked, hpages, hbytes, -, rfl, rfl, htarget⟩ := routed hroute
  have hcall : env.hookCall = some (entry.functionAddress, hook) := by
    have hsound := hs.threads h
    rwa [hthread] at hsound
  have hhookable := hs.hookable hguard hcall
  obtain ⟨harena, hdisjoint, d, hd, hsub⟩ := hhooked.arena hs.arena hhookable hpage
  obtain ⟨hkept, -⟩ := hhooked.kept hs.arena hhookable hpage
  rw [hpages] at harena hd hkept
  -- a page is an old one or the new one
  have hregions : ∀ S : Set Addr, Disjoint (arenaRegion s.process.pageChunks) S →
      (∀ a, mmap = some a → Disjoint (region a env.pageSize) S) →
      Disjoint (arenaRegion process.pageChunks) S := by
    intro S hold hnew
    rw [← hpages]
    apply disjoint_arenaRegion
    exact hhooked.pages_apart hs.arena hpage
      (fun p hp => hold.mono_left (page_subset hp)) hnew
  have hnonzero : 0 ∉ arenaRegion process.pageChunks := by
    have hzero := hregions {0} (Set.disjoint_singleton_right.2 hs.nonzero) fun a ha =>
      Set.disjoint_singleton_right.2 (zero_not_mem_page (hguard a ha).1 (hguard a ha).2.1)
    exact Set.disjoint_singleton_right.1 hzero
  have hapart : ∀ address hook, env.hookCall = some (address, hook) →
      Disjoint (arenaRegion process.pageChunks) (region address 16) := fun address hook hcall =>
    hregions _ (hs.apart address hook hcall) fun a ha => (hguard a ha).2.2 address hook hcall
  have hcode : region entry.relocatedOriginFunction F.bytes.length ⊆
      arenaRegion process.pageChunks := hsub.trans (mem_arenaRegion harena hd)
  have hextends : ArenaKept s.process process := by
    intro c hc
    refine ⟨hkept c hc, fun x hx => ?_⟩
    rw [hbytes]
    exact store_outside (Set.disjoint_left.1 (hdisjoint c hc) hx)
  have hunchanged : ∀ address hook, env.hookCall = some (address, hook) → s.orig hook = 0 →
      ∀ x ∈ region address 16, process.memory.bytes x = s.process.memory.bytes x := by
    intro address hook hcall _ x hx
    rw [hbytes]
    exact store_outside fun hin => Set.disjoint_left.1 (hapart address hook hcall) (hcode hin) hx
  have horigin : entry.relocatedOriginFunction ≠ 0 := by
    intro hzero
    obtain ⟨c, halloc, hc⟩ := hhooked.alloc
    have hsize : F.getSize + 4 ≤ env.pageSize := Nat.le_trans hhooked.alloc_size hpage
    obtain ⟨-, hperm, hlen, -⟩ := allocateChunk_spec hs.arena hsize hhookable.fresh halloc
    rw [hpages] at hperm
    have hstart : c.address ∈ c.region := by
      unfold MemoryChunk.region
      rw [mem_region, BitVec.sub_self, hlen]
      exact Nat.succ_pos _
    apply hnonzero
    rw [← hzero, ← hc]
    exact mem_arenaRegion harena (hperm.mem_iff.2 List.mem_cons_self) hstart
  exact (hs.process (fun a => hP _ _ a hextends) harena hnonzero hapart hunchanged).thread
    ⟨hcall, rfl, htarget, hnew horigin⟩

theorem Originals.storeOrigin (hs : Originals env P s) (hne : ∀ process a, P process a → a ≠ 0)
    {h : Nat} {hook : Hook} {trampolineBuffer : CodeBuffer} {entry : HookEntry}
    (hthread : s.hackThread h = .storing hook trampolineBuffer entry) :
    Originals env P ((s.setOrig hook entry.relocatedOriginFunction).setHackThread h
      (.committing trampolineBuffer entry)) := by
  have hsound := hs.threads h
  rw [hthread] at hsound
  obtain ⟨hcall, hbuffer, -, horigin⟩ := hsound
  have hself : (s.setOrig hook entry.relocatedOriginFunction).orig hook =
      entry.relocatedOriginFunction := if_pos rfl
  -- no pointer becomes null
  have hkept : ∀ u, s.orig u ≠ 0 → (s.setOrig hook entry.relocatedOriginFunction).orig u ≠ 0 := by
    intro u hu
    show (if u = hook then entry.relocatedOriginFunction else s.orig u) ≠ 0
    split
    · exact hne _ _ horigin
    · exact hu
  have hset : Originals env P (s.setOrig hook entry.relocatedOriginFunction) := by
    refine ⟨hs.arena, hs.nonzero, hs.apart, fun u => (hs.threads u).mono (fun _ => id) hkept, ?_, ?_,
      fun t u name hmem => (hs.entered t u name hmem).imp_left (hkept u)⟩
    · intro u hu
      by_cases heq : u = hook
      · rw [heq, hself]
        exact horigin
      · have hsame : (s.setOrig hook entry.relocatedOriginFunction).orig u = s.orig u := if_neg heq
        rw [hsame] at hu ⊢
        exact hs.orig u hu
    · intro address u hcall hzero
      by_contra hno
      refine hno (hs.unpatched address u hcall ?_)
      by_contra hu
      exact hkept u hu hzero
  refine hset.thread ⟨hook, hcall, hbuffer, ?_⟩
  rw [hself]
  exact hne _ _ horigin

theorem Originals.commit (hs : Originals env P s)
    (hP : ∀ process process' a, ArenaKept process process' → P process a → P process' a)
    {h : Nat} {trampolineBuffer : CodeBuffer} {entry : HookEntry} {memory : Memory}
    (hthread : s.hackThread h = .committing trampolineBuffer entry)
    (hpatch : s.process.memory.codePatch env.pageSize entry.functionAddress trampolineBuffer.bytes =
      .ok memory) :
    Originals env P
      { s.setHackThread h (.looping .waiting) with process := { s.process with memory } } := by
  have hsound := hs.threads h
  rw [hthread] at hsound
  obtain ⟨hook, hcall, rfl, horig⟩ := hsound
  obtain ⟨-, rfl⟩ := Memory.codePatch_inv hpatch
  have hsize : (env.trampoline entry.functionAddress hook).bytes.length ≤ 16 := by
    rw [length_bytes]
    exact trampoline_size _ _
  have hdisjoint : Disjoint (arenaRegion s.process.pageChunks) (region entry.functionAddress
      (env.trampoline entry.functionAddress hook).bytes.length) :=
    (hs.apart _ hook hcall).mono_right (region_mono hsize)
  have hkept : ArenaKept s.process ⟨s.process.memory.patched env.pageSize entry.functionAddress
      (env.trampoline entry.functionAddress hook).bytes, s.process.pageChunks,
      s.process.hookEntryList⟩ := arenaKept_store hs.arena hdisjoint
  refine (hs.process (fun a => hP _ _ a hkept) hs.arena hs.nonzero hs.apart ?_).thread trivial
  -- the hooked function has an original
  intro address u hcall' hzero
  rw [hcall] at hcall'
  obtain ⟨-, rfl⟩ := Prod.mk.inj (Option.some.inj hcall')
  exact absurd hzero horig

/-- No function has a trampoline at the start. -/
def Environment.Clean (env : Environment) : Prop :=
  ∀ address hook, env.hookCall = some (address, hook) →
    env.trampolined ⟨env.memory, [], []⟩ address hook = false

theorem Environment.Clean.not_trampolined (hclean : env.Clean) {address : Addr} {hook : Hook}
    (hcall : env.hookCall = some (address, hook)) {process : HookedProcess}
    (h : ∀ x ∈ region address 16, process.memory.bytes x = env.memory.bytes x) :
    env.trampolined process address hook = false :=
  (trampolined_congr h).trans (hclean address hook hcall)

theorem Originals.trampolined (hs : Originals env P s) (hclean : env.Clean) {address : Addr}
    {hook : Hook} (hcall : env.hookCall = some (address, hook))
    (h : env.trampolined s.process address hook = true) : s.orig hook ≠ 0 := by
  intro hzero
  rw [hclean.not_trampolined hcall (hs.unpatched address hook hcall hzero)] at h
  cases h

/-- What a routing relocates is as `P` says. -/
def Relocates (env : Environment) (P : HookedProcess → Addr → Prop) (s : SystemState) : Prop :=
  ∀ h mmap address hook process trampolineBuffer entry, s.hackThread h = .routing address hook →
    Allowed env s (.hack h (.route mmap)) →
    s.process.dispatchRouting env.pageSize mmap address (env.replacement hook) =
      .ok (process, trampolineBuffer, entry) →
    entry.relocatedOriginFunction ≠ 0 → P process entry.relocatedOriginFunction

theorem Originals.hackStep (hs : Originals env P s) (hpage : 100 ≤ env.pageSize)
    (hP : ∀ process process' a, ArenaKept process process' → P process a → P process' a)
    (hne : ∀ process a, P process a → a ≠ 0) (hnew : Relocates env P s) {h : Nat} {a : HackAction}
    (hguard : Allowed env s (.hack h a)) (hmove : HackMove env s h a s') : Originals env P s' := by
  have hsound := hs.threads h
  cases hmove with
  | refuse _ _ => exact hs.thread trivial
  | find _ _ hcall _ _ => exact hs.thread hcall
  | route hthread hroute =>
    exact hs.route hpage hP hguard hthread hroute (hnew h _ _ _ _ _ _ hthread hguard hroute)
  | @add hook trampolineBuffer entry hthread =>
    rw [hthread] at hsound
    -- the memory and the arena are the same
    have hkept : ArenaKept s.process
        ⟨s.process.memory, s.process.pageChunks, entry :: s.process.hookEntryList⟩ :=
      ArenaKept.refl s.process
    obtain ⟨hcall, hbuffer, htarget, horigin⟩ := hsound
    exact (hs.process (fun a => hP _ _ a hkept) hs.arena hs.nonzero hs.apart
      fun _ _ _ _ _ _ => rfl).thread ⟨hcall, hbuffer, htarget, hP _ _ _ hkept horigin⟩
  | storeOrigin hthread => exact hs.storeOrigin hne hthread
  | commit hthread hpatch => exact hs.commit hP hthread hpatch
  | wait _ _ => exact hs
  | stop _ _ => exact hs.thread trivial
  | @dump handle _ =>
    have hlooping : Originals env P
        (s.setHackThread h (.looping (.dumping handle s.statics.hook.il2cppHandle))) :=
      hs.thread trivial
    exact hlooping.frames rfl rfl rfl fun _ _ _ => .inl

theorem Originals.step (hs : Originals env P s) (hpage : 100 ≤ env.pageSize) (hclean : env.Clean)
    (hP : ∀ process process' a, ArenaKept process process' → P process a → P process' a)
    (hne : ∀ process a, P process a → a ≠ 0) (hnew : Relocates env P s) {a : SystemAction}
    (hguard : Allowed env s a) (hmove : SystemMove env s a s') : Originals env P s' := by
  cases hmove with
  | callback _ => exact hs.frames rfl rfl rfl fun _ _ _ => .inl
  | @write address bytes =>
    obtain ⟨harena, hfunctions⟩ := hguard
    refine hs.process (fun a => hP _ _ a (arenaKept_store hs.arena harena)) hs.arena hs.nonzero
      hs.apart ?_
    intro address hook hcall _ x hx
    exact store_outside (Set.disjoint_left.1 (hfunctions address hook hcall) hx)
  | plain => exact hs
  | @call t name address hook _ hcall htrampoline _ =>
    refine hs.frames rfl rfl rfl fun u hook' name' hmem => ?_
    rcases mem_setFrames hmem with ⟨rfl, hin⟩ | hmem
    · rcases List.mem_cons.1 hin with heq | hin
      · obtain ⟨rfl, -⟩ := Frame.entered.inj heq
        exact .inr ⟨hs.trampolined hclean hcall htrampoline, address, hcall⟩
      · exact .inl hin
    · exact .inl hmem
  | callOrigin hframes _ =>
    exact hs.frames rfl rfl rfl (entered_of_goes_on hframes (by simp))
  | dlopen hframes => exact hs.frames rfl rfl rfl (entered_of_goes_on hframes (by simp))
  | pass hframes _ => exact hs.frames rfl rfl rfl (entered_of_goes_on hframes (by simp))
  | skip hframes _ => exact hs.frames rfl rfl rfl (entered_of_goes_on hframes fun _ _ => id)
  | store hframes => exact hs.frames rfl rfl rfl (entered_of_goes_on hframes fun _ _ => id)
  | hack hmove => exact hs.hackStep hpage hP hne hnew hguard hmove

end originals

/-! ### No null original -/

variable {env : Environment} {s s' : SystemState} {as : List SystemAction}

theorem Originals.init {P : HookedProcess → Addr → Prop} : Originals env P (.init env) where
  arena := HookedProcess.start_arena _ env.memory
  nonzero := fun ⟨_, hp, _⟩ => List.not_mem_nil hp
  apart _ _ _ := Set.disjoint_left.2 fun _ ⟨_, hp, _⟩ => absurd hp List.not_mem_nil
  threads _ := trivial
  orig _ hne := absurd rfl hne
  unpatched _ _ _ _ _ _ := rfl
  entered _ _ _ hmem := absurd hmem List.not_mem_nil

theorem trampolined_reaches {other : Word → Core → Option (Core × Flow)} {process : HookedProcess}
    {address : Addr} {hook : Hook} (h : env.trampolined process address hook = true) {c : Core}
    (hc : c.mem = process.memory.bytes) :
    Reaches other ⟨c, address⟩ ⟨c.setReg 17 (landing address (env.replacement hook)),
      landing address (env.replacement hook)⟩ := by
  have hcovered : process.covered address (env.replacement hook) =
      (env.trampoline address hook).buffer := of_decide_eq_true h
  apply run_trampoline
  rw [hc]
  exact hcovered ▸ HookedProcess.covered_holds process address (env.replacement hook)

/-- **No call goes through a null original**, however many hack threads set the hook and wherever the
other threads are while they do: once a trampoline is in memory or a thread is in a replacement, the
pointer to the original is set. -/
theorem original_never_null (hpage : 100 ≤ env.pageSize) (hclean : env.Clean)
    (h : (systemMachine env).Run (Allowed env) (systemMachine env).init as s) :
    (∀ address hook, env.hookCall = some (address, hook) →
      env.trampolined s.process address hook = true → s.orig hook ≠ 0) ∧
    ∀ t hook name, .entered hook name ∈ s.frames t → s.orig hook ≠ 0 := by
  have hs : Originals env (fun _ a => a ≠ 0) s := by
    refine h.invariant (I := fun _ => Originals env fun _ a => a ≠ 0) .init ?_
    intro _ s a s' hs hguard hstep
    exact hs.step hpage hclean (fun _ _ _ _ hne => hne) (fun _ _ hne => hne)
      (fun _ _ _ _ _ _ _ _ _ _ hne => hne) hguard (systemMove_of_step hstep)
  exact ⟨fun address hook hcall => hs.trampolined hclean hcall,
    fun t hook name hmem => (hs.entered t hook name hmem).1⟩

/-- A process of the game at API level 30, in which the function to be hooked is at `0x10000` and starts
with `prologue`. -/
def gameProcess : Environment where
  gamePackageName := "com.game"
  pageSize := 2 ^ 12
  sdk := "30"
  dobbySymbolResolver := fun _ => 0x10000
  dlsym := fun _ => 0
  replacement := fun _ => 0x20000
  memory := HookedProcess.prologueMemory fun _ => false

theorem gameProcess_hookCall : gameProcess.hookCall = some (0x10000, .doDlopenV24) := by decide

theorem gameProcess_clean : gameProcess.Clean := by
  intro address hook hcall
  rw [gameProcess_hookCall] at hcall
  obtain ⟨rfl, rfl⟩ := Prod.mk.inj (Option.some.inj hcall)
  decide

def gameStarts : List SystemAction :=
  [.callback (.preAppSpecialize (some ⟨some "game", some "/data/data/com.game"⟩)),
    .callback (.postAppSpecialize true)]

/-- The hack thread sets the hook behind its routing, and a thread calls the function. -/
def hookedCall : List SystemAction :=
  [.hack 0 .add, .hack 0 .storeOrigin, .hack 0 .commit, .call 0 (some "libil2cpp.so")]

theorem run_hookedCall (guard : SystemState → SystemAction → Prop)
    (hstart : ∀ a ∈ gameStarts, ∀ s, guard s a)
    (hfind : ∀ s, (∀ h, s.hackThread h = .created) → guard s (.hack 0 .find))
    (hroute : ∀ s, s.process.pageChunks = [] → guard s (.hack 0 (.route (some 0x40000))))
    (hcall : ∀ a ∈ hookedCall, ∀ s, guard s a) :
    ∃ s, (systemMachine gameProcess).Run guard (systemMachine gameProcess).init
      (gameStarts ++ [.hack 0 .find] ++ [.hack 0 (.route (some 0x40000))] ++ hookedCall) s ∧
      s.frames 0 = [.entered .doDlopenV24 (some "libil2cpp.so")] := by
  have hframes : ((systemMachine gameProcess).run (systemMachine gameProcess).init
      (gameStarts ++ [.hack 0 .find] ++ [.hack 0 (.route (some 0x40000))] ++ hookedCall)).map
        (fun s => s.frames 0) = some [.entered .doDlopenV24 (some "libil2cpp.so")] := by
    decide +kernel
  obtain ⟨s, hrun, hframes⟩ := Option.map_eq_some_iff.1 hframes
  rw [Machine.run_append, Option.bind_eq_some_iff] at hrun
  obtain ⟨s₃, hrouted, hrun⟩ := hrun
  rw [Machine.run_append, Option.bind_eq_some_iff] at hrouted
  obtain ⟨s₂, hfound, hrouted⟩ := hrouted
  rw [Machine.run_append, Option.bind_eq_some_iff] at hfound
  obtain ⟨s₁, hstarted, hfound⟩ := hfound
  rw [Machine.run_singleton] at hfound hrouted
  obtain rfl := Option.some.inj hstarted
  have hempty : s₂.process.pageChunks = [] := by
    obtain rfl := Option.some.inj hfound
    rfl
  have hbefore := ((Machine.Run.of_run hstart hstarted).step (hfind _ fun _ => rfl) hfound).step
    (hroute s₂ hempty) hrouted
  exact ⟨s, hbefore.prolong hcall hrun, hframes⟩

theorem gameProcess_allowed (s : SystemState) (hempty : s.process.pageChunks = []) :
    Allowed gameProcess s (.hack 0 (.route (some 0x40000))) := by
  rintro a ⟨⟩
  refine ⟨by decide, ⟨by decide, by decide, ?_⟩, ?_⟩
  · rw [hempty]
    exact fun _ hp => absurd hp List.not_mem_nil
  · intro address hook hcall
    rw [gameProcess_hookCall] at hcall
    obtain ⟨rfl, rfl⟩ := Prod.mk.inj (Option.some.inj hcall)
    exact (disjoint_region (by decide) (by decide)).symm

theorem original_never_null_call : ∃ s : SystemState,
    s.frames 0 = [.entered .doDlopenV24 (some "libil2cpp.so")] ∧ s.orig .doDlopenV24 ≠ 0 := by
  obtain ⟨s, hrun, hframes⟩ := run_hookedCall (Allowed gameProcess) (by simp [gameStarts, Allowed])
    (fun _ _ => trivial) gameProcess_allowed (by simp [hookedCall, Allowed])
  refine ⟨s, hframes, (original_never_null (by decide) gameProcess_clean hrun).2 0 .doDlopenV24
    (some "libil2cpp.so") ?_⟩
  rw [hframes]
  exact List.mem_singleton_self _

end Il2CppDumper
