import Il2CppDumper.Dump.Moved
import Il2CppDumper.Hook.System

/-!
# The dumps of a process

In the process of another application nothing is hooked and nothing is dumped
(`other_apps_untouched`). Every dump is one of the game's, from a handle of its library
(`dumps_of_game`).
-/

namespace Il2CppDumper

open Arm64 Clib Dobby

variable {env : Environment} {guard : SystemState → SystemAction → Prop} {s s' : SystemState}
  {as : List SystemAction}

/-! ### The callbacks of a run -/

def callbackOf : SystemAction → Option Callback
  | .callback c => some c
  | _ => none

/-- The callbacks in a run. -/
def callbacks (as : List SystemAction) : List Callback := as.filterMap callbackOf

/-- The directories of the calls of `isGame` in a run. -/
def isGameDirs (as : List SystemAction) : List (Option Text) :=
  (callbacks as).filterMap Callback.isGameDir

theorem callbacks_append (as : List SystemAction) (a : SystemAction) :
    callbacks (as ++ [a]) = callbacks as ++ (callbackOf a).toList := by
  unfold callbacks
  rw [List.filterMap_append]
  cases h : callbackOf a <;> simp [h]

theorem isGameDirs_append (as : List SystemAction) (a : SystemAction) :
    isGameDirs (as ++ [a]) = isGameDirs as ++ ((callbackOf a).bind Callback.isGameDir).toList := by
  unfold isGameDirs
  rw [callbacks_append, List.filterMap_append]
  cases callbackOf a with
  | none => rfl
  | some c => cases h : c.isGameDir <;> simp [h]

/-- The static variables in a run are those after its callbacks, but for the handle. -/
theorem accepted_step {a : SystemAction}
    (hs : Accepted env.gamePackageName (callbacks as) s.statics) (hmove : SystemMove env s a s') :
    Accepted env.gamePackageName (callbacks (as ++ [a])) s'.statics := by
  rw [callbacks_append]
  cases hmove with
  | @callback c statics hstatics =>
    cases c with
    | preAppSpecialize args =>
      obtain rfl := Option.some.inj hstatics
      exact hs.preAppSpecialize args
    | postAppSpecialize created =>
      obtain rfl := Option.some.inj hstatics
      exact hs.postAppSpecialize created
  | @store t handle frames _ =>
    have hkept : Accepted env.gamePackageName (callbacks as)
        ((s.setFrames t frames).setIl2cppHandle handle).statics :=
      ⟨hs.accepted, hs.enabled, hs.started⟩
    exact (List.append_nil (callbacks as)).symm ▸ hkept
  | hack hmove =>
    rw [hmove.frame.1]
    exact (List.append_nil (callbacks as)).symm ▸ hs
  | _ => exact (List.append_nil (callbacks as)).symm ▸ hs

/-! ### Other applications -/

/-- A step of the same process without the module. -/
def plainStep (memory : Memory) : SystemAction → Memory
  | .write address bytes => { memory with bytes := Arm64.store memory.bytes address bytes }
  | _ => memory

/-- The process is as it would be without the module, and no thread of the module is in it. A call may
have been led into a replacement, but not to an original. -/
structure Untouched (env : Environment) (as : List SystemAction) (s : SystemState) : Prop where
  process : s.process = ⟨as.foldl plainStep env.memory, [], []⟩
  orig : ∀ hook, s.orig hook = 0
  entered : ∀ t, ∀ frame ∈ s.frames t, ∃ hook name, frame = .entered hook name
  threads : ∀ h, s.hackThread h = .created
  enableHack : s.statics.main.enableHack = 0
  hackThreads : s.statics.hackThreads = 0
  dumps : s.dumps = []

/-- The function to be hooked is as it was, and no call of it was led into a replacement. -/
structure NotLed (env : Environment) (s : SystemState) : Prop where
  functions : ∀ address hook, env.hookCall = some (address, hook) →
    ∀ x ∈ region address 16, s.process.memory.bytes x = env.memory.bytes x
  frames : ∀ t, s.frames t = []

theorem foldl_plainStep (memory : Memory) (as : List SystemAction) (a : SystemAction) :
    (as ++ [a]).foldl plainStep memory = plainStep (as.foldl plainStep memory) a := by
  rw [List.foldl_append]
  rfl

theorem Untouched.callback (hs : Untouched env as s) {c : Callback} {statics : ModuleState}
    (hother : ∀ dir, c.isGameDir = some (some dir) →
      scannedPackageName dir ≠ some env.gamePackageName)
    (hstep : (moduleMachine env.gamePackageName).step s.statics c = some statics) :
    statics.main.enableHack = 0 ∧ statics.hackThreads = 0 := by
  cases c with
  | preAppSpecialize args =>
    obtain rfl := Option.some.inj hstep
    match args with
    | none => exact ⟨hs.enableHack, hs.hackThreads⟩
    | some ⟨none, appDataDir⟩ => exact ⟨hs.enableHack, hs.hackThreads⟩
    | some ⟨some niceName, appDataDir⟩ =>
      have hpre : preAppSpecialize env.gamePackageName (some ⟨some niceName, appDataDir⟩) s.statics =
          { (isGame env.gamePackageName appDataDir s.statics).2 with
            main := { (isGame env.gamePackageName appDataDir s.statics).2.main with
              enableHack := (isGame env.gamePackageName appDataDir s.statics).1 } } := rfl
      rw [hpre]
      rcases isGame_cases env.gamePackageName appDataDir s.statics with
        ⟨dir, rfl, hname, -⟩ | ⟨buffer, hgame⟩
      · exact absurd hname (hother dir rfl)
      · rw [hgame]
        exact ⟨rfl, hs.hackThreads⟩
  | postAppSpecialize created =>
    obtain rfl := Option.some.inj hstep
    have hidle : postAppSpecialize created s.statics = s.statics :=
      if_neg fun hstart => hstart.1 hs.enableHack
    rw [hidle]
    exact ⟨hs.enableHack, hs.hackThreads⟩

theorem Untouched.no_hack (hs : Untouched env as s) {h : Nat} {a : HackAction} :
    ¬HackMove env s h a s' := by
  intro hmove
  have hthread := hs.threads h
  have hnone : ¬h < s.statics.hackThreads := by
    rw [hs.hackThreads]
    exact Nat.not_lt_zero h
  cases hmove with
  | refuse _ hh => exact hnone hh
  | find _ hh _ _ _ => exact hnone hh
  | route h _ => exact HackThread.noConfusion (hthread.symm.trans h)
  | add h => exact HackThread.noConfusion (hthread.symm.trans h)
  | storeOrigin h => exact HackThread.noConfusion (hthread.symm.trans h)
  | commit h _ => exact HackThread.noConfusion (hthread.symm.trans h)
  | wait h _ => exact HackThread.noConfusion (hthread.symm.trans h)
  | stop h _ => exact HackThread.noConfusion (hthread.symm.trans h)
  | dump h => exact HackThread.noConfusion (hthread.symm.trans h)

/-- No call has got further than into a replacement. -/
theorem Untouched.head_entered (hs : Untouched env as s) {t : Nat} {frame : Frame}
    {frames : List Frame} (hframes : s.frames t = frame :: frames) :
    ∃ hook name, frame = .entered hook name :=
  hs.entered t frame (hframes ▸ List.mem_cons_self)

theorem Untouched.step (hs : Untouched env as s) {a : SystemAction}
    (hother : ∀ dir, some dir ∈ isGameDirs (as ++ [a]) →
      scannedPackageName dir ≠ some env.gamePackageName)
    (hmove : SystemMove env s a s') : Untouched env (as ++ [a]) s' := by
  cases hmove with
  | @callback c statics hstep =>
    have hdir : ∀ dir, c.isGameDir = some (some dir) →
        scannedPackageName dir ≠ some env.gamePackageName := by
      intro dir hdir
      apply hother
      rw [isGameDirs_append]
      refine List.mem_append_right _ ?_
      rw [show (callbackOf (.callback c)).bind Callback.isGameDir = some (some dir) from hdir]
      exact List.mem_singleton_self _
    obtain ⟨henable, hthreads⟩ := hs.callback hdir hstep
    exact ⟨hs.process.trans (by rw [foldl_plainStep]; rfl), hs.orig, hs.entered, hs.threads,
      henable, hthreads, hs.dumps⟩
  | @write address bytes =>
    refine ⟨?_, hs.orig, hs.entered, hs.threads, hs.enableHack, hs.hackThreads, hs.dumps⟩
    rw [foldl_plainStep, hs.process]
    rfl
  | plain =>
    exact ⟨hs.process.trans (by rw [foldl_plainStep]; rfl), hs.orig, hs.entered, hs.threads,
      hs.enableHack, hs.hackThreads, hs.dumps⟩
  | @call t name address hook _ _ _ _ =>
    refine ⟨hs.process.trans (by rw [foldl_plainStep]; rfl), hs.orig, ?_, hs.threads,
      hs.enableHack, hs.hackThreads, hs.dumps⟩
    intro u frame hframe
    rcases mem_setFrames hframe with ⟨rfl, hframe⟩ | hframe
    · rcases List.mem_cons.1 hframe with rfl | hframe
      · exact ⟨hook, name, rfl⟩
      · exact hs.entered u frame hframe
    · exact hs.entered u frame hframe
  | @callOrigin t hook name frames _ horig => exact absurd (hs.orig hook) horig
  | @dlopen t hook name handle frames hframes =>
    obtain ⟨_, _, hentered⟩ := hs.head_entered hframes
    cases hentered
  | @pass t name handle frames hframes _ =>
    obtain ⟨_, _, hentered⟩ := hs.head_entered hframes
    cases hentered
  | @skip t name handle frames hframes _ =>
    obtain ⟨_, _, hentered⟩ := hs.head_entered hframes
    cases hentered
  | @store t handle frames hframes =>
    obtain ⟨_, _, hentered⟩ := hs.head_entered hframes
    cases hentered
  | hack hmove => exact absurd hmove hs.no_hack

theorem NotLed.step (hled : NotLed env s) (hs : Untouched env as s) (hclean : env.Clean)
    {a : SystemAction} (hguard : Allowed env s a) (hmove : SystemMove env s a s') :
    NotLed env s' := by
  cases hmove with
  | callback _ => exact ⟨hled.functions, hled.frames⟩
  | @write address bytes =>
    refine ⟨fun f hook hcall x hx => ?_, hled.frames⟩
    refine Eq.trans ?_ (hled.functions f hook hcall x hx)
    exact store_outside (Set.disjoint_left.1 (hguard.2 f hook hcall) hx)
  | plain => exact hled
  | @call t name address hook _ hcall htrampoline _ =>
    rw [hclean.not_trampolined hcall (hled.functions address hook hcall)] at htrampoline
    cases htrampoline
  | @callOrigin t hook name frames hframes _ => cases (hled.frames t).symm.trans hframes
  | @dlopen t hook name handle frames hframes => cases (hled.frames t).symm.trans hframes
  | @pass t name handle frames hframes _ => cases (hled.frames t).symm.trans hframes
  | @skip t name handle frames hframes _ => cases (hled.frames t).symm.trans hframes
  | @store t handle frames hframes => cases (hled.frames t).symm.trans hframes
  | hack hmove => exact absurd hmove hs.no_hack

theorem Untouched.init : Untouched env [] (.init env) :=
  ⟨rfl, fun _ => rfl, fun _ _ hmem => absurd hmem List.not_mem_nil, fun _ => rfl, rfl, rfl, rfl⟩

/-- **Another application is left alone**: if `isGame` is called with no directory of the game, then in
every run the memory is what the application has written, nothing is hooked and nothing is dumped. If
the function to be hooked starts without a trampoline and is not written to, no call is led into a
replacement. -/
theorem other_apps_untouched (h : (systemMachine env).Run guard (systemMachine env).init as s)
    (hother : ∀ dir, some dir ∈ isGameDirs as →
      scannedPackageName dir ≠ some env.gamePackageName) :
    s.process = ⟨as.foldl plainStep env.memory, [], []⟩ ∧ s.statics.hackThreads = 0 ∧
      s.dumps = [] ∧
      (env.Clean → (∀ s a, guard s a → Allowed env s a) → ∀ t, s.frames t = []) := by
  have hs : Untouched env as s ∧
      (env.Clean → (∀ s a, guard s a → Allowed env s a) → NotLed env s) := by
    refine h.invariant (I := fun as s => (∀ dir, some dir ∈ isGameDirs as →
      scannedPackageName dir ≠ some env.gamePackageName) → Untouched env as s ∧
        (env.Clean → (∀ s a, guard s a → Allowed env s a) → NotLed env s))
      (fun _ => ⟨.init, fun _ _ => ⟨fun _ _ _ _ _ => rfl, fun _ => rfl⟩⟩) ?_ hother
    intro as s a s' ih hguard hstep hother
    have hbefore : ∀ dir, some dir ∈ isGameDirs as →
        scannedPackageName dir ≠ some env.gamePackageName := by
      intro dir hdir
      apply hother
      rw [isGameDirs_append]
      exact List.mem_append_left _ hdir
    obtain ⟨hs, hled⟩ := ih hbefore
    have hmove := systemMove_of_step hstep
    exact ⟨hs.step hother hmove, fun hclean hallowed =>
      (hled hclean hallowed).step hs hclean (hallowed s a hguard) hmove⟩
  exact ⟨hs.1.process, hs.1.hackThreads, hs.1.dumps,
    fun hclean hallowed => (hs.2 hclean hallowed).frames⟩

def appStarts : List SystemAction :=
  [.callback (.preAppSpecialize (some ⟨some "app", some "/data/data/com.app"⟩)),
    .callback (.postAppSpecialize true)]

theorem other_apps_untouched_app : ∃ s : SystemState,
    s.process = ⟨⟨Arm64.store gameProcess.memory.bytes 0x30000 [1], fun _ => false⟩, [], []⟩ ∧
      s.dumps = [] ∧ s.frames 0 = [] := by
  have hwrite : ∀ s : SystemState, s.process.pageChunks = [] →
      Allowed gameProcess s (.write 0x30000 [1]) := by
    intro s hempty
    refine ⟨Set.disjoint_left.2 fun x hx => ?_, fun address hook hcall => ?_⟩
    · obtain ⟨p, hp, -⟩ := hx
      rw [hempty] at hp
      cases hp
    · rw [gameProcess_hookCall] at hcall
      obtain ⟨rfl, rfl⟩ := Prod.mk.inj (Option.some.inj hcall)
      exact disjoint_region (by decide) (by decide)
  have hcallbacks : (systemMachine gameProcess).Run (Allowed gameProcess)
      (systemMachine gameProcess).init appStarts _ := .of_run (by simp [appStarts, Allowed]) rfl
  have hwritten := hcallbacks.step (hwrite _ rfl) rfl
  have hrun := hwritten.step (a := .call 0 (some "libil2cpp.so")) (by simp [Allowed]) rfl
  have hother : ∀ dir, some dir ∈ isGameDirs
      (appStarts ++ [.write 0x30000 [1]] ++ [.call 0 (some "libil2cpp.so")]) →
      scannedPackageName dir ≠ some gameProcess.gamePackageName := by
    intro dir hdir
    obtain rfl := Option.some.inj (List.mem_singleton.1 hdir)
    decide
  obtain ⟨hprocess, -, hdumps, hframes⟩ := other_apps_untouched hrun hother
  exact ⟨_, hprocess, hdumps, hframes gameProcess_clean (fun _ _ h => h) 0⟩

/-! ### The game -/

/-- An original has returned the handle for the library. -/
def Loaded (returned : List (Option Text × UInt64)) (handle : UInt64) : Prop :=
  ∃ name, (some name, handle) ∈ returned ∧ strstr name "libil2cpp.so" = true

theorem Loaded.cons {returned : List (Option Text × UInt64)} {handle : UInt64}
    (h : Loaded returned handle) (c : Option Text × UInt64) : Loaded (c :: returned) handle := by
  obtain ⟨name, hmem, hname⟩ := h
  exact ⟨name, List.mem_cons_of_mem c hmem, hname⟩

/-- A test passes on the name of the library. -/
theorem strstr_of_dlopenTest {handle : UInt64} {name : Option Text}
    (h : dlopenTest handle name = .ok true) :
    ∃ name', name = some name' ∧ strstr name' "libil2cpp.so" = true := by
  by_cases hzero : handle = 0
  · rw [dlopenTest, if_pos hzero] at h
    cases name with
    | none => cases h
    | some name => exact ⟨name, rfl, Except.ok.inj h⟩
  · rw [dlopenTest, if_neg hzero] at h
    cases h

/-- The handle of a call is what its original has returned. -/
def Frame.Sound (returned : List (Option Text × UInt64)) : Frame → Prop
  | .entered _ _ => True
  | .original _ _ => True
  | .returned name handle => (name, handle) ∈ returned
  | .passed handle => Loaded returned handle

/-- Every handle on its way to a dump comes from an original. -/
structure HandlesSound (s : SystemState) : Prop where
  frames : ∀ t, ∀ frame ∈ s.frames t, frame.Sound s.returned
  captured : s.statics.hook.il2cppHandle ≠ 0 → Loaded s.returned s.statics.hook.il2cppHandle
  dumped : ∀ d ∈ s.dumps, d.handle ≠ 0 → Loaded s.returned d.handle

theorem Frame.Sound.cons {returned : List (Option Text × UInt64)} {frame : Frame}
    (h : frame.Sound returned) (c : Option Text × UInt64) : frame.Sound (c :: returned) := by
  cases frame with
  | entered hook name => trivial
  | original hook name => trivial
  | returned name handle => exact List.mem_cons_of_mem c h
  | passed handle => exact Loaded.cons h c

theorem HandlesSound.setFrames (hs : HandlesSound s) {t : Nat} {new : List Frame}
    (hnew : ∀ frame ∈ new, frame.Sound s.returned) : HandlesSound (s.setFrames t new) := by
  refine ⟨?_, hs.captured, hs.dumped⟩
  intro u frame hmem
  rcases mem_setFrames hmem with ⟨-, hin⟩ | hin
  · exact hnew frame hin
  · exact hs.frames u frame hin

theorem HandlesSound.rest (hs : HandlesSound s) {t : Nat} {frame : Frame} {frames : List Frame}
    (hframes : s.frames t = frame :: frames) :
    frame.Sound s.returned ∧ ∀ f ∈ frames, f.Sound s.returned := by
  have hall := hs.frames t
  rw [hframes] at hall
  exact List.forall_mem_cons.1 hall

theorem HandlesSound.step (hs : HandlesSound s) {a : SystemAction} (hmove : SystemMove env s a s') :
    HandlesSound s' := by
  cases hmove with
  | callback hstep =>
    refine ⟨hs.frames, ?_, hs.dumped⟩
    show _ ≠ 0 → Loaded s.returned _
    rw [il2cppHandle_of_callback hstep]
    exact hs.captured
  | write => exact ⟨hs.frames, hs.captured, hs.dumped⟩
  | plain => exact hs
  | @call t name address hook _ _ _ _ =>
    exact hs.setFrames (List.forall_mem_cons.2 ⟨trivial, hs.frames t⟩)
  | callOrigin hframes _ =>
    exact hs.setFrames (List.forall_mem_cons.2 ⟨trivial, (hs.rest hframes).2⟩)
  | @dlopen t hook name handle frames hframes =>
    -- there is one more call that has returned
    have hgrown : HandlesSound { s with returned := (name, handle) :: s.returned } :=
      ⟨fun u f hf => (hs.frames u f hf).cons _, fun hne => (hs.captured hne).cons _,
        fun d hd hne => (hs.dumped d hd hne).cons _⟩
    exact hgrown.setFrames (List.forall_mem_cons.2 ⟨List.mem_cons_self, (hgrown.rest hframes).2⟩)
  | @pass t name handle frames hframes htest =>
    obtain ⟨hmem, hrest⟩ := hs.rest hframes
    obtain ⟨name, rfl, hname⟩ := strstr_of_dlopenTest htest
    exact hs.setFrames (List.forall_mem_cons.2 ⟨⟨name, hmem, hname⟩, hrest⟩)
  | skip hframes _ => exact hs.setFrames (hs.rest hframes).2
  | @store t handle frames hframes =>
    obtain ⟨hloaded, hrest⟩ := hs.rest hframes
    have hnext := hs.setFrames (t := t) hrest
    exact ⟨hnext.frames, fun _ => hloaded, hnext.dumped⟩
  | hack hmove =>
    cases hmove with
    | dump _ =>
      exact ⟨hs.frames, hs.captured, List.forall_mem_cons.2 ⟨hs.captured, hs.dumped⟩⟩
    | wait _ _ => exact hs
    | _ => exact ⟨hs.frames, hs.captured, hs.dumped⟩

def HackThread.hasDumped : HackThread → Bool
  | .looping (.dumping _ _) => true
  | _ => false

/-- Every dump goes to a directory of the game, and every hack thread makes one at most. -/
structure DumpersSound (gamePackageName : Text) (s : SystemState) : Prop where
  outDirs : ∀ d ∈ s.dumps, ∃ dir, d.outDir = some dir ∧ scannedPackageName dir = some gamePackageName
  started : ∀ h, s.hackThread h ≠ .created → h < s.statics.hackThreads
  dumpers : ∃ hs : List Nat, hs.Nodup ∧ hs.length = s.dumps.length ∧
    ∀ h ∈ hs, (s.hackThread h).hasDumped = true

theorem hackThreads_of_callback {g : Text} {c : Callback} {statics statics' : ModuleState}
    (h : (moduleMachine g).step statics c = some statics') :
    statics.hackThreads ≤ statics'.hackThreads := by
  cases c with
  | preAppSpecialize args =>
    obtain rfl := Option.some.inj h
    match args with
    | none => exact Nat.le_refl _
    | some ⟨none, appDataDir⟩ => exact Nat.le_refl _
    | some ⟨some niceName, appDataDir⟩ =>
      show statics.hackThreads ≤ (isGame g appDataDir statics).2.hackThreads
      rcases isGame_cases g appDataDir statics with ⟨dir, -, -, hgame⟩ | ⟨buffer, hgame⟩
      · rw [hgame]
      · rw [hgame]
  | postAppSpecialize created =>
    obtain rfl := Option.some.inj h
    show statics.hackThreads ≤ (postAppSpecialize created statics).hackThreads
    rw [postAppSpecialize]
    split
    · exact Nat.le_succ _
    · exact Nat.le_refl _

theorem HackMove.running {g : Text} (hs : DumpersSound g s) {h : Nat} {a : HackAction}
    (hmove : HackMove env s h a s') :
    h < s.statics.hackThreads ∧ (s.hackThread h).hasDumped = false := by
  have hstarted : ∀ thread, s.hackThread h = thread → thread ≠ .created →
      thread.hasDumped = false → h < s.statics.hackThreads ∧ (s.hackThread h).hasDumped = false := by
    rintro thread rfl hne hdumped
    exact ⟨hs.started h hne, hdumped⟩
  cases hmove with
  | refuse hthread hh => exact ⟨hh, by rw [hthread]; rfl⟩
  | find hthread hh _ _ _ => exact ⟨hh, by rw [hthread]; rfl⟩
  | route hthread _ => exact hstarted _ hthread HackThread.noConfusion rfl
  | add hthread => exact hstarted _ hthread HackThread.noConfusion rfl
  | storeOrigin hthread => exact hstarted _ hthread HackThread.noConfusion rfl
  | commit hthread _ => exact hstarted _ hthread HackThread.noConfusion rfl
  | wait hthread _ => exact hstarted _ hthread HackThread.noConfusion rfl
  | stop hthread _ => exact hstarted _ hthread HackThread.noConfusion rfl
  | dump hthread => exact hstarted _ hthread HackThread.noConfusion rfl

theorem DumpersSound.thread {g : Text} (hs : DumpersSound g s) {h : Nat}
    (hrunning : h < s.statics.hackThreads ∧ (s.hackThread h).hasDumped = false)
    (hstatics : s'.statics = s.statics) (hdumps : s'.dumps = s.dumps)
    (hothers : ∀ u, u ≠ h → s'.hackThread u = s.hackThread u) : DumpersSound g s' := by
  refine ⟨hdumps ▸ hs.outDirs, ?_, ?_⟩
  · intro u hu
    rw [hstatics]
    by_cases huh : u = h
    · rw [huh]
      exact hrunning.1
    · rw [hothers u huh] at hu
      exact hs.started u hu
  · obtain ⟨ids, hnodup, hlen, hdumped⟩ := hs.dumpers
    refine ⟨ids, hnodup, hdumps ▸ hlen, fun u hu => ?_⟩
    have hne : u ≠ h := by
      rintro rfl
      rw [hdumped u hu] at hrunning
      cases hrunning.2
    rw [hothers u hne]
    exact hdumped u hu

/-- A dump is the first of its thread, and goes to the directory that was accepted last. -/
theorem DumpersSound.dump {g : Text} (hs : DumpersSound g s) {cs : List Callback}
    (haccepted : Accepted g cs s.statics) {h : Nat}
    (hrunning : h < s.statics.hackThreads ∧ (s.hackThread h).hasDumped = false) (handle : UInt64) :
    DumpersSound g { s.setHackThread h (.looping (.dumping handle s.statics.hook.il2cppHandle)) with
      dumps := ⟨s.statics.hook.il2cppHandle, hackThreadOutDir s.statics⟩ :: s.dumps } := by
  have hnext : DumpersSound g
      (s.setHackThread h (.looping (.dumping handle s.statics.hook.il2cppHandle))) :=
    hs.thread hrunning rfl rfl fun u hu => if_neg hu
  obtain ⟨dir, hdir⟩ := Option.ne_none_iff_exists'.1
    (haccepted.started (Nat.lt_of_le_of_lt (Nat.zero_le h) hrunning.1))
  refine ⟨List.forall_mem_cons.2 ⟨⟨dir, hdir, haccepted.accepted dir hdir⟩, hs.outDirs⟩,
    hnext.started, ?_⟩
  obtain ⟨ids, hnodup, hlen, hdumped⟩ := hs.dumpers
  refine ⟨h :: ids, List.nodup_cons.2 ⟨fun hin => ?_, hnodup⟩, congrArg Nat.succ hlen, ?_⟩
  · rw [hdumped h hin] at hrunning
    cases hrunning.2
  · intro u hu
    dsimp only [SystemState.setHackThread]
    split
    · rfl
    · rename_i hne
      exact hdumped u ((List.mem_cons.1 hu).resolve_left hne)

theorem DumpersSound.step {g : Text} (hs : DumpersSound g s) {cs : List Callback}
    (haccepted : Accepted g cs s.statics) {a : SystemAction} (hmove : SystemMove env s a s') :
    DumpersSound g s' := by
  cases hmove with
  | callback hstep =>
    exact ⟨hs.outDirs,
      fun h hne => Nat.lt_of_lt_of_le (hs.started h hne) (hackThreads_of_callback hstep), hs.dumpers⟩
  | hack hmove =>
    have hrunning := hmove.running hs
    cases hmove with
    | wait _ _ => exact hs
    | @dump handle _ => exact hs.dump haccepted hrunning handle
    | _ => exact hs.thread hrunning rfl rfl fun u hu => if_neg hu
  | _ => exact ⟨hs.outDirs, hs.started, hs.dumpers⟩

theorem dumpedFile_path {H : Handles} {process : Process H} {device : Device} {handle : UInt64}
    {outDir : Option Text} {path : Text} {content : Option Text}
    (h : dumpedFile (il2cppDump process device handle outDir) = .ok (some (path, content))) :
    ∃ dir, outDir = some dir ∧ path = dir ++ "/files/dump.cs" := by
  rw [il2cppDump_eq] at h
  rcases hgather : gather process handle with fault | ⟨log, outputs⟩
  · rw [hgather] at h
    cases h
  rw [hgather] at h
  cases outputs with
  | none => cases h
  | some outputs =>
    have h : dumpedFile (writeDump device outDir log outputs.1 outputs.2) =
        .ok (some (path, content)) := h
    rw [dumpedFile_writeDump] at h
    cases outDir with
    | none => cases h
    | some dir =>
      obtain ⟨rfl, -⟩ := Prod.mk.inj (Option.some.inj (Except.ok.inj h))
      exact ⟨dir, rfl, rfl⟩

theorem HandlesSound.init : HandlesSound (.init env) where
  frames _ _ hmem := absurd hmem List.not_mem_nil
  captured hne := absurd rfl hne
  dumped _ hd := absurd hd List.not_mem_nil

theorem DumpersSound.init {g : Text} : DumpersSound g (.init env) where
  outDirs _ hd := absurd hd List.not_mem_nil
  started _ hne := absurd rfl hne
  dumpers := ⟨[], .nil, rfl, fun _ hu => absurd hu List.not_mem_nil⟩

theorem HandlesSound.of_run (h : (systemMachine env).Run guard (systemMachine env).init as s) :
    HandlesSound s :=
  h.invariant (I := fun _ => HandlesSound) .init
    fun _ _ _ _ hs _ hstep => hs.step (systemMove_of_step hstep)

/-- **Every dump is one of the game's.** It goes to a directory of the game, its handle is one that an
original has returned for the library, or null, the file it opens is `dump.cs` in that directory, and
there are no more dumps than hack threads. -/
theorem dumps_of_game (h : (systemMachine env).Run guard (systemMachine env).init as s) :
    (∀ d ∈ s.dumps, (d.handle ≠ 0 → Loaded s.returned d.handle) ∧
      ∃ dir, d.outDir = some dir ∧ scannedPackageName dir = some env.gamePackageName ∧
        ∀ (H : Handles) (process : Process H) device path content,
          dumpedFile (il2cppDump process device d.handle d.outDir) = .ok (some (path, content)) →
          path = dir ++ "/files/dump.cs") ∧
      s.dumps.length ≤ s.statics.hackThreads := by
  have hhandles := HandlesSound.of_run h
  have hs : DumpersSound env.gamePackageName s ∧
      Accepted env.gamePackageName (callbacks as) s.statics := by
    refine h.invariant (I := fun as s => DumpersSound env.gamePackageName s ∧
      Accepted env.gamePackageName (callbacks as) s.statics) ⟨.init, .init⟩ ?_
    intro as s a s' ⟨hdumpers, haccepted⟩ _ hstep
    have hmove := systemMove_of_step hstep
    exact ⟨hdumpers.step haccepted hmove, accepted_step haccepted hmove⟩
  obtain ⟨hdumpers, -⟩ := hs
  constructor
  · intro d hd
    obtain ⟨dir, hdir, hname⟩ := hdumpers.outDirs d hd
    refine ⟨hhandles.dumped d hd, dir, hdir, hname, ?_⟩
    intro H process device path content hfile
    obtain ⟨dir', hdir', hpath⟩ := dumpedFile_path hfile
    obtain rfl := Option.some.inj (hdir.symm.trans hdir')
    exact hpath
  · obtain ⟨ids, hnodup, hlen, hdumped⟩ := hdumpers.dumpers
    have hsub : ids ⊆ List.range s.statics.hackThreads := by
      intro u hu
      refine List.mem_range.2 (hdumpers.started u fun hcreated => ?_)
      have hcontra := hdumped u hu
      rw [hcreated] at hcontra
      cases hcontra
    have hle := (hnodup.subperm hsub).length_le
    rwa [hlen, List.length_range] at hle

/-- The hooked call loads the library, up to the store. -/
def loadLibrary : List SystemAction :=
  gameStarts ++ [.hack 0 .find] ++ [.hack 0 (.route (some 0x40000))] ++ hookedCall ++
    [.callOrigin 0, .dlopen 0 16, .test 0]

theorem run_loadLibrary : ((systemMachine gameProcess).run (systemMachine gameProcess).init
    (loadLibrary ++ [.store 0] ++ [.hack 0 .poll, .hack 0 .dump])).map SystemState.dumps =
      some [⟨16, some "/data/data/com.game".toList⟩] := by
  decide +kernel

theorem dumps_of_game_load : ∃ s : SystemState, s.dumps = [⟨16, some "/data/data/com.game"⟩] ∧
    (∃ d ∈ s.dumps, Loaded s.returned d.handle) ∧ s.dumps.length ≤ s.statics.hackThreads := by
  have hdumps := run_loadLibrary
  obtain ⟨s, hrun, hdumps⟩ := Option.map_eq_some_iff.1 hdumps
  have hrun : (systemMachine gameProcess).Run Machine.unguarded (systemMachine gameProcess).init _ s :=
    .of_run (fun _ _ _ => trivial) hrun
  obtain ⟨hall, hcount⟩ := dumps_of_game hrun
  refine ⟨s, hdumps, ⟨⟨16, some "/data/data/com.game"⟩, ?_, ?_⟩, hcount⟩
  · rw [hdumps]
    exact List.mem_singleton_self _
  · exact (hall ⟨16, some "/data/data/com.game"⟩ (hdumps ▸ List.mem_singleton_self _)).1 (by decide)

end Il2CppDumper
