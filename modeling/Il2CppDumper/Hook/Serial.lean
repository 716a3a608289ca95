import Il2CppDumper.Hook.System

/-!
# One hook at a time

Where no two hack threads are in `DobbyHook` at once, the first one relocates the function as the linker
has it, and the others find its entry. So the original that a replacement calls is that function's own
code (`original_kept`).
-/

namespace Il2CppDumper

open Arm64 Clib Dobby

variable {env : Environment} {s s' : SystemState} {as : List SystemAction}

/-! ### The thread in `DobbyHook` -/

/-- The thread is in `DobbyHook`, behind the lookup. -/
def HackThread.inDobbyHook : HackThread → Bool
  | .created => false
  | .looping _ => false
  | _ => true

/-- No other thread is in `DobbyHook` when one looks for its entry. -/
def OneAtATime (s : SystemState) (a : SystemAction) : Prop :=
  ∀ h, a = .hack h .find → ∀ u, (s.hackThread u).inDobbyHook = false

/-- There are entries from the step that adds one on. -/
def HackThread.Listed (es : List HookEntry) : HackThread → Prop
  | .routing _ _ => es = []
  | .adding _ _ _ => es = []
  | .storing _ _ _ => es ≠ []
  | .committing _ _ => es ≠ []
  | _ => True

/-- One thread at most sets the hook, and it is the first to do so. -/
structure Serial (env : Environment) (s : SystemState) : Prop where
  alone : ∀ h u, (s.hackThread h).inDobbyHook = true → (s.hackThread u).inDobbyHook = true → h = u
  listed : ∀ h, (s.hackThread h).Listed s.process.hookEntryList
  entries : ∀ e ∈ s.process.hookEntryList, ∃ hook,
    env.hookCall = some (e.functionAddress, hook) ∧ e.trampolineTarget = env.replacement hook
  unset : s.process.hookEntryList = [] → ∀ hook, s.orig hook = 0

/-- The original of a function is its own first words, relocated. -/
def Relocated (env : Environment) (process : HookedProcess) (a : Addr) : Prop :=
  a ≠ 0 ∧ ∃ address hook, env.hookCall = some (address, hook) ∧
    OriginCall.Kept ⟨address, (HookedProcess.start env.memory).covered address (env.replacement hook),
      a⟩ process.memory.bytes process.pageChunks

theorem Relocated.mono {process process' : HookedProcess} {a : Addr}
    (hkept : ArenaKept process process') (h : Relocated env process a) :
    Relocated env process' a := by
  obtain ⟨hne, address, hook, hcall, F, hgen, hholds, c, hc, hsub⟩ := h
  obtain ⟨hc', hbytes⟩ := hkept c hc
  refine ⟨hne, address, hook, hcall, F, hgen, ?_, c, hc', hsub⟩
  exact hholds.congr fun x hx => hbytes x (hsub hx)

/-- What is relocated are the words of the function: nothing was hooked before. -/
theorem Serial.relocates (hserial : Serial env s) (hs : Originals env (Relocated env) s)
    (hpage : 100 ≤ env.pageSize) : Relocates env (Relocated env) s := by
  intro h mmap address hook process trampolineBuffer entry hthread hguard hroute hne
  obtain ⟨F, hooked, hhooked, hpages, hbytes, -⟩ := routed hroute
  have hcall : env.hookCall = some (address, hook) := by
    have hsound := hs.threads h
    rwa [hthread] at hsound
  have hempty : s.process.hookEntryList = [] := by
    have hlisted := hserial.listed h
    rwa [hthread] at hlisted
  have hwords : s.process.covered address (env.replacement hook) =
      (HookedProcess.start env.memory).covered address (env.replacement hook) :=
    covered_congr _ (hs.unpatched address hook hcall (hserial.unset hempty hook))
  obtain ⟨-, -, d, hd, hsub⟩ := hhooked.arena hs.arena (hs.hookable hguard hcall) hpage
  refine ⟨hne, address, hook, hcall, F, hwords ▸ hhooked.relocated, ?_, d, hpages ▸ hd, ?_⟩
  · have hsmall := hhooked.small
    rw [hbytes]
    exact holds_store _ _ (by omega)
  · rwa [length_bytes] at hsub

theorem HackThread.listed_of_outside {thread : HackThread} (h : thread.inDobbyHook = false)
    (es : List HookEntry) : thread.Listed es := by
  cases thread with
  | created => trivial
  | looping phase => trivial
  | routing address hook => cases h
  | adding hook trampolineBuffer entry => cases h
  | storing hook trampolineBuffer entry => cases h
  | committing trampolineBuffer entry => cases h

/-- A step of a thread: it alone is in `DobbyHook` if it changes the list or is there after it. -/
theorem Serial.thread (hserial : Serial env s) {h : Nat} {thread : HackThread}
    (process : HookedProcess) (hthread : thread.inDobbyHook = true →
      ∀ u, (s.hackThread u).inDobbyHook = true → u = h)
    (hlisted : thread.Listed process.hookEntryList)
    (hes : process.hookEntryList = s.process.hookEntryList ∨
      (s.hackThread h).inDobbyHook = true)
    (hentries : ∀ e ∈ process.hookEntryList, ∃ hook,
      env.hookCall = some (e.functionAddress, hook) ∧ e.trampolineTarget = env.replacement hook)
    (hunset : process.hookEntryList = [] → ∀ hook, s.orig hook = 0) :
    Serial env { s.setHackThread h thread with process } := by
  have hself : (s.setHackThread h thread).hackThread h = thread := if_pos rfl
  have hother : ∀ u, u ≠ h → (s.setHackThread h thread).hackThread u = s.hackThread u :=
    fun u hu => if_neg hu
  refine ⟨?_, ?_, hentries, hunset⟩
  · intro u v hu hv
    dsimp only at hu hv
    by_cases huh : u = h
    · subst huh
      by_cases hvu : v = u
      · exact hvu.symm
      · rw [hself] at hu
        rw [hother v hvu] at hv
        exact (hthread hu v hv).symm
    · rw [hother u huh] at hu
      by_cases hvh : v = h
      · subst hvh
        rw [hself] at hv
        exact hthread hv u hu
      · rw [hother v hvh] at hv
        exact hserial.alone u v hu hv
  · intro u
    dsimp only
    by_cases hu : u = h
    · rw [hu, hself]
      exact hlisted
    · rw [hother u hu]
      rcases hes with hsame | hinside
      · rw [hsame]
        exact hserial.listed u
      · -- the step is made in `DobbyHook`, so this thread is not there
        apply HackThread.listed_of_outside
        rw [Bool.eq_false_iff]
        exact fun hin => hu (hserial.alone u h hin hinside)

theorem Serial.hackStep (hserial : Serial env s)
    (hs : Originals env (Relocated env) s) {h : Nat} {a : HackAction}
    (hguard : OneAtATime s (.hack h a)) (hmove : HackMove env s h a s') : Serial env s' := by
  have hlisted := hserial.listed h
  have hsound := hs.threads h
  -- outside of `DobbyHook` the list stays
  have houtside : ∀ thread : HackThread, thread.inDobbyHook = false →
      Serial env (s.setHackThread h thread) := fun thread hthread =>
    hserial.thread s.process (fun hin => by simp [hthread] at hin)
      (HackThread.listed_of_outside hthread _) (.inl rfl) hserial.entries hserial.unset
  cases hmove with
  | refuse _ _ => exact houtside _ rfl
  | @find address hook _ _ hcall _ hnew =>
    have hempty : s.process.hookEntryList = [] := by
      rcases hlist : s.process.hookEntryList with _ | ⟨e, es⟩
      · rfl
      obtain ⟨hook', hcall', htarget⟩ := hserial.entries e (hlist ▸ List.mem_cons_self)
      rw [hcall] at hcall'
      obtain ⟨haddress, rfl⟩ := Prod.mk.inj (Option.some.inj hcall')
      have hfind : s.process.findHookEntry address = some e := by
        unfold HookedProcess.findHookEntry
        rw [hlist]
        exact List.find?_cons_of_pos (p := fun f : HookEntry => decide (f.functionAddress = address))
          (decide_eq_true haddress.symm)
      exact absurd htarget (hnew e hfind)
    refine hserial.thread s.process (fun _ u hu => ?_) hempty (.inl rfl)
      hserial.entries hserial.unset
    rw [hguard h rfl u] at hu
    cases hu
  | @route mmap address hook process trampolineBuffer entry hthread hroute =>
    rw [hthread] at hlisted
    obtain ⟨-, -, -, -, -, hlist, -⟩ := routed hroute
    have hinside : (s.hackThread h).inDobbyHook = true := by
      rw [hthread]
      rfl
    refine hserial.thread _ (fun _ u hu => hserial.alone u h hu hinside) (hlist.trans hlisted)
      (.inl hlist) ?_ ?_
    · rw [hlist]
      exact hserial.entries
    · rw [hlist]
      exact hserial.unset
  | @add hook trampolineBuffer entry hthread =>
    rw [hthread] at hsound
    obtain ⟨hcall, -, htarget, -⟩ := hsound
    have hinside : (s.hackThread h).inDobbyHook = true := by
      rw [hthread]
      rfl
    refine hserial.thread _ (fun _ u hu => hserial.alone u h hu hinside) (List.cons_ne_nil _ _)
      (.inr hinside) ?_ fun hnil => absurd hnil (List.cons_ne_nil _ _)
    intro e he
    rcases List.mem_cons.1 he with rfl | he
    · exact ⟨hook, hcall, htarget⟩
    · exact hserial.entries e he
  | @storeOrigin hook trampolineBuffer entry hthread =>
    rw [hthread] at hlisted
    have hinside : (s.hackThread h).inDobbyHook = true := by
      rw [hthread]
      rfl
    have hset : Serial env (s.setOrig hook entry.relocatedOriginFunction) :=
      ⟨hserial.alone, hserial.listed, hserial.entries, fun hnil => absurd hnil hlisted⟩
    exact hset.thread s.process (fun _ u hu => hserial.alone u h hu hinside) hlisted
      (.inl rfl) hset.entries hset.unset
  | commit hthread _ =>
    exact hserial.thread _ (fun hin => nomatch hin) trivial (.inl rfl) hserial.entries hserial.unset
  | wait _ _ => exact hserial
  | stop _ _ => exact houtside _ rfl
  | @dump handle _ =>
    have hnext := houtside (.looping (.dumping handle s.statics.hook.il2cppHandle)) rfl
    exact ⟨hnext.alone, hnext.listed, hnext.entries, hnext.unset⟩

theorem Serial.init : Serial env (.init env) where
  alone _ _ hin := nomatch hin
  listed _ := trivial
  entries _ he := absurd he List.not_mem_nil
  unset _ _ := rfl

theorem Serial.step (hserial : Serial env s) (hs : Originals env (Relocated env) s)
    {a : SystemAction} (hguard : OneAtATime s a) (hmove : SystemMove env s a s') :
    Serial env s' := by
  cases hmove with
  | hack hmove => exact hserial.hackStep hs hguard hmove
  | plain => exact hserial
  | _ => exact ⟨hserial.alone, hserial.listed, hserial.entries, hserial.unset⟩

/-- **The original of a hook is its function**: the code that the pointer leads to is the relocated form
of the function's own first words, in every state in which a call may go through it. -/
theorem original_kept (hpage : 100 ≤ env.pageSize) (hclean : env.Clean)
    (h : (systemMachine env).Run (fun s a => Allowed env s a ∧ OneAtATime s a)
      (systemMachine env).init as s) {t : Nat} {hook : Hook} {name : Option Text}
    (hframe : .entered hook name ∈ s.frames t) :
    ∃ address F, env.hookCall = some (address, hook) ∧
      genRelocateCodeAndBranch address
        ((HookedProcess.start env.memory).covered address (env.replacement hook)) = some F ∧
      Holds s.process.memory.bytes (s.orig hook) F.buffer := by
  have hs : Originals env (Relocated env) s ∧ Serial env s := by
    refine h.invariant (I := fun _ s => Originals env (Relocated env) s ∧ Serial env s)
      ⟨.init, .init⟩ ?_
    · intro _ s a s' ⟨hs, hserial⟩ ⟨hguard, hone⟩ hstep
      have hmove := systemMove_of_step hstep
      exact ⟨hs.step hpage hclean (fun _ _ _ hkept => .mono hkept) (fun _ _ ha => ha.1)
        (hserial.relocates hs hpage) hguard hmove, hserial.step hs hone hmove⟩
  obtain ⟨hne, address, hcall⟩ := hs.1.entered t hook name hframe
  obtain ⟨-, address', hook', hcall', F, hgen, hholds, -⟩ := hs.1.orig hook hne
  rw [hcall] at hcall'
  obtain ⟨rfl, rfl⟩ := Prod.mk.inj (Option.some.inj hcall')
  exact ⟨address, F, hcall, hgen, hholds⟩

theorem original_kept_call : ∃ (s : SystemState) (F : CodeBuffer),
    s.frames 0 = [.entered .doDlopenV24 (some "libil2cpp.so")] ∧
    genRelocateCodeAndBranch 0x10000 prologue = some F ∧
    Holds s.process.memory.bytes (s.orig .doDlopenV24) F.buffer := by
  obtain ⟨s, hrun, hframes⟩ := run_hookedCall
    (fun s a => Allowed gameProcess s a ∧ OneAtATime s a)
    (by simp [gameStarts, Allowed, OneAtATime])
    (fun s hcreated => ⟨trivial, fun _ _ u => by rw [hcreated u]; rfl⟩)
    (fun s hempty => ⟨gameProcess_allowed s hempty, fun _ heq => nomatch heq⟩)
    (by simp [hookedCall, Allowed, OneAtATime])
  have hmem : .entered .doDlopenV24 (some "libil2cpp.so") ∈ s.frames 0 := by
    rw [hframes]
    exact List.mem_singleton_self _
  obtain ⟨address, F, hcall, hgen, hholds⟩ :=
    original_kept (by decide) gameProcess_clean hrun hmem
  rw [gameProcess_hookCall] at hcall
  obtain ⟨rfl, -⟩ := Prod.mk.inj (Option.some.inj hcall)
  have hwords : (HookedProcess.start gameProcess.memory).covered 0x10000
      (gameProcess.replacement .doDlopenV24) = prologue := HookedProcess.prologue_covered _
  rw [hwords] at hgen
  exact ⟨s, F, hframes, hgen, hholds⟩

end Il2CppDumper
