import Il2CppDumper.Model.Hook

/-!
# Hooked calls on many threads

The test and the store of `dlopen_process` are two steps, so a second thread can pass the test before
the first one stores, and its own store then replaces the captured handle, possibly by null
(`lateNull_replaces`).

Nothing is replaced if every store of a handle finds the threads that have passed the test with the
same handle (`handle_stable`), and otherwise the store of one of them replaces it
(`storeAgrees_iff`).
-/

namespace Il2CppDumper

open Clib

/-! ### Steps -/

/-- What a step is and does, guards included. -/
inductive ThreadMove (s : ThreadState) : Action → ThreadState → Prop
  | dlopen {t : Nat} {name : Option Text} {handle : UInt64} : s.phase t = .outside →
      ThreadMove s (.dlopen t name handle) (s.setPhase t (.returned name handle))
  | pass {t : Nat} {name : Option Text} {handle : UInt64} : s.phase t = .returned name handle →
      dlopenTest s.il2cppHandle name = .ok true →
      ThreadMove s (.test t) (s.setPhase t (.passed handle))
  | skip {t : Nat} {name : Option Text} {handle : UInt64} : s.phase t = .returned name handle →
      dlopenTest s.il2cppHandle name = .ok false → ThreadMove s (.test t) (s.setPhase t .outside)
  | store {t : Nat} {handle : UInt64} : s.phase t = .passed handle →
      ThreadMove s (.store t) { s.setPhase t .outside with il2cppHandle := handle }
  | wait : s.hack = .waiting → s.il2cppHandle = 0 → ThreadMove s .poll s
  | stop : s.hack = .waiting → s.il2cppHandle ≠ 0 →
      ThreadMove s .poll { s with hack := .ended s.il2cppHandle }
  | dump {handle : UInt64} : s.hack = .ended handle →
      ThreadMove s .dump { s with hack := .dumping handle s.il2cppHandle }

theorem threadMove_of_step {s s' : ThreadState} {a : Action} (h : threadStep s a = some s') :
    ThreadMove s a s' := by
  cases a with
  | dlopen t name handle =>
    simp only [threadStep] at h
    split at h
    · rename_i hphase
      obtain rfl := Option.some.inj h
      exact .dlopen hphase
    · cases h
  | test t =>
    simp only [threadStep] at h
    split at h
    · rename_i hphase
      split at h
      · rename_i htest
        obtain rfl := Option.some.inj h
        exact .pass hphase htest
      · rename_i htest
        obtain rfl := Option.some.inj h
        exact .skip hphase htest
      · cases h
    · cases h
  | store t =>
    simp only [threadStep] at h
    split at h
    · rename_i hphase
      obtain rfl := Option.some.inj h
      exact .store hphase
    · cases h
  | poll =>
    simp only [threadStep] at h
    split at h
    · rename_i hhack
      split_ifs at h with hhandle
      · obtain rfl := Option.some.inj h
        exact .stop hhack hhandle
      · obtain rfl := Option.some.inj h
        exact .wait hhack (not_not.1 hhandle)
    · cases h
  | dump =>
    simp only [threadStep] at h
    split at h
    · rename_i hhack
      obtain rfl := Option.some.inj h
      exact .dump hhack
    · cases h

theorem threadStep_store {s : ThreadState} {t : Nat} {handle : UInt64}
    (hphase : s.phase t = .passed handle) :
    threadStep s (.store t) = some { s.setPhase t .outside with il2cppHandle := handle } := by
  simp only [threadStep, hphase]

theorem eq_zero_of_dlopenTest {handle : UInt64} {name : Option Text}
    (h : dlopenTest handle name = .ok true) : handle = 0 := by
  by_contra hne
  rw [dlopenTest, if_neg hne] at h
  cases h

theorem ThreadState.setPhase_self (s : ThreadState) (t : Nat) (phase : Phase) :
    (s.setPhase t phase).phase t = phase := if_pos rfl

theorem ThreadState.setPhase_setPhase (s : ThreadState) (t : Nat) (phase phase' : Phase) :
    (s.setPhase t phase).setPhase t phase' = s.setPhase t phase' := by
  simp only [setPhase, ThreadState.mk.injEq, true_and, and_true]
  funext u
  split <;> rfl

theorem ThreadState.setPhase_of_ne (s : ThreadState) {t u : Nat} (hne : u ≠ t) (phase : Phase) :
    (s.setPhase t phase).phase u = s.phase u := if_neg hne

/-- A thread that has passed the test after a phase was set either is the one set or was there
before. -/
theorem ThreadState.passed_of_setPhase {s : ThreadState} {t u : Nat} {phase : Phase}
    {handle : UInt64} (h : (s.setPhase t phase).phase u = .passed handle) :
    (u = t ∧ phase = .passed handle) ∨ (u ≠ t ∧ s.phase u = .passed handle) := by
  by_cases hu : u = t
  · subst hu
    exact .inl ⟨rfl, by rwa [setPhase_self] at h⟩
  · exact .inr ⟨hu, by rwa [setPhase_of_ne s hu] at h⟩

theorem ThreadState.passed_of_setPhase_of_ne {s : ThreadState} {t u : Nat} {phase : Phase}
    {handle : UInt64} (hphase : phase ≠ .passed handle)
    (h : (s.setPhase t phase).phase u = .passed handle) : s.phase u = .passed handle := by
  rcases passed_of_setPhase h with ⟨-, hpassed⟩ | ⟨-, h⟩
  · exact absurd hpassed hphase
  · exact h

/-- With nothing in between, the test and the store of a thread are `dlopen_process`. -/
theorem run_dlopenProcess {s : ThreadState} {t : Nat} {name : Option Text}
    {handle captured : UInt64} (hphase : s.phase t = .returned name handle)
    (h : dlopenProcess name handle ⟨s.il2cppHandle, ()⟩ = .ok ((), ⟨captured, ()⟩)) :
    ∃ as ∈ [[Action.test t], [Action.test t, Action.store t]],
      threadMachine.run s as = some { s.setPhase t .outside with il2cppHandle := captured } := by
  rw [dlopenProcess_apply] at h
  rcases htest : dlopenTest s.il2cppHandle name with fault | store
  · rw [htest] at h
    cases h
  · rw [htest] at h
    have hcaptured := congrArg HookState.il2cppHandle (Prod.mk.inj (Except.ok.inj h)).2
    cases store with
    | false =>
      obtain rfl : s.il2cppHandle = captured := hcaptured
      refine ⟨[.test t], by simp, ?_⟩
      simp only [Machine.run, threadMachine, threadStep, hphase, htest]
      rfl
    | true =>
      obtain rfl : handle = captured := hcaptured
      refine ⟨[.test t, .store t], by simp, ?_⟩
      simp only [Machine.run, threadMachine, threadStep, hphase, htest,
        ThreadState.setPhase_self, ThreadState.setPhase_setPhase]

/-! ### The invariant -/

def HackPhase.handles : HackPhase → List UInt64
  | .waiting => []
  | .ended handle => [handle]
  | .dumping handle passed => [handle, passed]

/-- Once a handle is captured, every thread that has passed the test carries it, and the hack thread
has read no other. -/
structure Agreed (s : ThreadState) : Prop where
  passed : s.il2cppHandle ≠ 0 → ∀ t handle, s.phase t = .passed handle → handle = s.il2cppHandle
  hack : ∀ handle ∈ s.hack.handles, handle ≠ 0 ∧ handle = s.il2cppHandle

/-- The step does not store a handle while another thread is about to store another one. -/
def StoreAgrees (s : ThreadState) (a : Action) : Prop :=
  ∀ t handle, a = .store t → s.phase t = .passed handle → handle ≠ 0 →
    ∀ u other, s.phase u = .passed other → other = handle

theorem storeAgrees_of_forall_ne {a : Action} (ha : ∀ t, a ≠ .store t) (s : ThreadState) :
    StoreAgrees s a := fun t _ heq => absurd heq (ha t)

/-- The condition is about the first handle only. -/
theorem Agreed.storeAgrees {s : ThreadState} (hs : Agreed s) (hne : s.il2cppHandle ≠ 0)
    (a : Action) : StoreAgrees s a := by
  rintro t handle rfl hphase - u other hother
  exact (hs.passed hne u other hother).trans (hs.passed hne t handle hphase).symm

theorem Agreed.init : Agreed .init where
  passed h := absurd rfl h
  hack := by simp [ThreadState.init, HackPhase.handles]

theorem Agreed.step {s s' : ThreadState} {a : Action} (hs : Agreed s) (hstore : StoreAgrees s a)
    (h : ThreadMove s a s') :
    Agreed s' ∧ (s.il2cppHandle ≠ 0 → s'.il2cppHandle = s.il2cppHandle) := by
  cases h with
  | @dlopen t name handle hphase =>
    refine ⟨⟨?_, hs.hack⟩, fun _ => rfl⟩
    intro hne u other hother
    exact hs.passed hne u other (ThreadState.passed_of_setPhase_of_ne Phase.noConfusion hother)
  | @pass t name handle hphase htest =>
    refine ⟨⟨?_, hs.hack⟩, fun _ => rfl⟩
    intro hne
    exact absurd (eq_zero_of_dlopenTest htest) hne
  | @skip t name handle hphase htest =>
    refine ⟨⟨?_, hs.hack⟩, fun _ => rfl⟩
    intro hne u other hother
    exact hs.passed hne u other (ThreadState.passed_of_setPhase_of_ne Phase.noConfusion hother)
  | @store t handle hphase =>
    -- what was captured before is the handle that is stored again
    have hkept : s.il2cppHandle ≠ 0 → handle = s.il2cppHandle := by
      intro hne
      exact hs.passed hne t handle hphase
    refine ⟨⟨?_, ?_⟩, hkept⟩
    · intro hne u other hother
      have hbefore := ThreadState.passed_of_setPhase_of_ne Phase.noConfusion hother
      exact hstore t handle rfl hphase hne u other hbefore
    · intro read hread
      obtain ⟨hne, hread⟩ := hs.hack read hread
      exact ⟨hne, hread.trans (hkept (hread ▸ hne)).symm⟩
  | wait hhack hnull => exact ⟨hs, fun _ => rfl⟩
  | stop hhack hne =>
    refine ⟨⟨hs.passed, ?_⟩, fun _ => rfl⟩
    intro read hread
    obtain rfl := List.mem_singleton.1 hread
    exact ⟨hne, rfl⟩
  | @dump handle hhack =>
    have hended := hs.hack handle (by rw [hhack]; exact List.mem_singleton_self handle)
    refine ⟨⟨hs.passed, ?_⟩, fun _ => rfl⟩
    intro read hread
    rcases List.mem_cons.1 hread with rfl | hread
    · exact hended
    · obtain rfl := List.mem_singleton.1 hread
      exact ⟨hended.2 ▸ hended.1, rfl⟩

/-- From a state in which all agree, every run that meets the condition keeps the handle. -/
theorem Agreed.run {s s' : ThreadState} {as : List Action} (hs : Agreed s)
    (h : threadMachine.Run StoreAgrees s as s') :
    Agreed s' ∧ (s.il2cppHandle ≠ 0 → s'.il2cppHandle = s.il2cppHandle) := by
  refine Machine.Run.invariant (I := fun _ s' =>
    Agreed s' ∧ (s.il2cppHandle ≠ 0 → s'.il2cppHandle = s.il2cppHandle)) ⟨hs, fun _ => rfl⟩ ?_ h
  intro as s₁ a s₂ ⟨hagreed, hkept⟩ hstore hstep
  obtain ⟨hagreed', hkept'⟩ := hagreed.step hstore (threadMove_of_step hstep)
  refine ⟨hagreed', ?_⟩
  intro hne
  have hsame := hkept hne
  exact (hkept' (hsame ▸ hne)).trans hsame

/-! ### Main results -/

/-- **If no store is made while a thread is about to store another handle, a captured handle stays in
every run, and the hack thread dumps from the handle on which its loop ended.** -/
theorem handle_stable {s : ThreadState} {as : List Action}
    (h : threadMachine.Run StoreAgrees .init as s) :
    (s.il2cppHandle ≠ 0 → ∀ bs s', threadMachine.Run StoreAgrees s bs s' →
      s'.il2cppHandle = s.il2cppHandle) ∧
    ∀ ended passed, s.hack = .dumping ended passed → passed = ended ∧ passed ≠ 0 := by
  have hs := (Agreed.init.run h).1
  refine ⟨?_, ?_⟩
  · intro hne bs s' hrun
    exact (hs.run hrun).2 hne
  · intro ended passed hhack
    have hended := hs.hack ended (by rw [hhack]; simp [HackPhase.handles])
    have hpassed := hs.hack passed (by rw [hhack]; simp [HackPhase.handles])
    exact ⟨hpassed.2.trans hended.2.symm, hpassed.1⟩

/-- Threads 0 and 1 load the library and both pass the test. -/
def bothPass (first second : UInt64) : List Action :=
  [.dlopen 0 (some "libil2cpp.so") first, .dlopen 1 (some "libil2cpp.so") second, .test 0, .test 1]

def bothPassed (first second : UInt64) : ThreadState :=
  (((ThreadState.init.setPhase 0 (.returned (some "libil2cpp.so") first)).setPhase 1
    (.returned (some "libil2cpp.so") second)).setPhase 0 (.passed first)).setPhase 1 (.passed second)

theorem run_bothPass (first second : UInt64) :
    threadMachine.run .init (bothPass first second) = some (bothPassed first second) := rfl

theorem storeAgrees_bothPassed (handle : UInt64) :
    StoreAgrees (bothPassed handle handle) (.store 0) := by
  rintro t handle' heq hphase - u other hother
  obtain rfl := Action.store.inj heq
  obtain rfl : handle = handle' := Phase.passed.inj hphase
  rcases ThreadState.passed_of_setPhase hother with ⟨-, hpassed⟩ | ⟨-, hother⟩
  · exact (Phase.passed.inj hpassed).symm
  rcases ThreadState.passed_of_setPhase hother with ⟨-, hpassed⟩ | ⟨-, hother⟩
  · exact (Phase.passed.inj hpassed).symm
  have hsecond := ThreadState.passed_of_setPhase_of_ne Phase.noConfusion hother
  have hfirst := ThreadState.passed_of_setPhase_of_ne Phase.noConfusion hsecond
  cases hfirst

theorem handle_stable_sameHandle :
    ∃ s s', threadMachine.Run StoreAgrees .init (bothPass 16 16 ++ [.store 0]) s ∧
      s.il2cppHandle = 16 ∧ threadMachine.Run StoreAgrees s [.poll, .store 1, .dump] s' ∧
      s'.il2cppHandle = s.il2cppHandle ∧ s'.hack = .dumping 16 16 := by
  have hpass : threadMachine.Run StoreAgrees .init (bothPass 16 16) (bothPassed 16 16) :=
    .of_run (fun a ha => storeAgrees_of_forall_ne (by rintro t rfl; simp [bothPass] at ha))
      (run_bothPass 16 16)
  have hcaptured := hpass.step (storeAgrees_bothPassed 16) rfl
  have hs := (Agreed.init.run hcaptured).1
  have hended := (Machine.Run.nil (M := threadMachine)).step (hs.storeAgrees (by decide) .poll) rfl
  have hstored := hended.step (((hs.run hended).1).storeAgrees (by decide) (.store 1)) rfl
  have hdumping := hstored.step (((hs.run hstored).1).storeAgrees (by decide) .dump) rfl
  exact ⟨_, _, hcaptured, rfl, hdumping, (handle_stable hcaptured).1 (by decide) _ _ hdumping, rfl⟩

/-- The load of thread 1 fails, and its store takes the handle away from the hack thread. -/
theorem lateNull_replaces :
    ∃ s s', threadMachine.Run Machine.unguarded .init (bothPass 16 0 ++ [.store 0]) s ∧
      s.il2cppHandle = 16 ∧ threadMachine.Run Machine.unguarded s [.poll, .store 1, .dump] s' ∧
      s'.il2cppHandle = 0 ∧ s'.hack = .dumping 16 0 :=
  ⟨_, _, .of_run (fun _ _ _ => trivial) rfl, rfl, .of_run (fun _ _ _ => trivial) rfl, rfl, rfl⟩

/-- A step after which all agree meets the condition exactly if no thread can replace the handle by
its own next store. -/
theorem storeAgrees_iff {s s' : ThreadState} {a : Action} (hs : Agreed s)
    (h : threadStep s a = some s') :
    StoreAgrees s a ↔ ∀ t s'', threadStep s' (.store t) = some s'' → s'.il2cppHandle ≠ 0 →
      s''.il2cppHandle = s'.il2cppHandle := by
  constructor
  · intro hstore t s'' hnext hne
    have hagreed := (hs.step hstore (threadMove_of_step h)).1
    cases threadMove_of_step hnext with
    | store hphase => exact hagreed.passed hne t _ hphase
  · rintro hkept t handle rfl hphase hne u other hother
    by_cases hu : u = t
    · obtain ⟨⟩ : Phase.passed other = .passed handle := by rw [← hother, hu, hphase]
      rfl
    · obtain rfl := Option.some.inj ((threadStep_store hphase).symm.trans h)
      -- thread `u` is still about to store
      have hnext : ({ s.setPhase t .outside with il2cppHandle := handle } : ThreadState).phase u =
          .passed other := (s.setPhase_of_ne hu .outside).trans hother
      exact hkept u _ (threadStep_store hnext) hne

end Il2CppDumper
