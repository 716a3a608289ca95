import Il2CppDumper.Hook.Dumps
import Il2CppDumper.Hook.Threads
import Mathlib.Data.Nat.Pairing

/-!
# What a hack thread sees of a process

Seen from one hack thread, a run of the process is a run of the machine of threads, in which every frame
of every stack is a thread of its own (`threads_simulated`). So the condition under which a captured
handle stays is the same, and under it all dumps of a process are made from one handle
(`dumps_agree`).
-/

namespace Il2CppDumper

open Clib

variable {env : Environment} {guard : SystemState → SystemAction → Prop} {s s' : SystemState}
  {as : List SystemAction}

/-! ### The view of a hack thread -/

def Frame.phase : Frame → Phase
  | .returned name handle => .returned name handle
  | .passed handle => .passed handle
  | _ => .outside

/-- The phase of the frame that has `depth` frames below it. -/
def phaseAt (frames : List Frame) (depth : Nat) : Phase :=
  match frames.reverse[depth]? with
  | some frame => frame.phase
  | none => .outside

def HackThread.phase : HackThread → HackPhase
  | .looping phase => phase
  | _ => .waiting

/-- The frame of thread `t` at `depth` is thread `Nat.pair t depth`. -/
def SystemState.view (s : SystemState) (h : Nat) : ThreadState where
  il2cppHandle := s.statics.hook.il2cppHandle
  phase := fun k => phaseAt (s.frames k.unpair.1) k.unpair.2
  hack := (s.hackThread h).phase

theorem phaseAt_cons (frame : Frame) (frames : List Frame) (depth : Nat) :
    phaseAt (frame :: frames) depth =
      if depth = frames.length then frame.phase else phaseAt frames depth := by
  unfold phaseAt
  rw [List.reverse_cons]
  rcases Nat.lt_trichotomy depth frames.length with hlt | rfl | hgt
  · rw [if_neg hlt.ne, List.getElem?_append_left (by rwa [List.length_reverse])]
  · rw [if_pos rfl, ← List.length_reverse, List.getElem?_concat_length]
  · rw [if_neg hgt.ne', List.getElem?_eq_none (by simp; omega),
      List.getElem?_eq_none (by simp; omega)]

theorem phaseAt_length (frames : List Frame) : phaseAt frames frames.length = .outside := by
  unfold phaseAt
  rw [List.getElem?_eq_none (by simp)]

theorem phaseAt_outside (frames : List Frame) (depth : Nat) :
    phaseAt frames depth = if depth = frames.length then .outside else phaseAt frames depth := by
  split
  · rename_i hdepth
    rw [hdepth, phaseAt_length]
  · rfl

theorem mem_of_phaseAt {frames : List Frame} {depth : Nat} {handle : UInt64}
    (h : phaseAt frames depth = .passed handle) : .passed handle ∈ frames := by
  unfold phaseAt at h
  split at h
  · rename_i frame hframe
    have hmem : frame ∈ frames := List.mem_reverse.1 (List.mem_of_getElem? hframe)
    cases frame with
    | passed other =>
      obtain rfl := Phase.passed.inj h
      exact hmem
    | _ => cases h
  · cases h

theorem view_setFrames {t : Nat} {frame : Frame} {frames new : List Frame} {phase : Phase} (h : Nat)
    (hframes : s.frames t = frame :: frames)
    (hnew : ∀ depth, phaseAt new depth =
      if depth = frames.length then phase else phaseAt frames depth) :
    (s.setFrames t new).view h = (s.view h).setPhase (Nat.pair t frames.length) phase := by
  unfold SystemState.view ThreadState.setPhase
  congr 1
  funext k
  dsimp only [SystemState.setFrames]
  by_cases hu : k.unpair.1 = t
  · rw [if_pos hu, hu, hnew, hframes, phaseAt_cons]
    by_cases hdepth : k.unpair.2 = frames.length
    · have hk : k = Nat.pair t frames.length := by
        rw [← hu, ← hdepth, Nat.pair_unpair]
      rw [if_pos hdepth, if_pos hk]
    · have hk : k ≠ Nat.pair t frames.length := by
        rintro rfl
        exact hdepth (by rw [Nat.unpair_pair])
      rw [if_neg hdepth, if_neg hk, if_neg hdepth]
  · have hk : k ≠ Nat.pair t frames.length := by
      rintro rfl
      exact hu (by rw [Nat.unpair_pair])
    rw [if_neg hu, if_neg hk]

/-- A call that is not seen: its frame has not reached the test, or reaches it no more. -/
theorem view_setFrames_of_outside {t : Nat} {new : List Frame} (h : Nat)
    (hnew : ∀ depth, phaseAt new depth = phaseAt (s.frames t) depth) :
    (s.setFrames t new).view h = s.view h := by
  unfold SystemState.view
  congr 1
  funext k
  dsimp only [SystemState.setFrames]
  split
  · rename_i hu
    rw [hnew, hu]
  · rfl

theorem view_phase {t : Nat} {frame : Frame} {frames : List Frame} (h : Nat)
    (hframes : s.frames t = frame :: frames) :
    (s.view h).phase (Nat.pair t frames.length) = frame.phase := by
  show phaseAt (s.frames (Nat.pair t frames.length).unpair.1) (Nat.pair t frames.length).unpair.2 = _
  rw [Nat.unpair_pair, hframes, phaseAt_cons, if_pos rfl]

/-! ### Steps -/

/-- No thread stores a handle while another call is about to store another one. -/
def StoresAgree (s : SystemState) (a : SystemAction) : Prop :=
  ∀ t handle frames, a = .store t → s.frames t = .passed handle :: frames → handle ≠ 0 →
    ∀ u other, .passed other ∈ s.frames u → other = handle

theorem HackMove.phase {h : Nat} {a : HackAction} (hmove : HackMove env s h a s') :
    (s'.hackThread h).phase = (s.hackThread h).phase ∨
      ((s.hackThread h).phase = .waiting ∧ s.statics.hook.il2cppHandle ≠ 0 ∧
        (s'.hackThread h).phase = .ended s.statics.hook.il2cppHandle) ∨
      ∃ handle, (s.hackThread h).phase = .ended handle ∧
        (s'.hackThread h).phase = .dumping handle s.statics.hook.il2cppHandle := by
  cases hmove with
  | wait _ _ => exact .inl rfl
  | stop hthread hne =>
    refine .inr (.inl ⟨?_, hne, ?_⟩)
    · rw [hthread]
      rfl
    · simp [SystemState.setHackThread, HackThread.phase]
  | @dump handle hthread =>
    refine .inr (.inr ⟨handle, ?_, ?_⟩)
    · rw [hthread]
      rfl
    · simp [SystemState.setHackThread, HackThread.phase]
  | refuse hthread _ => simp [SystemState.setHackThread, hthread, HackThread.phase]
  | find hthread _ _ _ _ => simp [SystemState.setHackThread, hthread, HackThread.phase]
  | route hthread _ => simp [SystemState.setHackThread, hthread, HackThread.phase]
  | add hthread => simp [SystemState.setHackThread, hthread, HackThread.phase]
  | storeOrigin hthread => simp [SystemState.setHackThread, hthread, HackThread.phase]
  | commit hthread _ => simp [SystemState.setHackThread, hthread, HackThread.phase]

/-- The thread that takes the step is the one that is seen, or another. -/
theorem view_hackStep {h u : Nat} {a : HackAction} (hmove : HackMove env s u a s') :
    s'.view h = s.view h ∨ ∃ b, (∀ t, b ≠ .store t) ∧ threadStep (s.view h) b = some (s'.view h) := by
  obtain ⟨hstatics, hframes, hothers⟩ := hmove.frame
  have hview : s'.view h = { s.view h with hack := (s'.hackThread h).phase } := by
    unfold SystemState.view
    rw [hstatics, hframes]
  by_cases hu : h = u
  · subst hu
    have hhack : (s.view h).hack = (s.hackThread h).phase := rfl
    rcases hmove.phase with hsame | ⟨hwaiting, hne, hnext⟩ | ⟨handle, hended, hnext⟩
    · left
      rw [hview, hsame]
      rfl
    · refine .inr ⟨.poll, by simp, ?_⟩
      rw [hview, hnext, threadStep, hhack, hwaiting]
      exact congrArg some (if_pos hne)
    · refine .inr ⟨.dump, by simp, ?_⟩
      rw [hview, hnext, threadStep, hhack, hended]
      rfl
  · left
    rw [hview, hothers h hu]
    rfl

/-- One step of the process is at most one step of the threads. -/
theorem view_step (h : Nat) {a : SystemAction} (hmove : SystemMove env s a s') :
    s'.view h = s.view h ∨ ∃ b, threadStep (s.view h) b = some (s'.view h) ∧
      (StoresAgree s a → StoreAgrees (s.view h) b) := by
  cases hmove with
  | callback hstep =>
    left
    unfold SystemState.view
    dsimp only
    rw [il2cppHandle_of_callback hstep]
  | write => exact .inl rfl
  | plain => exact .inl rfl
  | @call t name address hook _ _ _ _ =>
    refine .inl (view_setFrames_of_outside h fun depth => ?_)
    rw [phaseAt_cons]
    split
    · rename_i hdepth
      rw [hdepth, phaseAt_length]
      rfl
    · rfl
  | @callOrigin t hook name frames hframes _ =>
    refine .inl (view_setFrames_of_outside h fun depth => ?_)
    rw [hframes, phaseAt_cons, phaseAt_cons]
    rfl
  | @dlopen t hook name handle frames hframes =>
    right
    refine ⟨.dlopen (Nat.pair t frames.length) name handle, ?_,
      fun _ => storeAgrees_of_forall_ne (by simp) _⟩
    rw [threadStep, view_phase h hframes]
    refine congrArg some (view_setFrames h hframes fun depth => ?_).symm
    exact phaseAt_cons _ _ _
  | @pass t name handle frames hframes htest =>
    right
    refine ⟨.test (Nat.pair t frames.length), ?_,
      fun _ => storeAgrees_of_forall_ne (by simp) _⟩
    have htest : dlopenTest (s.view h).il2cppHandle name = .ok true := htest
    rw [threadStep, view_phase h hframes]
    dsimp only [Frame.phase]
    rw [htest]
    refine congrArg some (view_setFrames h hframes fun depth => ?_).symm
    exact phaseAt_cons _ _ _
  | @skip t name handle frames hframes htest =>
    right
    refine ⟨.test (Nat.pair t frames.length), ?_,
      fun _ => storeAgrees_of_forall_ne (by simp) _⟩
    have htest : dlopenTest (s.view h).il2cppHandle name = .ok false := htest
    rw [threadStep, view_phase h hframes]
    dsimp only [Frame.phase]
    rw [htest]
    exact congrArg some (view_setFrames h hframes (phaseAt_outside frames)).symm
  | @store t handle frames hframes =>
    right
    refine ⟨.store (Nat.pair t frames.length), ?_, fun hagree => ?_⟩
    · rw [threadStep, view_phase h hframes]
      dsimp only [Frame.phase]
      rw [← view_setFrames h hframes (phaseAt_outside frames)]
      rfl
    · intro k handle' heq hpassed hne u other hother
      obtain rfl := Action.store.inj heq
      rw [view_phase h hframes] at hpassed
      obtain rfl := Phase.passed.inj hpassed
      exact hagree t handle frames rfl hframes hne _ other (mem_of_phaseAt hother)
  | hack hmove =>
    rcases view_hackStep hmove with hsame | ⟨b, hb, hstep⟩
    · exact .inl hsame
    · exact .inr ⟨b, hstep, fun _ => storeAgrees_of_forall_ne hb _⟩

/-- **Seen from any hack thread, the process runs as the machine of threads does**, and with stores that
agree if its own agree. -/
theorem threads_simulated (h : (systemMachine env).Run guard (systemMachine env).init as s)
    (u : Nat) : ∃ bs, threadMachine.Run Machine.unguarded .init bs (s.view u) ∧
      ((∀ s a, guard s a → StoresAgree s a) → threadMachine.Run StoreAgrees .init bs (s.view u)) := by
  refine h.invariant (I := fun _ s => ∃ bs, threadMachine.Run Machine.unguarded .init bs (s.view u) ∧
    ((∀ s a, guard s a → StoresAgree s a) → threadMachine.Run StoreAgrees .init bs (s.view u))) ?_ ?_
  · refine ⟨[], ?_⟩
    have hinit : (systemMachine env).init.view u = .init := by
      unfold SystemState.view
      congr 1
    rw [hinit]
    exact ⟨.nil, fun _ => .nil⟩
  · intro _ s a s' ⟨bs, hrun, hagreed⟩ hguard hstep
    rcases view_step u (systemMove_of_step hstep) with hsame | ⟨b, hnext, hagrees⟩
    · rw [hsame]
      exact ⟨bs, hrun, hagreed⟩
    · refine ⟨bs ++ [b], hrun.step trivial hnext, fun hstores => ?_⟩
      exact (hagreed hstores).step (hagrees (hstores s a hguard)) hnext

/-! ### All dumps -/

theorem HackMove.not_dumping {h : Nat} {a : HackAction} (hmove : HackMove env s h a s')
    (handle passed : UInt64) : s.hackThread h ≠ .looping (.dumping handle passed) := by
  cases hmove with
  | refuse hthread _ => simp [hthread]
  | find hthread _ _ _ _ => simp [hthread]
  | route hthread _ => simp [hthread]
  | add hthread => simp [hthread]
  | storeOrigin hthread => simp [hthread]
  | commit hthread _ => simp [hthread]
  | wait hthread _ => simp [hthread]
  | stop hthread _ => simp [hthread]
  | dump hthread => simp [hthread]

/-- Every dump is that of a hack thread. -/
def DumpsSeen (s : SystemState) : Prop :=
  ∀ d ∈ s.dumps, ∃ h ended, s.hackThread h = .looping (.dumping ended d.handle)

theorem DumpsSeen.step (hs : DumpsSeen s) {a : SystemAction} (hmove : SystemMove env s a s') :
    DumpsSeen s' := by
  cases hmove with
  | @hack h a s' hmove =>
    have hkept : ∀ d ∈ s.dumps, ∃ u ended, s'.hackThread u = .looping (.dumping ended d.handle) := by
      intro d hd
      obtain ⟨u, ended, hu⟩ := hs d hd
      have hne : u ≠ h := by
        rintro rfl
        exact hmove.not_dumping ended d.handle hu
      exact ⟨u, ended, (hmove.frame.2.2 u hne).trans hu⟩
    cases hmove with
    | @dump handle hthread => exact List.forall_mem_cons.2 ⟨⟨h, handle, if_pos rfl⟩, hkept⟩
    | _ => exact hkept
  | _ => exact hs

/-- **All dumps are made from one handle**, whichever hack threads make them: the process simulates the
machine of threads, and in every run in which no thread stores a handle while another call is about to
store another one, the handle is not null and is the one that is captured. -/
theorem dumps_agree (h : (systemMachine env).Run guard (systemMachine env).init as s) :
    (∀ u, ∃ bs, threadMachine.Run Machine.unguarded .init bs (s.view u)) ∧
      ((∀ s a, guard s a → StoresAgree s a) →
        ∀ d ∈ s.dumps, d.handle ≠ 0 ∧ d.handle = s.statics.hook.il2cppHandle) := by
  constructor
  · intro u
    obtain ⟨bs, hrun, -⟩ := threads_simulated h u
    exact ⟨bs, hrun⟩
  · intro hstores d hd
    have hseen : DumpsSeen s := by
      refine h.invariant (I := fun _ => DumpsSeen) (fun _ hd => absurd hd List.not_mem_nil) ?_
      exact fun _ _ _ _ hs _ hstep => hs.step (systemMove_of_step hstep)
    obtain ⟨u, ended, hthread⟩ := hseen d hd
    obtain ⟨bs, -, hrun⟩ := threads_simulated h u
    have hagreed := (Agreed.init.run (hrun hstores)).1
    apply hagreed.hack d.handle
    have hhack : (s.view u).hack = .dumping ended d.handle := congrArg HackThread.phase hthread
    rw [hhack]
    simp [HackPhase.handles]

theorem storesAgree_of_returned (hs : HandlesSound s) (handle : UInt64)
    (h : ∀ c ∈ s.returned, c.2 = handle) (a : SystemAction) : StoresAgree s a := by
  have hloaded : ∀ t other, .passed other ∈ s.frames t → other = handle := by
    intro t other hmem
    obtain ⟨name, hin, -⟩ := hs.frames t _ hmem
    exact h (some name, other) hin
  intro t handle' frames _ hframes _ u other hother
  rw [hloaded u other hother, hloaded t handle' (hframes ▸ List.mem_cons_self)]

theorem dumps_agree_load : ∃ s : SystemState, s.dumps = [⟨16, some "/data/data/com.game"⟩] ∧
    s.statics.hook.il2cppHandle = 16 := by
  obtain ⟨s, hrun, hdumps⟩ := Option.map_eq_some_iff.1 run_loadLibrary
  rw [Machine.run_append, Option.bind_eq_some_iff] at hrun
  obtain ⟨s₂, hstored, hrun⟩ := hrun
  rw [Machine.run_append, Option.bind_eq_some_iff] at hstored
  obtain ⟨s₁, hloaded, hstored⟩ := hstored
  rw [Machine.run_singleton] at hstored
  have hreturned : ((systemMachine gameProcess).run (systemMachine gameProcess).init
      loadLibrary).map SystemState.returned = some [(some "libil2cpp.so".toList, 16)] := by
    decide +kernel
  rw [hloaded] at hreturned
  have hbefore : (systemMachine gameProcess).Run StoresAgree (systemMachine gameProcess).init
      loadLibrary s₁ :=
    .of_run (by simp [loadLibrary, gameStarts, hookedCall, StoresAgree]) hloaded
  have hagree : StoresAgree s₁ (.store 0) := by
    apply storesAgree_of_returned (.of_run hbefore) 16
    intro c hc
    rw [Option.some.inj hreturned] at hc
    rw [List.mem_singleton.1 hc]
  obtain ⟨-, hall⟩ := dumps_agree
    ((hbefore.step hagree hstored).prolong (by simp [StoresAgree]) hrun)
  refine ⟨s, hdumps, (hall (fun _ _ h => h) ⟨16, some "/data/data/com.game"⟩ ?_).2.symm⟩
  rw [hdumps]
  exact List.mem_singleton_self _

end Il2CppDumper
