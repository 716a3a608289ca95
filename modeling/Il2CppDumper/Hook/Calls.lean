import Il2CppDumper.Model.Hook

/-!
# Hooked calls on one thread

A library's initialisers may load further libraries before the outer call returns, so the calls of a
thread are a forest. What the hooks do to the captured handle depends only on the order in which the
calls complete (`Calls.run_eq`).

The hooks hand every handle through and capture the first one of the library, provided that no call
with a null name, for the main program, completes before: its name would be searched
(`calls_transparent_iff`).
-/

namespace Il2CppDumper

open Clib

inductive Hook where
  | loaderDlopen
  | doDlopenV24
  | doDlopenV19
  deriving DecidableEq, Repr

structure DlopenArgs where
  name : Option Text
  flags : Int
  extinfo : UInt64
  callerAddr : UInt64
  deriving DecidableEq, Repr

/-- The hook called with an original that does the same whatever its arguments are. -/
def Hook.call {ω : Type} (hook : Hook) (orig : HookM ω UInt64) (args : DlopenArgs) : HookM ω UInt64 :=
  match hook with
  | .loaderDlopen => newLoaderDlopen (fun _ _ _ => orig) args.name args.flags args.callerAddr
  | .doDlopenV24 =>
    newDoDlopenV24 (fun _ _ _ _ => orig) args.name args.flags args.extinfo args.callerAddr
  | .doDlopenV19 => newDoDlopenV19 (fun _ _ _ => orig) args.name args.flags args.extinfo

/-- Calls one after the other, each with the calls made before its original returns `handle`. -/
inductive Calls where
  | done
  | call (hook : Hook) (args : DlopenArgs) (inner : Calls) (handle : UInt64) (rest : Calls)

namespace Calls

/-- The program that makes the calls and writes down every handle it gets back. -/
def run : Calls → HookM (List UInt64) Unit
  | done => return ()
  | call hook args inner handle rest => do
    let returned ← hook.call (do inner.run; return handle) args
    modify fun s => { s with rest := s.rest ++ [returned] }
    rest.run

/-- A completed call: its name and what its original returned. -/
structure Completion where
  name : Option Text
  handle : UInt64
  deriving DecidableEq, Repr

/-- The calls in order of completion. -/
def completions : Calls → List Completion
  | done => []
  | call _ args inner handle rest => inner.completions ++ ⟨args.name, handle⟩ :: rest.completions

def Completion.captures (c : Completion) : Bool :=
  c.handle ≠ 0 ∧ strstr (c.name.getD []) "libil2cpp.so"

/-- The handle of the first call that loads the library, or null. -/
def captured (cs : List Completion) : UInt64 :=
  match cs.find? Completion.captures with
  | some c => c.handle
  | none => 0

/-! ### Order of completion -/

def complete (s : HookState (List UInt64)) (c : Completion) :
    Except Fault (HookState (List UInt64)) := do
  let store ← dlopenTest s.il2cppHandle c.name
  return ⟨if store then c.handle else s.il2cppHandle, s.rest ++ [c.handle]⟩

theorem hook_call {ω : Type} (hook : Hook) (orig : HookM ω UInt64) (args : DlopenArgs) :
    hook.call orig args = hooked orig args.name := by
  cases hook <;> rfl

/-- A hook hands the original's handle through, unless the test faults. -/
theorem hooked_apply {ω : Type} (orig : HookM ω UInt64) (name : Option Text) (s : HookState ω) :
    hooked orig name s = (orig s).bind fun (handle, s) =>
      (dlopenTest s.il2cppHandle name).map fun store =>
        (handle, if store then { s with il2cppHandle := handle } else s) := by
  simp only [hooked, bind, StateT.bind]
  rcases orig s with fault | ⟨handle, s⟩
  · rfl
  · simp only [Except.bind, dlopenProcess_apply]
    rcases dlopenTest s.il2cppHandle name with fault | store
    · rfl
    · rfl

theorem run_call (hook : Hook) (args : DlopenArgs) (inner : Calls) (handle : UInt64) (rest : Calls)
    (s : HookState (List UInt64)) :
    (call hook args inner handle rest).run s = (inner.run s).bind fun (_, s) =>
      (complete s ⟨args.name, handle⟩).bind rest.run := by
  have hreturn : ∀ s : HookState (List UInt64),
      (pure handle : HookM (List UInt64) UInt64) s = .ok (handle, s) := fun s => rfl
  simp only [run, bind, StateT.bind, hook_call, hooked_apply, complete]
  rcases inner.run s with fault | ⟨⟨⟩, s⟩
  · rfl
  · simp only [Except.bind, hreturn]
    rcases dlopenTest s.il2cppHandle args.name with fault | store
    · rfl
    · cases store <;> rfl

/-- The calls of a forest work on the state one after the other, as they complete. -/
theorem run_eq (calls : Calls) (s : HookState (List UInt64)) :
    calls.run s = (calls.completions.foldlM complete s).map fun s => ((), s) := by
  induction calls generalizing s with
  | done => rfl
  | call hook args inner handle rest ihInner ihRest =>
    rw [run_call, ihInner, completions, List.foldlM_append]
    rcases inner.completions.foldlM complete s with fault | s
    · rfl
    · simp only [Except.map, Except.bind, bind, List.foldlM_cons]
      rcases complete s ⟨args.name, handle⟩ with fault | s
      · rfl
      · exact ihRest s

/-! ### What the calls leave -/

/-- Every call with a null name completes after one that loads the library. -/
def NamedUntilCaptured (cs : List Completion) : Prop :=
  ∀ before c after, cs = before ++ c :: after → c.name = none → ∃ d ∈ before, d.captures = true

theorem namedUntilCaptured_nil : NamedUntilCaptured [] := by
  intro before c after heq
  exact absurd heq (by simp)

theorem namedUntilCaptured_cons (c : Completion) (cs : List Completion) :
    NamedUntilCaptured (c :: cs) ↔ c.name ≠ none ∧ (c.captures = true ∨ NamedUntilCaptured cs) := by
  constructor
  · intro h
    refine ⟨fun hname => ?_, ?_⟩
    · obtain ⟨d, hd, -⟩ := h [] c cs rfl hname
      cases hd
    · by_cases hcaptures : c.captures = true
      · exact .inl hcaptures
      · refine .inr fun before d after heq hname => ?_
        obtain ⟨e, he, hcap⟩ := h (c :: before) d after (congrArg (c :: ·) heq) hname
        rcases List.mem_cons.1 he with rfl | he
        · exact absurd hcap hcaptures
        · exact ⟨e, he, hcap⟩
  · rintro ⟨hname, hrest⟩ before d after heq hnull
    cases before with
    | nil =>
      obtain ⟨rfl, -⟩ := List.cons_eq_cons.1 heq
      exact absurd hnull hname
    | cons e before =>
      obtain ⟨rfl, htail⟩ : c = e ∧ cs = before ++ d :: after := List.cons_eq_cons.1 heq
      rcases hrest with hcaptures | hrest
      · exact ⟨c, List.mem_cons_self, hcaptures⟩
      · obtain ⟨f, hf, hcap⟩ := hrest before d after htail hnull
        exact ⟨f, List.mem_cons_of_mem c hf, hcap⟩

theorem captures_some_iff (name : Text) (handle : UInt64) :
    Completion.captures ⟨some name, handle⟩ = true ↔
      handle ≠ 0 ∧ strstr name "libil2cpp.so" = true := decide_eq_true_iff

theorem captured_cons (c : Completion) (cs : List Completion) :
    captured (c :: cs) = if c.captures then c.handle else captured cs := by
  rw [captured, List.find?_cons]
  cases c.captures <;> rfl

/-- While the handle is null, a name is searched, and a load that fails leaves it null. -/
theorem complete_some (name : Text) (handle : UInt64) (returned : List UInt64) :
    complete ⟨0, returned⟩ ⟨some name, handle⟩ =
      .ok ⟨if Completion.captures ⟨some name, handle⟩ then handle else 0, returned ++ [handle]⟩ := by
  have hstep : complete ⟨0, returned⟩ ⟨some name, handle⟩ =
      .ok ⟨if strstr name "libil2cpp.so" then handle else 0, returned ++ [handle]⟩ := rfl
  rw [hstep]
  by_cases hcaptures : Completion.captures ⟨some name, handle⟩ = true
  · rw [if_pos ((captures_some_iff name handle).1 hcaptures).2, if_pos hcaptures]
  · rw [if_neg hcaptures]
    by_cases hname : strstr name "libil2cpp.so" = true
    · have hhandle : handle = 0 := by
        by_contra hne
        exact hcaptures ((captures_some_iff name handle).2 ⟨hne, hname⟩)
      rw [hhandle, ite_self]
    · rw [if_neg hname]

/-- A captured handle stays, and nothing reads a name any more. -/
theorem foldlM_complete_of_ne_zero (cs : List Completion) {handle : UInt64} (hhandle : handle ≠ 0)
    (returned : List UInt64) :
    cs.foldlM complete ⟨handle, returned⟩ =
      .ok ⟨handle, returned ++ cs.map Completion.handle⟩ := by
  induction cs generalizing returned with
  | nil => simp [pure, Except.pure]
  | cons c cs ih =>
    have hstep : complete ⟨handle, returned⟩ c = .ok ⟨handle, returned ++ [c.handle]⟩ := by
      simp only [complete, dlopenTest, if_neg hhandle]
      rfl
    rw [List.foldlM_cons, hstep]
    refine (ih (returned ++ [c.handle])).trans ?_
    simp

theorem foldlM_complete_iff (cs : List Completion) (returned : List UInt64) :
    cs.foldlM complete ⟨0, returned⟩ =
        .ok ⟨captured cs, returned ++ cs.map Completion.handle⟩ ↔ NamedUntilCaptured cs := by
  induction cs generalizing returned with
  | nil => simp [pure, Except.pure, captured, namedUntilCaptured_nil]
  | cons c cs ih =>
    obtain ⟨name, handle⟩ := c
    rw [namedUntilCaptured_cons, List.foldlM_cons]
    cases name with
    | none =>
      -- the null name is read
      have hstep : complete ⟨0, returned⟩ ⟨none, handle⟩ = .error .nullString := rfl
      rw [hstep]
      refine iff_of_false ?_ ?_
      · intro h
        cases h
      · exact fun h => h.1 rfl
    | some name =>
      have hreturned : returned ++ handle :: cs.map Completion.handle =
          (returned ++ [handle]) ++ cs.map Completion.handle := by
        rw [List.append_assoc, List.singleton_append]
      rw [complete_some, captured_cons, List.map_cons, hreturned]
      simp only [bind, Except.bind]
      by_cases hcaptures : Completion.captures ⟨some name, handle⟩ = true
      · have hhandle := ((captures_some_iff name handle).1 hcaptures).1
        rw [if_pos hcaptures, if_pos hcaptures, foldlM_complete_of_ne_zero cs hhandle]
        exact iff_of_true rfl ⟨Option.some_ne_none name, .inl hcaptures⟩
      · rw [if_neg hcaptures, if_neg hcaptures, ih (returned ++ [handle])]
        constructor
        · intro hnamed
          exact ⟨Option.some_ne_none name, .inr hnamed⟩
        · intro hnamed
          exact hnamed.2.resolve_left hcaptures

/-- **The hooks hand every handle through without a fault and capture the first handle of the library
exactly if no call with a null name completes before it.** -/
theorem calls_transparent_iff (calls : Calls) :
    calls.run ⟨0, []⟩ =
        .ok ((), ⟨captured calls.completions, calls.completions.map Completion.handle⟩) ↔
      NamedUntilCaptured calls.completions := by
  rw [← foldlM_complete_iff calls.completions [], run_eq]
  rcases calls.completions.foldlM complete ⟨0, []⟩ with fault | s
  · simp [Except.map]
  · simp [Except.map]

def mainProgramFirst : Calls := call .loaderDlopen ⟨none, 0, 0, 0⟩ done 16 done

theorem mainProgramFirst_faults :
    mainProgramFirst.run ⟨0, []⟩ = .error .nullString ∧
      ¬ mainProgramFirst.run ⟨0, []⟩ = .ok ((), ⟨captured mainProgramFirst.completions,
        mainProgramFirst.completions.map Completion.handle⟩) := by
  have hfault : mainProgramFirst.run ⟨0, []⟩ = .error .nullString := rfl
  refine ⟨hfault, fun hok => ?_⟩
  rw [hfault] at hok
  cases hok

end Calls

end Il2CppDumper
