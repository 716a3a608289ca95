import Il2CppDumper.Clib.Loop
import Il2CppDumper.Model.Driver

/-!
# Before and after the file is opened

`il2cpp_dump` first gathers all texts and then writes them (`il2cppDump_eq`). The device and the
directory have no part in the gathering, and the runs that return earlier do not open the file.

Both branches gather in the same way: the classes of every assembly, one after the other, and a block for
each (`gather_eq`).
-/

namespace Il2CppDumper

open Clib

variable {H : Handles}

/-! ### Gathering -/

/-- The messages before the file is opened, and the image list and the other texts that are written to
it, unless the function returns. -/
def gather (process : Process H) (handle : UInt64) :
    Except Fault (List Text × Option (Text × List Text)) := do
  let il2cpp := process.dlsym handle
  match il2cpp.domainGetAssemblies with
  | none => return (["Failed to initialize il2cpp api."], none)
  | some domainGetAssemblies =>
    let assemblies := domainGetAssemblies il2cpp.domainGet
    let imageOutput := (imageList il2cpp assemblies).str
    match il2cpp.imageGetClass with
    | some imageGetClass =>
      let outPuts ← assemblies.mapM (imageOutPuts il2cpp process.il2cppBase imageGetClass)
      return (process.baseLog ++ [("Version greater than 2018.3" : Text)],
        some (imageOutput, outPuts.flatten))
    | none =>
      let log := process.baseLog ++ [("Version less than 2018.3" : Text)]
      match methodPointer il2cpp (assemblyMethod il2cpp "Load" 1) with
      | none => return (log ++ [("miss Assembly::Load" : Text)], none)
      | some assemblyLoad =>
        match methodPointer il2cpp (assemblyMethod il2cpp "GetTypes" 0) with
        | none => return (log ++ [("miss Assembly::GetTypes" : Text)], none)
        | some assemblyGetTypes =>
          let outPuts ← assemblies.mapM
            (reflectionOutPuts il2cpp process.il2cppBase assemblyLoad assemblyGetTypes)
          return (log, some (imageOutput, outPuts.flatten))

theorem il2cppDump_eq (process : Process H) (device : Device) (handle : UInt64)
    (outDir : Option Text) :
    il2cppDump process device handle outDir =
      (gather process handle).bind fun (log, outputs) =>
        match outputs with
        | none => .ok ⟨log, none⟩
        | some (imageOutput, outPuts) => writeDump device outDir log imageOutput outPuts := by
  rw [il2cppDump, gather]
  cases (process.dlsym handle).domainGetAssemblies with
  | none => rfl
  | some domainGetAssemblies =>
    cases (process.dlsym handle).imageGetClass with
    | some imageGetClass =>
      simp only
      cases (domainGetAssemblies (process.dlsym handle).domainGet).mapM
        (imageOutPuts (process.dlsym handle) process.il2cppBase imageGetClass) <;> rfl
    | none =>
      simp only
      cases methodPointer (process.dlsym handle) (assemblyMethod (process.dlsym handle) "Load" 1) with
      | none => rfl
      | some assemblyLoad =>
        simp only
        cases methodPointer (process.dlsym handle)
            (assemblyMethod (process.dlsym handle) "GetTypes" 0) with
        | none => rfl
        | some assemblyGetTypes =>
          simp only
          cases (domainGetAssemblies (process.dlsym handle).domainGet).mapM
            (reflectionOutPuts (process.dlsym handle) process.il2cppBase assemblyLoad
              assemblyGetTypes) <;> rfl

/-! ### The classes -/

section classes
variable (il2cpp : Il2cppApi H)

/-- The classes of an assembly by `il2cpp_image_get_class`. -/
def countedClasses (imageGetClassCount : H.Il2CppImage → Nat)
    (imageGetClass : H.Il2CppImage → Nat → H.Il2CppClass) (assembly : H.Il2CppAssembly) :
    List H.Il2CppClass :=
  let image := il2cpp.assemblyGetImage assembly
  (List.range (imageGetClassCount image)).map (imageGetClass image)

/-- The classes of an assembly by reflection. -/
def reflectedClasses (assemblyLoad assemblyGetTypes : UInt64) (assembly : H.Il2CppAssembly) :
    List H.Il2CppClass :=
  let name := il2cpp.imageGetName (il2cpp.assemblyGetImage assembly)
  let types := il2cpp.assemblyGetTypes assemblyGetTypes
    (il2cpp.assemblyLoad assemblyLoad (il2cpp.stringNew (imageNameNoExt name)))
  (List.range types.maxLength).map fun j => il2cpp.classFromSystemType (types.vector j)

/-- How the branch that is taken enumerates the classes of an assembly, if its functions exist. -/
def classesOf : Option (H.Il2CppAssembly → List H.Il2CppClass) :=
  match il2cpp.imageGetClass with
  | some imageGetClass =>
    il2cpp.imageGetClassCount.map fun imageGetClassCount =>
      countedClasses il2cpp imageGetClassCount imageGetClass
  | none =>
    match methodPointer il2cpp (assemblyMethod il2cpp "Load" 1),
      methodPointer il2cpp (assemblyMethod il2cpp "GetTypes" 0) with
    | some assemblyLoad, some assemblyGetTypes =>
      some (reflectedClasses il2cpp assemblyLoad assemblyGetTypes)
    | _, _ => none

/-- All assemblies of the domain. -/
def allAssemblies : List H.Il2CppAssembly :=
  match il2cpp.domainGetAssemblies with
  | some domainGetAssemblies => domainGetAssemblies il2cpp.domainGet
  | none => []

/-- The classes of all assemblies, each with its assembly. -/
def allClasses : List (H.Il2CppAssembly × H.Il2CppClass) :=
  match classesOf il2cpp with
  | some classes =>
    (allAssemblies il2cpp).flatMap fun assembly => (classes assembly).map (Prod.mk assembly)
  | none => []

/-- The block of a class. -/
def classBlock (il2cppBase : UInt64) (x : H.Il2CppAssembly × H.Il2CppClass) : Except Fault Text :=
  classOutPut il2cpp il2cppBase (il2cpp.assemblyGetImage x.1) x.2

/-- The function returns without a file: it cannot get the assemblies, or there is no way to get the
classes. -/
def ReturnsEarly : Prop :=
  il2cpp.domainGetAssemblies = none ∨
    il2cpp.imageGetClass = none ∧
      (methodPointer il2cpp (assemblyMethod il2cpp "Load" 1) = none ∨
        methodPointer il2cpp (assemblyMethod il2cpp "GetTypes" 0) = none)

variable {il2cpp} (il2cppBase : UInt64)

theorem imageOutPuts_eq {imageGetClassCount : H.Il2CppImage → Nat}
    (hcount : il2cpp.imageGetClassCount = some imageGetClassCount)
    (imageGetClass : H.Il2CppImage → Nat → H.Il2CppClass) (assembly : H.Il2CppAssembly) :
    imageOutPuts il2cpp il2cppBase imageGetClass assembly =
      (countedClasses il2cpp imageGetClassCount imageGetClass assembly).mapM
        (classOutPut il2cpp il2cppBase (il2cpp.assemblyGetImage assembly)) := by
  simp only [imageOutPuts, hcount, call, bind, Except.bind, countedClasses, List.mapM_map]
  rfl

theorem reflectionOutPuts_eq {assemblyLoad assemblyGetTypes : UInt64}
    (hload : methodPointer il2cpp (assemblyMethod il2cpp "Load" 1) = some assemblyLoad)
    (htypes : methodPointer il2cpp (assemblyMethod il2cpp "GetTypes" 0) = some assemblyGetTypes)
    (assembly : H.Il2CppAssembly) :
    reflectionOutPuts il2cpp il2cppBase assemblyLoad assemblyGetTypes assembly =
      (reflectedClasses il2cpp assemblyLoad assemblyGetTypes assembly).mapM
        (classOutPut il2cpp il2cppBase (il2cpp.assemblyGetImage assembly)) := by
  simp only [reflectionOutPuts, callPointer_methodPointer il2cpp hload,
    callPointer_methodPointer il2cpp htypes, bind, Except.bind, reflectedClasses, List.mapM_map]
  rfl

/-- The blocks of all assemblies, in one list. -/
theorem flatten_outPuts {classes : H.Il2CppAssembly → List H.Il2CppClass}
    (hclasses : classesOf il2cpp = some classes) :
    List.flatten <$> (allAssemblies il2cpp).mapM (fun assembly => (classes assembly).mapM
        (classOutPut il2cpp il2cppBase (il2cpp.assemblyGetImage assembly))) =
      (allClasses il2cpp).mapM (classBlock il2cpp il2cppBase) := by
  rw [allClasses, hclasses]
  exact map_flatten_mapM _ _ _

end classes

section gather
variable {process : Process H} {handle : UInt64} {il2cpp : Il2cppApi H}
  (hil2cpp : process.dlsym handle = il2cpp)
include hil2cpp

theorem gather_of_returnsEarly (hearly : ReturnsEarly il2cpp) :
    ∃ log, gather process handle = .ok (log, none) := by
  rcases hassemblies : il2cpp.domainGetAssemblies with - | domainGetAssemblies
  · exact ⟨_, by simp only [gather, hil2cpp, hassemblies]; rfl⟩
  obtain hnone | ⟨hclass, hmissing⟩ := hearly
  · rw [hassemblies] at hnone
    cases hnone
  rcases hload : methodPointer il2cpp (assemblyMethod il2cpp "Load" 1) with - | assemblyLoad
  · exact ⟨_, by simp only [gather, hil2cpp, hassemblies, hclass, hload]; rfl⟩
  obtain hnone | htypes := hmissing
  · rw [hload] at hnone
    cases hnone
  · exact ⟨_, by simp only [gather, hil2cpp, hassemblies, hclass, hload, htypes]; rfl⟩

/-- The texts are the image list and one block for every class. -/
theorem gather_eq (hcount : il2cpp.imageGetClassCount = none → il2cpp.imageGetClass = none)
    (hgoes : ¬ReturnsEarly il2cpp) :
    ∃ log, gather process handle =
      ((allClasses il2cpp).mapM (classBlock il2cpp process.il2cppBase)).map fun outPuts =>
        (log, some ((imageList il2cpp (allAssemblies il2cpp)).str, outPuts)) := by
  rcases hassemblies : il2cpp.domainGetAssemblies with - | domainGetAssemblies
  · exact absurd (.inl hassemblies) hgoes
  have hall : allAssemblies il2cpp = domainGetAssemblies il2cpp.domainGet := by
    rw [allAssemblies, hassemblies]
  rcases hclass : il2cpp.imageGetClass with - | imageGetClass
  · -- both methods are found, and have a pointer
    rcases hload : methodPointer il2cpp (assemblyMethod il2cpp "Load" 1) with - | assemblyLoad
    · exact absurd (.inr ⟨hclass, .inl hload⟩) hgoes
    rcases htypes : methodPointer il2cpp (assemblyMethod il2cpp "GetTypes" 0) with
      - | assemblyGetTypes
    · exact absurd (.inr ⟨hclass, .inr htypes⟩) hgoes
    have hclasses : classesOf il2cpp = some (reflectedClasses il2cpp assemblyLoad assemblyGetTypes) := by
      rw [classesOf, hclass, hload, htypes]
    refine ⟨process.baseLog ++ [("Version less than 2018.3" : Text)], ?_⟩
    rw [← flatten_outPuts _ hclasses, ← funext (reflectionOutPuts_eq process.il2cppBase hload htypes),
      hall]
    simp only [gather, hil2cpp, hassemblies, hclass, hload, htypes]
    cases (domainGetAssemblies il2cpp.domainGet).mapM
      (reflectionOutPuts il2cpp process.il2cppBase assemblyLoad assemblyGetTypes) <;> rfl
  · obtain ⟨imageGetClassCount, hcounts⟩ : ∃ count, il2cpp.imageGetClassCount = some count := by
      refine Option.ne_none_iff_exists'.1 fun hnone => ?_
      rw [hcount hnone] at hclass
      cases hclass
    have hclasses : classesOf il2cpp =
        some (countedClasses il2cpp imageGetClassCount imageGetClass) := by
      rw [classesOf, hclass, hcounts]
      rfl
    refine ⟨process.baseLog ++ [("Version greater than 2018.3" : Text)], ?_⟩
    rw [← flatten_outPuts _ hclasses,
      ← funext (imageOutPuts_eq process.il2cppBase hcounts imageGetClass), hall]
    simp only [gather, hil2cpp, hassemblies, hclass]
    cases (domainGetAssemblies il2cpp.domainGet).mapM
      (imageOutPuts il2cpp process.il2cppBase imageGetClass) <;> rfl

/-- Whatever is missing, a run that gets to the file has the image list and all blocks. -/
theorem gather_ok {log : List Text} {imageOutput : Text} {outPuts : List Text}
    (h : gather process handle = .ok (log, some (imageOutput, outPuts))) :
    imageOutput = (imageList il2cpp (allAssemblies il2cpp)).str ∧
      List.Forall₂ (fun x block => classBlock il2cpp process.il2cppBase x = .ok block)
        (allClasses il2cpp) outPuts := by
  by_cases hcount : il2cpp.imageGetClassCount = none → il2cpp.imageGetClass = none
  · by_cases hearly : ReturnsEarly il2cpp
    · obtain ⟨log', hgather⟩ := gather_of_returnsEarly hil2cpp hearly
      rw [hgather] at h
      cases h
    · obtain ⟨log', hgather⟩ := gather_eq hil2cpp hcount hearly
      rw [hgather] at h
      cases hloop : (allClasses il2cpp).mapM (classBlock il2cpp process.il2cppBase) with
      | error fault =>
        rw [hloop] at h
        cases h
      | ok blocks =>
        rw [hloop] at h
        cases h
        exact ⟨rfl, forall₂_of_mapM hloop⟩
  · -- the first assembly would be a call through a null pointer
    obtain ⟨hnone, hsome⟩ := Classical.not_imp.1 hcount
    obtain ⟨imageGetClass, hclass⟩ := Option.ne_none_iff_exists'.1 hsome
    have hclasses : allClasses il2cpp = [] := by
      rw [allClasses, classesOf, hclass, hnone]
      rfl
    rcases hassemblies : il2cpp.domainGetAssemblies with - | domainGetAssemblies
    · simp only [gather, hil2cpp, hassemblies] at h
      cases h
    have hall : allAssemblies il2cpp = domainGetAssemblies il2cpp.domainGet := by
      rw [allAssemblies, hassemblies]
    simp only [gather, hil2cpp, hassemblies, hclass] at h
    rw [hclasses, hall]
    rcases hlist : domainGetAssemblies il2cpp.domainGet with - | ⟨assembly, assemblies⟩
    · rw [hlist] at h
      cases h
      exact ⟨rfl, .nil⟩
    · have hfault : imageOutPuts il2cpp process.il2cppBase imageGetClass assembly =
          .error .nullCall := by
        simp only [imageOutPuts, hnone]
        rfl
      rw [hlist, List.mapM_cons, hfault] at h
      cases h

end gather

end Il2CppDumper
