import Il2CppDumper.Clib.Loop
import Il2CppDumper.Model.Driver

/-!
# The two ways to enumerate classes

With `il2cpp_image_get_class` the classes are counted off; without it they come from the array that the
managed `Assembly.GetTypes` returns for the assembly that `Assembly.Load` finds under the image name
without its extension. Where the runtime gives the same classes both ways, the two files are the same,
on every device and also where a dump function faults (`reflection_file_eq`).
-/

namespace Il2CppDumper

open Clib

/-- Cutting the extension restores the assembly name, dots and all. -/
theorem imageNameNoExt_dll (name : Text) : imageNameNoExt (name ++ ".dll") = name := by
  have hmem : '.' ∈ name ++ ".dll".toList := by simp
  have hdrop := dropWhile_ne_append (l := "lld".toList) (x := '.') (by decide) name.reverse
  have hreverse : (name ++ ".dll".toList).reverse = "lld".toList ++ '.' :: name.reverse := by
    rw [List.reverse_append]
    rfl
  rw [imageNameNoExt, if_pos hmem, hreverse, hdrop, List.drop_succ_cons, List.drop_zero,
    List.reverse_reverse]

variable {H : Handles}

/-- The runtime of an old Unity version: `il2cpp_image_get_class` does not exist, and
`il2cpp_image_get_class_count` need not. -/
def Il2cppApi.withoutGetClass (il2cpp : Il2cppApi H)
    (imageGetClassCount : Option (H.Il2CppImage → Nat)) : Il2cppApi H :=
  { il2cpp with imageGetClassCount, imageGetClass := none }

theorem dumpType_withoutGetClass (il2cpp : Il2cppApi H) (count : Option (H.Il2CppImage → Nat))
    (il2cppBase : UInt64) (type : H.Il2CppType) :
    dumpType (il2cpp.withoutGetClass count) il2cppBase type = dumpType il2cpp il2cppBase type := rfl

theorem imageList_withoutGetClass (il2cpp : Il2cppApi H) (count : Option (H.Il2CppImage → Nat))
    (assemblies : List H.Il2CppAssembly) :
    imageList (il2cpp.withoutGetClass count) assemblies = imageList il2cpp assemblies := rfl

/-- The runtime gives the classes of an assembly both ways: `Assembly.Load` finds it under its simple
name as `reflection assembly`, and the elements of the array that `Assembly.GetTypes` returns stand for
the classes that `il2cpp_image_get_class` counts off. -/
structure ReflectsClasses (il2cpp : Il2cppApi H) (imageGetClassCount : H.Il2CppImage → Nat)
    (imageGetClass : H.Il2CppImage → Nat → H.Il2CppClass) (assemblyLoad assemblyGetTypes : UInt64)
    (reflection : H.Il2CppAssembly → H.Il2CppReflectionAssembly) (assembly : H.Il2CppAssembly) :
    Prop where
  loads : ∃ simple, il2cpp.imageGetName (il2cpp.assemblyGetImage assembly) = simple ++ ".dll" ∧
    il2cpp.assemblyLoad assemblyLoad (il2cpp.stringNew simple) = reflection assembly
  length : (il2cpp.assemblyGetTypes assemblyGetTypes (reflection assembly)).maxLength =
    imageGetClassCount (il2cpp.assemblyGetImage assembly)
  classes : ∀ j < imageGetClassCount (il2cpp.assemblyGetImage assembly),
    il2cpp.classFromSystemType
        ((il2cpp.assemblyGetTypes assemblyGetTypes (reflection assembly)).vector j) =
      imageGetClass (il2cpp.assemblyGetImage assembly) j

section outPuts
variable {il2cpp : Il2cppApi H} {imageGetClassCount : H.Il2CppImage → Nat}
  {imageGetClass : H.Il2CppImage → Nat → H.Il2CppClass} {assemblyLoad assemblyGetTypes : UInt64}
  {reflection : H.Il2CppAssembly → H.Il2CppReflectionAssembly} {assembly : H.Il2CppAssembly}

/-- The outputs of one assembly are the same. -/
theorem ReflectsClasses.outPuts_eq
    (h : ReflectsClasses il2cpp imageGetClassCount imageGetClass assemblyLoad assemblyGetTypes
      reflection assembly)
    (hcount : il2cpp.imageGetClassCount = some imageGetClassCount)
    (hload : methodPointer il2cpp (assemblyMethod il2cpp "Load" 1) = some assemblyLoad)
    (htypes : methodPointer il2cpp (assemblyMethod il2cpp "GetTypes" 0) = some assemblyGetTypes)
    (count : Option (H.Il2CppImage → Nat)) (il2cppBase : UInt64) :
    reflectionOutPuts (il2cpp.withoutGetClass count) il2cppBase assemblyLoad assemblyGetTypes
        assembly =
      imageOutPuts il2cpp il2cppBase imageGetClass assembly := by
  obtain ⟨simple, hname, hloads⟩ := h.loads
  have hassembly : (il2cpp.withoutGetClass count).assemblyLoad assemblyLoad
      ((il2cpp.withoutGetClass count).stringNew (imageNameNoExt
        ((il2cpp.withoutGetClass count).imageGetName
          ((il2cpp.withoutGetClass count).assemblyGetImage assembly)))) = reflection assembly := by
    rw [← hloads]
    simp only [Il2cppApi.withoutGetClass, hname, imageNameNoExt_dll]
  simp only [reflectionOutPuts, imageOutPuts, callPointer_methodPointer il2cpp hload,
    callPointer_methodPointer il2cpp htypes, hassembly, hcount, call, bind, Except.bind]
  have hlength : ((il2cpp.withoutGetClass count).assemblyGetTypes assemblyGetTypes
      (reflection assembly)).maxLength = imageGetClassCount (il2cpp.assemblyGetImage assembly) :=
    h.length
  rw [hlength]
  refine mapM_congr_of_mem _ fun j hj => ?_
  have hclass : (il2cpp.withoutGetClass count).classFromSystemType
      (((il2cpp.withoutGetClass count).assemblyGetTypes assemblyGetTypes
        (reflection assembly)).vector j) = imageGetClass (il2cpp.assemblyGetImage assembly) j :=
    h.classes j (List.mem_range.1 hj)
  rw [hclass, classOutPut, dumpType_withoutGetClass]
  rfl

end outPuts

/-- **The reflection branch writes the file that the other branch writes.** -/
theorem reflection_file_eq (process : Process H) (device : Device) (handle : UInt64)
    (outDir : Option Text) (il2cpp : Il2cppApi H) (hil2cpp : process.dlsym handle = il2cpp)
    (domainGetAssemblies : H.Il2CppDomain → List H.Il2CppAssembly)
    (hassemblies : il2cpp.domainGetAssemblies = some domainGetAssemblies)
    (imageGetClassCount : H.Il2CppImage → Nat)
    (hcount : il2cpp.imageGetClassCount = some imageGetClassCount)
    (imageGetClass : H.Il2CppImage → Nat → H.Il2CppClass)
    (hclass : il2cpp.imageGetClass = some imageGetClass)
    (assemblyLoad assemblyGetTypes : UInt64)
    (hload : methodPointer il2cpp (assemblyMethod il2cpp "Load" 1) = some assemblyLoad)
    (htypes : methodPointer il2cpp (assemblyMethod il2cpp "GetTypes" 0) = some assemblyGetTypes)
    (reflection : H.Il2CppAssembly → H.Il2CppReflectionAssembly)
    (hreflects : ∀ assembly ∈ domainGetAssemblies il2cpp.domainGet,
      ReflectsClasses il2cpp imageGetClassCount imageGetClass assemblyLoad assemblyGetTypes
        reflection assembly)
    (count : Option (H.Il2CppImage → Nat)) :
    dumpedFile (il2cppDump { process with dlsym := fun _ => il2cpp.withoutGetClass count } device
        handle outDir) =
      dumpedFile (il2cppDump process device handle outDir) := by
  have houtPuts : (domainGetAssemblies il2cpp.domainGet).mapM
      (reflectionOutPuts (il2cpp.withoutGetClass count) process.il2cppBase assemblyLoad
        assemblyGetTypes) =
      (domainGetAssemblies il2cpp.domainGet).mapM
        (imageOutPuts il2cpp process.il2cppBase imageGetClass) :=
    mapM_congr_of_mem _ fun assembly hassembly =>
      (hreflects assembly hassembly).outPuts_eq hcount hload htypes count _
  have hassemblies' : (il2cpp.withoutGetClass count).domainGetAssemblies =
      some domainGetAssemblies := hassemblies
  have hload' : methodPointer (il2cpp.withoutGetClass count)
      (assemblyMethod (il2cpp.withoutGetClass count) "Load" 1) = some assemblyLoad := hload
  have htypes' : methodPointer (il2cpp.withoutGetClass count)
      (assemblyMethod (il2cpp.withoutGetClass count) "GetTypes" 0) = some assemblyGetTypes := htypes
  have hold := il2cppDump_reflection
    (show { process with dlsym := fun _ => il2cpp.withoutGetClass count }.dlsym handle = _ from rfl)
    hassemblies' device outDir rfl hload' htypes'
  have hnew := il2cppDump_getClass hil2cpp hassemblies device outDir hclass
  have hdomain : (il2cpp.withoutGetClass count).domainGet = il2cpp.domainGet := rfl
  rw [hold, hnew, imageList_withoutGetClass]
  refine (congrArg (fun outPuts => dumpedFile (Except.bind outPuts _)) houtPuts).trans ?_
  rcases (domainGetAssemblies il2cpp.domainGet).mapM
    (imageOutPuts il2cpp process.il2cppBase imageGetClass) with fault | outPuts
  · simp only [Except.bind]
  · simp only [Except.bind, dumpedFile_writeDump, hdomain]

/-- An assembly with two classes and one of a dotted name with three, both ways. -/
def twoImages : Il2cppApi .numbered :=
  { Il2cppApi.blank with
    domainGetAssemblies := some fun _ => [0, 1]
    imageGetClassCount := some fun image => image + 2
    imageGetClass := some fun image j => 10 * image + j
    imageGetName := fun image => if image = 0 then "mscorlib.dll" else "Game.Core.dll"
    classGetMethodFromName := fun _ _ n => some n
    assemblyLoad := fun _ name => if name = "mscorlib".toList then 0 else 1
    assemblyGetTypes := fun _ reflection => ⟨reflection + 2, fun j => 10 * reflection + j⟩
    methodPointer := fun _ => 1 }

theorem reflection_file_twoImages :
    dumpedFile (il2cppDump { processOf twoImages with
        dlsym := fun _ => twoImages.withoutGetClass none } .sound 0 (some "/data/app")) =
      dumpedFile (il2cppDump (processOf twoImages) .sound 0 (some "/data/app")) := by
  refine reflection_file_eq (processOf twoImages) .sound 0 (some "/data/app") twoImages rfl
    (fun _ => [0, 1]) rfl (fun image => image + 2) rfl (fun image j => 10 * image + j) rfl 1 1 rfl rfl
    id (fun assembly hassembly => ?_) none
  rcases List.mem_cons.1 hassembly with rfl | hassembly
  · exact ⟨⟨"mscorlib", rfl, rfl⟩, rfl, fun _ _ => rfl⟩
  · obtain rfl := List.mem_singleton.1 hassembly
    exact ⟨⟨"Game.Core", rfl, by decide⟩, rfl, fun _ _ => rfl⟩

end Il2CppDumper
