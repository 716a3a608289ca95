import Il2CppDumper.Clib.FileStream
import Il2CppDumper.Model.Dump
import Il2CppDumper.Model.Maps

/-!
# `il2cpp_dump`

From the handle to `dump.cs`: the base address, the list of images, one text for every class, and the
file. The classes come from `il2cpp_image_get_class` or, where that does not exist, from the managed
`Assembly.Load` and `Assembly.GetTypes`; without these, and without
`il2cpp_domain_get_assemblies`, the function returns before it opens the file.
-/

namespace Il2CppDumper

open Clib

/-- The process around the dumper: what `dlsym` finds under a handle, the base address that `dladdr`
reports, if it succeeds, and what `get_module_base` depends on. -/
structure Process (H : Handles) where
  dlsym : UInt64 → Il2cppApi H
  dladdr : Option UInt64
  maps : Option Text
  aarch64 : Bool
  flags : Text

/-- What `il2cpp_dump` leaves: the messages it logs (addresses apart), and the path of the file it
opens with what the file then holds. -/
structure Outcome where
  log : List Text
  file : Option (Text × Option Text)
  deriving DecidableEq

/-! ### The base address -/

section base
variable {H : Handles} (process : Process H)

def Process.il2cppBase : UInt64 :=
  match process.dladdr with
  | some fbase => fbase
  | none => getModuleBase process.aarch64 process.flags process.maps "libil2cpp.so"

def Process.baseLog : List Text :=
  (if process.dladdr = none then (["dladdr error, using get_module_base."] : List Text) else []) ++
    ["il2cpp_base: " ++ numeral .hex process.il2cppBase.toNat, "dumping..."]

end base

/-! ### The outputs -/

variable {H : Handles} (il2cpp : Il2cppApi H) (il2cppBase : UInt64)

/-- `imageOutput`. -/
def imageList (assemblies : List H.Il2CppAssembly) : OStringStream :=
  assemblies.zipIdx.foldl (fun imageOutput (assembly, i) =>
    let image := il2cpp.assemblyGetImage assembly
    ((((imageOutput.put "// Image ").putNat i).put ": ").put (il2cpp.imageGetName image)).put "\n")
    .empty

/-- `imageStr`. -/
def imageStr (image : H.Il2CppImage) : OStringStream :=
  (OStringStream.empty.put "\n// Dll : ").put (il2cpp.imageGetName image)

/-- The body of both loops over classes. -/
def classOutPut (image : H.Il2CppImage) (klass : H.Il2CppClass) : Except Fault Text := do
  let type := il2cpp.classGetType klass
  return (imageStr il2cpp image).str ++ (← dumpType il2cpp il2cppBase type)

/-- The classes of an image by `il2cpp_image_get_class`. -/
def imageOutPuts (imageGetClass : H.Il2CppImage → Nat → H.Il2CppClass)
    (assembly : H.Il2CppAssembly) : Except Fault (List Text) := do
  let image := il2cpp.assemblyGetImage assembly
  let imageGetClassCount ← call il2cpp.imageGetClassCount
  (List.range (imageGetClassCount image)).mapM fun j =>
    classOutPut il2cpp il2cppBase image (imageGetClass image j)

/-- The image name up to its last dot, or all of it without a dot. -/
def imageNameNoExt (imageName : Text) : Text :=
  if '.' ∈ imageName then ((imageName.reverse.dropWhile (· ≠ '.')).drop 1).reverse else imageName

/-- A method of `System.Reflection.Assembly`. -/
def assemblyMethod (name : Text) (argsCount : Nat) : Option H.MethodInfo :=
  let assemblyClass := il2cpp.classFromName il2cpp.getCorlib "System.Reflection" "Assembly"
  il2cpp.classGetMethodFromName assemblyClass name argsCount

/-- The method pointer of a method that is found and has one. -/
def methodPointer (method : Option H.MethodInfo) : Option UInt64 :=
  match method with
  | some method =>
    if il2cpp.methodPointer method ≠ 0 then some (il2cpp.methodPointer method) else none
  | none => none

/-- A call of managed code through a method pointer. -/
def callPointer {α : Type} (pointer : UInt64) (code : UInt64 → α) : Except Fault α :=
  if pointer = 0 then .error .nullCall else .ok (code pointer)

/-- A method pointer is called only where it is not null. -/
theorem callPointer_methodPointer {method : Option H.MethodInfo} {pointer : UInt64}
    (h : methodPointer il2cpp method = some pointer) {α : Type} (code : UInt64 → α) :
    callPointer pointer code = .ok (code pointer) := by
  refine if_neg ?_
  cases method with
  | none => cases h
  | some method =>
    simp only [methodPointer] at h
    split_ifs at h with hne
    rw [← Option.some.inj h]
    exact hne

/-- The classes of an image by reflection. -/
def reflectionOutPuts (assemblyLoad assemblyGetTypes : UInt64) (assembly : H.Il2CppAssembly) :
    Except Fault (List Text) := do
  let image := il2cpp.assemblyGetImage assembly
  let assemblyFileName := il2cpp.stringNew (imageNameNoExt (il2cpp.imageGetName image))
  let reflectionAssembly := (← callPointer assemblyLoad il2cpp.assemblyLoad) assemblyFileName
  let reflectionTypes := (← callPointer assemblyGetTypes il2cpp.assemblyGetTypes) reflectionAssembly
  (List.range reflectionTypes.maxLength).mapM fun j =>
    classOutPut il2cpp il2cppBase image (il2cpp.classFromSystemType (reflectionTypes.vector j))

/-- The end of `il2cpp_dump`: the file is written and nobody asks how that went. -/
def writeDump (device : Device) (outDir : Option Text) (log : List Text) (imageOutput : Text)
    (outPuts : List Text) : Except Fault Outcome := do
  let outPath := (← cstr outDir) ++ "/files/dump.cs"
  return ⟨log ++ (["write dump file", "dump done!"] : List Text),
    some (outPath, fileContent device (imageOutput :: outPuts))⟩

def il2cppDump (process : Process H) (device : Device) (handle : UInt64) (outDir : Option Text) :
    Except Fault Outcome := do
  let il2cpp := process.dlsym handle
  match il2cpp.domainGetAssemblies with
  | none => return ⟨["Failed to initialize il2cpp api."], none⟩
  | some domainGetAssemblies =>
    let il2cppBase := process.il2cppBase
    let assemblies := domainGetAssemblies il2cpp.domainGet
    let imageOutput := (imageList il2cpp assemblies).str
    match il2cpp.imageGetClass with
    | some imageGetClass =>
      let log := process.baseLog ++ [("Version greater than 2018.3" : Text)]
      let outPuts ← assemblies.mapM (imageOutPuts il2cpp il2cppBase imageGetClass)
      writeDump device outDir log imageOutput outPuts.flatten
    | none =>
      let log := process.baseLog ++ [("Version less than 2018.3" : Text)]
      match methodPointer il2cpp (assemblyMethod il2cpp "Load" 1) with
      | none => return ⟨log ++ [("miss Assembly::Load" : Text)], none⟩
      | some assemblyLoad =>
        match methodPointer il2cpp (assemblyMethod il2cpp "GetTypes" 0) with
        | none => return ⟨log ++ [("miss Assembly::GetTypes" : Text)], none⟩
        | some assemblyGetTypes =>
          let outPuts ← assemblies.mapM
            (reflectionOutPuts il2cpp il2cppBase assemblyLoad assemblyGetTypes)
          writeDump device outDir log imageOutput outPuts.flatten

/-- A process in which every handle gives the same runtime, at base address 0. -/
def processOf (il2cpp : Il2cppApi H) : Process H :=
  { dlsym := fun _ => il2cpp, dladdr := some 0, maps := none, aarch64 := false, flags := [] }

/-! ### The two branches -/

/-- The file that a run of `il2cpp_dump` leaves. -/
def dumpedFile (run : Except Fault Outcome) : Except Fault (Option (Text × Option Text)) :=
  run.map Outcome.file

/-- The file does not depend on the log. -/
theorem dumpedFile_writeDump (device : Device) (outDir : Option Text) (log : List Text)
    (imageOutput : Text) (outPuts : List Text) :
    dumpedFile (writeDump device outDir log imageOutput outPuts) =
      (cstr outDir).map fun outDir : Text =>
        some (outDir ++ "/files/dump.cs", fileContent device (imageOutput :: outPuts)) := by
  cases outDir with
  | none => rfl
  | some outDir =>
    simp only [writeDump, cstr, bind, Except.bind, pure, Except.pure, dumpedFile, Except.map]

section branches
variable {il2cpp} {process : Process H} {handle : UInt64} (hil2cpp : process.dlsym handle = il2cpp)
  {domainGetAssemblies : H.Il2CppDomain → List H.Il2CppAssembly}
  (hassemblies : il2cpp.domainGetAssemblies = some domainGetAssemblies)
  (device : Device) (outDir : Option Text)
include hil2cpp hassemblies

theorem il2cppDump_getClass {imageGetClass : H.Il2CppImage → Nat → H.Il2CppClass}
    (hclass : il2cpp.imageGetClass = some imageGetClass) :
    il2cppDump process device handle outDir =
      ((domainGetAssemblies il2cpp.domainGet).mapM
        (imageOutPuts il2cpp process.il2cppBase imageGetClass)).bind fun outPuts =>
      writeDump device outDir (process.baseLog ++ [("Version greater than 2018.3" : Text)])
        (imageList il2cpp (domainGetAssemblies il2cpp.domainGet)).str outPuts.flatten := by
  simp only [il2cppDump, hil2cpp, hassemblies, hclass]
  rfl

theorem il2cppDump_reflection (hclass : il2cpp.imageGetClass = none)
    {assemblyLoad assemblyGetTypes : UInt64}
    (hload : methodPointer il2cpp (assemblyMethod il2cpp "Load" 1) = some assemblyLoad)
    (htypes : methodPointer il2cpp (assemblyMethod il2cpp "GetTypes" 0) = some assemblyGetTypes) :
    il2cppDump process device handle outDir =
      ((domainGetAssemblies il2cpp.domainGet).mapM
        (reflectionOutPuts il2cpp process.il2cppBase assemblyLoad
          assemblyGetTypes)).bind fun outPuts =>
      writeDump device outDir (process.baseLog ++ [("Version less than 2018.3" : Text)])
        (imageList il2cpp (domainGetAssemblies il2cpp.domainGet)).str outPuts.flatten := by
  simp only [il2cppDump, hil2cpp, hassemblies, hclass, hload, htypes]
  rfl

end branches

end Il2CppDumper
