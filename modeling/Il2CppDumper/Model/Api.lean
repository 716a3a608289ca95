import Il2CppDumper.Clib.Text

/-!
# The il2cpp runtime

The functions of `il2cpp-api-functions.h` that the dumper calls, as the library under the handle
provides them. The runtime is not part of the dumper: its pointer types stay abstract (`Handles`), a
function is any function of its arguments, an iterator is the list of what it delivers before null,
and the structures of `il2cpp-class.h` are read through a pointer. A pointer the dumper tests for
null is an `Option`.

Four of the functions do not exist in every Unity version; `dlsym` leaves them null, and a call
through a null pointer is a fault.
-/

namespace Il2CppDumper

open Clib

/-- What ends the process. -/
inductive Fault where
  /-- A call through a null function pointer. -/
  | nullCall
  /-- A null pointer where a string is read. -/
  | nullString
  deriving DecidableEq, Repr

/-- A call through a pointer that `dlsym` filled. -/
def call {α : Type} (function : Option α) : Except Fault α :=
  match function with
  | some f => .ok f
  | none => .error .nullCall

/-- A `const char *` where a string is needed. -/
def cstr (s : Option Text) : Except Fault Text :=
  match s with
  | some t => .ok t
  | none => .error .nullString

/-- The runtime's pointer types. -/
structure Handles where
  Il2CppDomain : Type
  Il2CppAssembly : Type
  Il2CppImage : Type
  Il2CppClass : Type
  Il2CppType : Type
  FieldInfo : Type
  PropertyInfo : Type
  MethodInfo : Type
  Il2CppString : Type
  Il2CppReflectionAssembly : Type
  Il2CppReflectionType : Type

/-- A managed array: its length and the elements in memory from `vector` on, which is declared with
32 slots and reaches as far as the array does. -/
structure Il2CppArray (H : Handles) where
  maxLength : Nat
  vector : Nat → H.Il2CppReflectionType

structure Il2cppApi (H : Handles) where
  /- The functions that may be missing. -/
  domainGetAssemblies : Option (H.Il2CppDomain → List H.Il2CppAssembly)
  imageGetClassCount : Option (H.Il2CppImage → Nat)
  imageGetClass : Option (H.Il2CppImage → Nat → H.Il2CppClass)
  typeIsByref : Option (H.Il2CppType → Bool)
  /- Domain, assemblies and images. -/
  domainGet : H.Il2CppDomain
  assemblyGetImage : H.Il2CppAssembly → H.Il2CppImage
  imageGetName : H.Il2CppImage → Text
  getCorlib : H.Il2CppImage
  /- Classes. -/
  classFromType : H.Il2CppType → H.Il2CppClass
  classFromName : H.Il2CppImage → Text → Text → H.Il2CppClass
  classFromSystemType : H.Il2CppReflectionType → H.Il2CppClass
  classGetType : H.Il2CppClass → H.Il2CppType
  classGetName : H.Il2CppClass → Text
  classGetNamespace : H.Il2CppClass → Text
  classGetFlags : H.Il2CppClass → UInt32
  classIsValuetype : H.Il2CppClass → Bool
  classIsEnum : H.Il2CppClass → Bool
  classGetParent : H.Il2CppClass → Option H.Il2CppClass
  classGetInterfaces : H.Il2CppClass → List H.Il2CppClass
  classGetFields : H.Il2CppClass → List H.FieldInfo
  classGetProperties : H.Il2CppClass → List H.PropertyInfo
  classGetMethods : H.Il2CppClass → List H.MethodInfo
  classGetMethodFromName : H.Il2CppClass → Text → Nat → Option H.MethodInfo
  /- Fields; `fieldStaticGetValue` gives the bytes it stores at the address it is given. -/
  fieldGetFlags : H.FieldInfo → UInt32
  fieldGetName : H.FieldInfo → Text
  fieldGetType : H.FieldInfo → H.Il2CppType
  fieldGetOffset : H.FieldInfo → UInt64
  fieldStaticGetValue : H.FieldInfo → List UInt8
  /- Properties. -/
  propertyGetGetMethod : H.PropertyInfo → Option H.MethodInfo
  propertyGetSetMethod : H.PropertyInfo → Option H.MethodInfo
  propertyGetName : H.PropertyInfo → Option Text
  /- Methods. -/
  methodGetFlags : H.MethodInfo → UInt32
  methodGetName : H.MethodInfo → Text
  methodGetReturnType : H.MethodInfo → H.Il2CppType
  methodGetParamCount : H.MethodInfo → Nat
  methodGetParam : H.MethodInfo → Nat → H.Il2CppType
  methodGetParamName : H.MethodInfo → Nat → Text
  /- Strings, and the managed code behind `Assembly.Load` and `Assembly.GetTypes`. -/
  stringNew : Text → H.Il2CppString
  assemblyLoad : UInt64 → H.Il2CppString → H.Il2CppReflectionAssembly
  assemblyGetTypes : UInt64 → H.Il2CppReflectionAssembly → Il2CppArray H
  /- Members read through a pointer: `method->methodPointer`, `type->attrs`, `type->type` and
  `type->byref`. -/
  methodPointer : H.MethodInfo → UInt64
  attrs : H.Il2CppType → UInt16
  type : H.Il2CppType → UInt8
  byref : H.Il2CppType → Bool

/-! ### A runtime of numbered objects -/

/-- Every pointer is a number. -/
abbrev Handles.numbered : Handles where
  Il2CppDomain := Nat
  Il2CppAssembly := Nat
  Il2CppImage := Nat
  Il2CppClass := Nat
  Il2CppType := Nat
  FieldInfo := Nat
  PropertyInfo := Nat
  MethodInfo := Nat
  Il2CppString := Text
  Il2CppReflectionAssembly := Nat
  Il2CppReflectionType := Nat

/-- A runtime in which nothing is loaded: a class and its type have the same number, and there are
no assemblies and no members. -/
def Il2cppApi.blank : Il2cppApi .numbered where
  domainGetAssemblies := some fun _ => []
  imageGetClassCount := some fun _ => 0
  imageGetClass := some fun _ j => j
  typeIsByref := none
  domainGet := 0
  assemblyGetImage := id
  imageGetName _ := "mscorlib.dll"
  getCorlib := 0
  classFromType := id
  classFromName _ _ _ := 0
  classFromSystemType := id
  classGetType := id
  classGetName _ := "C"
  classGetNamespace _ := []
  classGetFlags _ := 0
  classIsValuetype _ := false
  classIsEnum _ := false
  classGetParent _ := none
  classGetInterfaces _ := []
  classGetFields _ := []
  classGetProperties _ := []
  classGetMethods _ := []
  classGetMethodFromName _ _ _ := none
  fieldGetFlags _ := 0
  fieldGetName _ := "f"
  fieldGetType := id
  fieldGetOffset _ := 0
  fieldStaticGetValue _ := []
  propertyGetGetMethod _ := none
  propertyGetSetMethod _ := none
  propertyGetName _ := some "P"
  methodGetFlags _ := 0
  methodGetName _ := "M"
  methodGetReturnType := id
  methodGetParamCount _ := 0
  methodGetParam _ i := i
  methodGetParamName _ _ := "p"
  stringNew := id
  assemblyLoad _ _ := 0
  assemblyGetTypes _ _ := ⟨0, id⟩
  methodPointer _ := 0
  attrs _ := 0
  type _ := 0
  byref _ := false

end Il2CppDumper
