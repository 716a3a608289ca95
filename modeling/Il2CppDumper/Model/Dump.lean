import Il2CppDumper.Clib.Bytes
import Il2CppDumper.Clib.StringStream
import Il2CppDumper.Model.Api
import Il2CppDumper.Model.Tabledefs

/-!
# The dump functions

`get_method_modifier`, `dump_method`, `dump_property`, `dump_field` and `dump_type`. Each writes into a
string stream of its own and returns its text. A `while` over an iterator is a fold over what the
iterator delivers, its body the `...Step` function.
-/

namespace Il2CppDumper

open Clib

variable {H : Handles} (il2cpp : Il2cppApi H)

/-! ### Modifiers -/

/-- The `switch (access)` of `get_method_modifier`. -/
def methodAccess (access : UInt32) : Text :=
  if access = METHOD_ATTRIBUTE_PRIVATE then "private "
  else if access = METHOD_ATTRIBUTE_PUBLIC then "public "
  else if access = METHOD_ATTRIBUTE_FAMILY then "protected "
  else if access = METHOD_ATTRIBUTE_ASSEM ∨ access = METHOD_ATTRIBUTE_FAM_AND_ASSEM then "internal "
  else if access = METHOD_ATTRIBUTE_FAM_OR_ASSEM then "protected internal "
  else ""

def getMethodModifier (flags : UInt32) : Text :=
  let outPut := OStringStream.empty
  let outPut := outPut.put (methodAccess (flags &&& METHOD_ATTRIBUTE_MEMBER_ACCESS_MASK))
  let outPut := outPut.putIf (flags &&& METHOD_ATTRIBUTE_STATIC ≠ 0) "static "
  let layout := flags &&& METHOD_ATTRIBUTE_VTABLE_LAYOUT_MASK
  let outPut :=
    if flags &&& METHOD_ATTRIBUTE_ABSTRACT ≠ 0 then
      (outPut.put "abstract ").putIf (layout = METHOD_ATTRIBUTE_REUSE_SLOT) "override "
    else if flags &&& METHOD_ATTRIBUTE_FINAL ≠ 0 then
      outPut.putIf (layout = METHOD_ATTRIBUTE_REUSE_SLOT) "sealed override "
    else if flags &&& METHOD_ATTRIBUTE_VIRTUAL ≠ 0 then
      if layout = METHOD_ATTRIBUTE_NEW_SLOT then outPut.put "virtual " else outPut.put "override "
    else outPut
  let outPut := outPut.putIf (flags &&& METHOD_ATTRIBUTE_PINVOKE_IMPL ≠ 0) "extern "
  outPut.str

/-- The `switch (access)` of `dump_field`. -/
def fieldAccess (access : UInt32) : Text :=
  if access = FIELD_ATTRIBUTE_PRIVATE then "private "
  else if access = FIELD_ATTRIBUTE_PUBLIC then "public "
  else if access = FIELD_ATTRIBUTE_FAMILY then "protected "
  else if access = FIELD_ATTRIBUTE_ASSEMBLY ∨ access = FIELD_ATTRIBUTE_FAM_AND_ASSEM then "internal "
  else if access = FIELD_ATTRIBUTE_FAM_OR_ASSEM then "protected internal "
  else ""

/-- What `dump_field` writes before a field's type. -/
def fieldModifier (attrs : UInt32) : Text :=
  let outPut := OStringStream.empty
  let outPut := outPut.put (fieldAccess (attrs &&& FIELD_ATTRIBUTE_FIELD_ACCESS_MASK))
  let outPut :=
    if attrs &&& FIELD_ATTRIBUTE_LITERAL ≠ 0 then outPut.put "const "
    else (outPut.putIf (attrs &&& FIELD_ATTRIBUTE_STATIC ≠ 0) "static ").putIf
      (attrs &&& FIELD_ATTRIBUTE_INIT_ONLY ≠ 0) "readonly "
  outPut.str

/-- The `switch (visibility)` of `dump_type`. -/
def typeVisibility (visibility : UInt32) : Text :=
  if visibility = TYPE_ATTRIBUTE_PUBLIC ∨ visibility = TYPE_ATTRIBUTE_NESTED_PUBLIC then "public "
  else if visibility = TYPE_ATTRIBUTE_NOT_PUBLIC ∨ visibility = TYPE_ATTRIBUTE_NESTED_FAM_AND_ASSEM ∨
      visibility = TYPE_ATTRIBUTE_NESTED_ASSEMBLY then "internal "
  else if visibility = TYPE_ATTRIBUTE_NESTED_PRIVATE then "private "
  else if visibility = TYPE_ATTRIBUTE_NESTED_FAMILY then "protected "
  else if visibility = TYPE_ATTRIBUTE_NESTED_FAM_OR_ASSEM then "protected internal "
  else ""

/-- What `dump_type` writes between the attributes and the kind word. -/
def typeModifier (flags : UInt32) (isValuetype isEnum : Bool) : Text :=
  let outPut := OStringStream.empty
  let outPut := outPut.put (typeVisibility (flags &&& TYPE_ATTRIBUTE_VISIBILITY_MASK))
  let outPut :=
    if flags &&& TYPE_ATTRIBUTE_ABSTRACT ≠ 0 ∧ flags &&& TYPE_ATTRIBUTE_SEALED ≠ 0 then
      outPut.put "static "
    else if ¬ (flags &&& TYPE_ATTRIBUTE_INTERFACE ≠ 0) ∧ flags &&& TYPE_ATTRIBUTE_ABSTRACT ≠ 0 then
      outPut.put "abstract "
    else if !isValuetype ∧ !isEnum ∧ flags &&& TYPE_ATTRIBUTE_SEALED ≠ 0 then
      outPut.put "sealed "
    else outPut
  outPut.str

/-- The kind word of `dump_type`. -/
def typeKind (flags : UInt32) (isValuetype isEnum : Bool) : Text :=
  if flags &&& TYPE_ATTRIBUTE_INTERFACE ≠ 0 then "interface "
  else if isEnum then "enum "
  else if isValuetype then "struct "
  else "class "

/-! ### Members -/

/-- `_il2cpp_type_is_byref`. -/
def typeIsByref (type : H.Il2CppType) : Bool :=
  match il2cpp.typeIsByref with
  | some isByref => isByref type
  | none => il2cpp.byref type

/-- What `dump_method` writes before a parameter's type. -/
def paramModifier (param : H.Il2CppType) : Text :=
  let outPut := OStringStream.empty
  let attrs := il2cpp.attrs param
  let outPut :=
    if typeIsByref il2cpp param then
      if attrs &&& PARAM_ATTRIBUTE_OUT ≠ 0 ∧ ¬ (attrs &&& PARAM_ATTRIBUTE_IN ≠ 0) then
        outPut.put "out "
      else if attrs &&& PARAM_ATTRIBUTE_IN ≠ 0 ∧ ¬ (attrs &&& PARAM_ATTRIBUTE_OUT ≠ 0) then
        outPut.put "in "
      else outPut.put "ref "
    else (outPut.putIf (attrs &&& PARAM_ATTRIBUTE_IN ≠ 0) "[In] ").putIf
      (attrs &&& PARAM_ATTRIBUTE_OUT ≠ 0) "[Out] "
  outPut.str

def dumpParamStep (method : H.MethodInfo) (outPut : OStringStream) (i : Nat) : OStringStream :=
  let param := il2cpp.methodGetParam method i
  let outPut := outPut.put (paramModifier il2cpp param)
  let parameterClass := il2cpp.classFromType param
  let outPut := ((outPut.put (il2cpp.classGetName parameterClass)).put " ").put
    (il2cpp.methodGetParamName method i)
  outPut.put ", "

def dumpMethodStep (il2cppBase : UInt64) (outPut : OStringStream) (method : H.MethodInfo) :
    OStringStream :=
  let pointer := il2cpp.methodPointer method
  let outPut :=
    if pointer ≠ 0 then
      let outPut := ((outPut.put "\t// RVA: 0x").setBase .hex).putNat (pointer - il2cppBase).toNat
      ((outPut.put " VA: 0x").setBase .hex).putNat pointer.toNat
    else outPut.put "\t// RVA: 0x VA: 0x0"
  let outPut := outPut.put "\n\t"
  let outPut := outPut.put (getMethodModifier (il2cpp.methodGetFlags method))
  let returnType := il2cpp.methodGetReturnType method
  let outPut := outPut.putIf (typeIsByref il2cpp returnType) "ref "
  let returnClass := il2cpp.classFromType returnType
  let outPut := (((outPut.put (il2cpp.classGetName returnClass)).put " ").put
    (il2cpp.methodGetName method)).put "("
  let paramCount := il2cpp.methodGetParamCount method
  let outPut := (List.range paramCount).foldl (dumpParamStep il2cpp method) outPut
  let outPut := if 0 < paramCount then outPut.seekp 2 else outPut
  outPut.put ") \x7b \x7d\n"

def dumpMethod (il2cppBase : UInt64) (klass : H.Il2CppClass) : Text :=
  let outPut := OStringStream.empty.put "\n\t// Methods\n"
  ((il2cpp.classGetMethods klass).foldl (dumpMethodStep il2cpp il2cppBase) outPut).str

/-- The getter's or else the setter's modifier, written by `dump_property` before the type. -/
def propModifier (get set : Option H.MethodInfo) : Text :=
  match get, set with
  | some get, _ => getMethodModifier (il2cpp.methodGetFlags get)
  | none, some set => getMethodModifier (il2cpp.methodGetFlags set)
  | none, none => ""

/-- `prop_class`: from the getter's return type, or else from the setter's first parameter. -/
def propClass (get set : Option H.MethodInfo) : Option H.Il2CppClass :=
  match get, set with
  | some get, _ => some (il2cpp.classFromType (il2cpp.methodGetReturnType get))
  | none, some set => some (il2cpp.classFromType (il2cpp.methodGetParam set 0))
  | none, none => none

def dumpPropertyStep (outPut : OStringStream) (prop : H.PropertyInfo) :
    Except Fault OStringStream := do
  let get := il2cpp.propertyGetGetMethod prop
  let set := il2cpp.propertyGetSetMethod prop
  let propName := il2cpp.propertyGetName prop
  let outPut := (outPut.put "\t").put (propModifier il2cpp get set)
  match propClass il2cpp get set with
  | some propClass =>
    let outPut := (outPut.put (il2cpp.classGetName propClass)).put " "
    let name ← cstr propName
    let outPut := (outPut.put name).put " \x7b "
    let outPut := (outPut.putIf get.isSome "get; ").putIf set.isSome "set; "
    return outPut.put "\x7d\n"
  | none =>
    match propName with
    | some name => return (outPut.put " // unknown property ").put name
    | none => return outPut

def dumpProperty (klass : H.Il2CppClass) : Except Fault Text := do
  let outPut := OStringStream.empty.put "\n\t// Properties\n"
  let outPut ← (il2cpp.classGetProperties klass).foldlM (dumpPropertyStep il2cpp) outPut
  return outPut.str

/-- The 64-bit `val` of `dump_field`, zero before `il2cpp_field_static_get_value` stores its bytes
there. -/
def fieldValue (field : H.FieldInfo) : UInt64 :=
  UInt64.ofNat (loadSlot 8 (il2cpp.fieldStaticGetValue field))

def dumpFieldStep (isEnum : Bool) (outPut : OStringStream) (field : H.FieldInfo) : OStringStream :=
  let outPut := outPut.put "\t"
  let attrs := il2cpp.fieldGetFlags field
  let outPut := outPut.put (fieldModifier attrs)
  let fieldClass := il2cpp.classFromType (il2cpp.fieldGetType field)
  let outPut := ((outPut.put (il2cpp.classGetName fieldClass)).put " ").put
    (il2cpp.fieldGetName field)
  let outPut :=
    if attrs &&& FIELD_ATTRIBUTE_LITERAL ≠ 0 ∧ isEnum then
      ((outPut.put " = ").setBase .dec).putNat (fieldValue il2cpp field).toNat
    else outPut
  (((outPut.put "; // 0x").setBase .hex).putNat (il2cpp.fieldGetOffset field).toNat).put "\n"

def dumpField (klass : H.Il2CppClass) : Text :=
  let outPut := OStringStream.empty.put "\n\t// Fields\n"
  let isEnum := il2cpp.classIsEnum klass
  ((il2cpp.classGetFields klass).foldl (dumpFieldStep il2cpp isEnum) outPut).str

/-! ### Types -/

/-- `extends`: the parent, unless the class is a value type or the parent is `System.Object`, and
then the interfaces. -/
def typeExtends (klass : H.Il2CppClass) : List Text :=
  let parent :=
    match il2cpp.classGetParent klass with
    | some parent =>
      if !il2cpp.classIsValuetype klass ∧ !il2cpp.classIsEnum klass ∧
          il2cpp.type (il2cpp.classGetType parent) ≠ IL2CPP_TYPE_OBJECT then
        [il2cpp.classGetName parent]
      else []
    | none => []
  parent ++ (il2cpp.classGetInterfaces klass).map il2cpp.classGetName

/-- ` : ` and the names in `extends`, if there are any. -/
def putExtends (outPut : OStringStream) (extends_ : List Text) : OStringStream :=
  match extends_ with
  | [] => outPut
  | first :: rest =>
    rest.foldl (fun outPut base => (outPut.put ", ").put base) ((outPut.put " : ").put first)

def dumpType (il2cppBase : UInt64) (type : H.Il2CppType) : Except Fault Text := do
  let outPut := OStringStream.empty
  let klass := il2cpp.classFromType type
  let outPut := ((outPut.put "\n// Namespace: ").put (il2cpp.classGetNamespace klass)).put "\n"
  let flags := il2cpp.classGetFlags klass
  let outPut := outPut.putIf (flags &&& TYPE_ATTRIBUTE_SERIALIZABLE ≠ 0) "[Serializable]\n"
  let isValuetype := il2cpp.classIsValuetype klass
  let isEnum := il2cpp.classIsEnum klass
  let outPut := outPut.put (typeModifier flags isValuetype isEnum)
  let outPut := outPut.put (typeKind flags isValuetype isEnum)
  let outPut := outPut.put (il2cpp.classGetName klass)
  let outPut := putExtends outPut (typeExtends il2cpp klass)
  let outPut := outPut.put "\n\x7b"
  let outPut := outPut.put (dumpField il2cpp klass)
  let outPut := outPut.put (← dumpProperty il2cpp klass)
  let outPut := outPut.put (dumpMethod il2cpp il2cppBase klass)
  return (outPut.put "\x7d\n").str

end Il2CppDumper
