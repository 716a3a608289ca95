/-!
# Attribute constants

The part of `il2cpp-tabledefs.h` that the dump functions test, and the two type codes of
`Il2CppTypeEnum` and parameter attributes they compare with.
-/

namespace Il2CppDumper

/-! ### Field attributes -/

def FIELD_ATTRIBUTE_FIELD_ACCESS_MASK : UInt32 := 0x0007
def FIELD_ATTRIBUTE_PRIVATE : UInt32 := 0x0001
def FIELD_ATTRIBUTE_FAM_AND_ASSEM : UInt32 := 0x0002
def FIELD_ATTRIBUTE_ASSEMBLY : UInt32 := 0x0003
def FIELD_ATTRIBUTE_FAMILY : UInt32 := 0x0004
def FIELD_ATTRIBUTE_FAM_OR_ASSEM : UInt32 := 0x0005
def FIELD_ATTRIBUTE_PUBLIC : UInt32 := 0x0006

def FIELD_ATTRIBUTE_STATIC : UInt32 := 0x0010
def FIELD_ATTRIBUTE_INIT_ONLY : UInt32 := 0x0020
def FIELD_ATTRIBUTE_LITERAL : UInt32 := 0x0040

/-! ### Method attributes -/

def METHOD_ATTRIBUTE_MEMBER_ACCESS_MASK : UInt32 := 0x0007
def METHOD_ATTRIBUTE_PRIVATE : UInt32 := 0x0001
def METHOD_ATTRIBUTE_FAM_AND_ASSEM : UInt32 := 0x0002
def METHOD_ATTRIBUTE_ASSEM : UInt32 := 0x0003
def METHOD_ATTRIBUTE_FAMILY : UInt32 := 0x0004
def METHOD_ATTRIBUTE_FAM_OR_ASSEM : UInt32 := 0x0005
def METHOD_ATTRIBUTE_PUBLIC : UInt32 := 0x0006

def METHOD_ATTRIBUTE_STATIC : UInt32 := 0x0010
def METHOD_ATTRIBUTE_FINAL : UInt32 := 0x0020
def METHOD_ATTRIBUTE_VIRTUAL : UInt32 := 0x0040

def METHOD_ATTRIBUTE_VTABLE_LAYOUT_MASK : UInt32 := 0x0100
def METHOD_ATTRIBUTE_REUSE_SLOT : UInt32 := 0x0000
def METHOD_ATTRIBUTE_NEW_SLOT : UInt32 := 0x0100

def METHOD_ATTRIBUTE_ABSTRACT : UInt32 := 0x0400
def METHOD_ATTRIBUTE_PINVOKE_IMPL : UInt32 := 0x2000

/-! ### Type attributes -/

def TYPE_ATTRIBUTE_VISIBILITY_MASK : UInt32 := 0x00000007
def TYPE_ATTRIBUTE_NOT_PUBLIC : UInt32 := 0x00000000
def TYPE_ATTRIBUTE_PUBLIC : UInt32 := 0x00000001
def TYPE_ATTRIBUTE_NESTED_PUBLIC : UInt32 := 0x00000002
def TYPE_ATTRIBUTE_NESTED_PRIVATE : UInt32 := 0x00000003
def TYPE_ATTRIBUTE_NESTED_FAMILY : UInt32 := 0x00000004
def TYPE_ATTRIBUTE_NESTED_ASSEMBLY : UInt32 := 0x00000005
def TYPE_ATTRIBUTE_NESTED_FAM_AND_ASSEM : UInt32 := 0x00000006
def TYPE_ATTRIBUTE_NESTED_FAM_OR_ASSEM : UInt32 := 0x00000007

def TYPE_ATTRIBUTE_INTERFACE : UInt32 := 0x00000020
def TYPE_ATTRIBUTE_ABSTRACT : UInt32 := 0x00000080
def TYPE_ATTRIBUTE_SEALED : UInt32 := 0x00000100
def TYPE_ATTRIBUTE_SERIALIZABLE : UInt32 := 0x00002000

/-! ### Parameters and type codes -/

def PARAM_ATTRIBUTE_IN : UInt16 := 0x0001
def PARAM_ATTRIBUTE_OUT : UInt16 := 0x0002

def IL2CPP_TYPE_OBJECT : UInt8 := 0x1c

end Il2CppDumper
