import Il2CppDumper.Clib.Scanf
import Mathlib.Data.Nat.Basic

/-!
# `get_module_base`

The loop over `/proc/self/maps`. `start`, `end` and `flags` live across the turns, and a turn whose
`sscanf` stops early leaves them as they are; `path` is emptied before every scan. `flags` is not
initialised, so its first content is a parameter; the build for aarch64 is the flag `aarch64`.
-/

namespace Il2CppDumper

open Clib

/-- The local variables of `get_module_base` that outlive a turn of its loop. -/
structure MapsFields where
  start : UInt64
  end_ : UInt64
  flags : Text
  deriving DecidableEq, Repr

def mapsFormat : Text := "%lx-%lx %s %*lx %*x:%*x %*u %s\n"

/-- The `sscanf` of one turn: the fields and the path after it. -/
def scanMapsLine (fields : MapsFields) (line : Text) : MapsFields × Text :=
  let items := (sscanf line mapsFormat).items
  ({ start := storeInt fields.start items[0]?
     end_ := storeInt fields.end_ items[1]?
     flags := storeStr fields.flags items[2]? },
    storeStr [] items[3]?)

/-- The turns of the loop, one for each line that `fgets` delivers. -/
def findModule (aarch64 : Bool) (moduleName : Text) (fields : MapsFields) : List Text → UInt64
  | [] => 0
  | line :: lines =>
    let fields' := (scanMapsLine fields line).1
    let path := (scanMapsLine fields line).2
    if aarch64 ∧ strstr fields'.flags "x" = false then findModule aarch64 moduleName fields' lines
    else if strstr path moduleName then fields'.start
    else findModule aarch64 moduleName fields' lines

/-- `maps` is the text of `/proc/self/maps`, if it can be opened. -/
def getModuleBase (aarch64 : Bool) (flags : Text) (maps : Option Text) (moduleName : Text) : UInt64 :=
  match maps with
  | some text => findModule aarch64 moduleName ⟨0, 0, flags⟩ (fgetsLines 1024 text)
  | none => 0

end Il2CppDumper
