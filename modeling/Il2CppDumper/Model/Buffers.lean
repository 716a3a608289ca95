import Il2CppDumper.Model.Hook
import Il2CppDumper.Model.Maps

/-!
# Buffers of a fixed size

`isGame` and `get_module_base` with the sizes of their buffers: `package_name` has 256 characters,
`flags` 5 and `path` `PATH_MAX`. No conversion has a width, so a text that does not fit with its
terminator is written past the end of its buffer, which ends the run here (`Overflow`).
-/

namespace Il2CppDumper

open Clib

/-- The buffer that is written past its end. -/
inductive Overflow where
  | packageName
  | flags
  | path
  deriving DecidableEq, Repr

def PATH_MAX : Nat := 4096

/-- `storeStr` into a buffer of this size. -/
def storeStrIn (buffer : Overflow) (size : Nat) (old : Text) : Option Item → Except Overflow Text
  | some (.str t) => if t.length + 1 ≤ size then .ok t else .error buffer
  | _ => .ok old

def isGameIn (gamePackageName : Text) (appDataDir : Option Text) (s : ModuleState) :
    Except Overflow (Int × ModuleState) :=
  match appDataDir with
  | none => return (0, s)
  | some appDataDir => do
    let withUser := sscanf appDataDir userFormat
    let packageName ← storeStrIn .packageName 256 s.packageName withUser.items[1]?
    let s := { s with packageName }
    if withUser.result ≠ 2 then
      let plain := sscanf appDataDir plainFormat
      let packageName ← storeStrIn .packageName 256 s.packageName plain.items[0]?
      let s := { s with packageName }
      if plain.result ≠ 1 then return (0, { s with packageName := [] })
      else return matchGame gamePackageName appDataDir s
    else return matchGame gamePackageName appDataDir s

def scanMapsLineIn (fields : MapsFields) (line : Text) : Except Overflow (MapsFields × Text) := do
  let items := (sscanf line mapsFormat).items
  let flags ← storeStrIn .flags 5 fields.flags items[2]?
  let path ← storeStrIn .path PATH_MAX [] items[3]?
  return ({ start := storeInt fields.start items[0]?, end_ := storeInt fields.end_ items[1]?, flags },
    path)

def findModuleIn (aarch64 : Bool) (moduleName : Text) (fields : MapsFields) :
    List Text → Except Overflow UInt64
  | [] => return 0
  | line :: lines => do
    let (fields', path) ← scanMapsLineIn fields line
    if aarch64 ∧ strstr fields'.flags "x" = false then findModuleIn aarch64 moduleName fields' lines
    else if strstr path moduleName then return fields'.start
    else findModuleIn aarch64 moduleName fields' lines

def getModuleBaseIn (aarch64 : Bool) (flags : Text) (maps : Option Text) (moduleName : Text) :
    Except Overflow UInt64 :=
  match maps with
  | some text => findModuleIn aarch64 moduleName ⟨0, 0, flags⟩ (fgetsLines 1024 text)
  | none => return 0

/-! ### Stores that fit -/

/-- The item, if it is a text, fits in a buffer of this size. -/
def Fits (size : Nat) (item : Option Item) : Prop := ∀ t, item = some (.str t) → t.length + 1 ≤ size

theorem fits_str {size : Nat} {t : Text} : Fits size (some (.str t)) ↔ t.length + 1 ≤ size := by
  constructor
  · intro h
    exact h t rfl
  · rintro h t' ⟨⟩
    exact h

theorem fits_none (size : Nat) : Fits size none := fun t ht => by cases ht

theorem fits_int (size : Nat) (n : Int) : Fits size (some (.int n)) := fun t ht => by cases ht

section store
variable {size : Nat} {item : Option Item} (buffer : Overflow) (old : Text)

theorem storeStrIn_of_fits (h : Fits size item) :
    storeStrIn buffer size old item = .ok (storeStr old item) := by
  rcases item with - | (n | t)
  · rfl
  · rfl
  · exact if_pos (fits_str.1 h)

theorem storeStrIn_of_not_fits (h : ¬Fits size item) :
    storeStrIn buffer size old item = .error buffer := by
  rcases item with - | (n | t)
  · exact absurd (fits_none size) h
  · exact absurd (fits_int size n) h
  · exact if_neg (mt fits_str.2 h)

end store

/-! ### Runs within the buffers -/

section isGame
variable {gamePackageName dir : Text} {s : ModuleState}

/-- Both stores of `isGame` fit, the second where it is reached. -/
def IsGameFits (dir : Text) : Prop :=
  Fits 256 (sscanf dir userFormat).items[1]? ∧
    ((sscanf dir userFormat).result ≠ 2 → Fits 256 (sscanf dir plainFormat).items[0]?)

theorem isGameIn_of_fits (h : IsGameFits dir) :
    isGameIn gamePackageName (some dir) s = .ok (isGame gamePackageName (some dir) s) := by
  obtain ⟨huser, hplain⟩ := h
  by_cases hresult : (sscanf dir userFormat).result = 2
  · simp only [isGameIn, isGame, storeStrIn_of_fits _ _ huser, hresult]
    rfl
  · simp only [isGameIn, isGame, storeStrIn_of_fits _ _ huser, storeStrIn_of_fits _ _ (hplain hresult),
      if_pos hresult]
    show (if _ then _ else _) = _
    split_ifs <;> rfl

theorem isGameIn_of_not_fits (h : ¬IsGameFits dir) :
    isGameIn gamePackageName (some dir) s = .error .packageName := by
  by_cases huser : Fits 256 (sscanf dir userFormat).items[1]?
  · have hplain : (sscanf dir userFormat).result ≠ 2 ∧
        ¬Fits 256 (sscanf dir plainFormat).items[0]? := by
      by_contra hno
      exact h ⟨huser, fun hresult => by_contra fun hplain => hno ⟨hresult, hplain⟩⟩
    simp only [isGameIn, storeStrIn_of_fits _ _ huser, storeStrIn_of_not_fits _ _ hplain.2]
    exact if_pos hplain.1
  · simp only [isGameIn, storeStrIn_of_not_fits _ _ huser]
    rfl

end isGame

section maps
variable (fields : MapsFields) {line : Text}

/-- Both stores of a turn fit. -/
def LineFits (line : Text) : Prop :=
  Fits 5 (sscanf line mapsFormat).items[2]? ∧ Fits PATH_MAX (sscanf line mapsFormat).items[3]?

theorem scanMapsLineIn_of_fits (h : LineFits line) :
    scanMapsLineIn fields line = .ok (scanMapsLine fields line) := by
  simp only [scanMapsLineIn, storeStrIn_of_fits _ _ h.1, storeStrIn_of_fits _ _ h.2]
  rfl

theorem scanMapsLineIn_of_not_fits (h : ¬LineFits line) :
    ∃ overflow, scanMapsLineIn fields line = .error overflow := by
  by_cases hflags : Fits 5 (sscanf line mapsFormat).items[2]?
  · have hpath : ¬Fits PATH_MAX (sscanf line mapsFormat).items[3]? := fun hpath => h ⟨hflags, hpath⟩
    refine ⟨.path, ?_⟩
    simp only [scanMapsLineIn, storeStrIn_of_fits _ _ hflags, storeStrIn_of_not_fits _ _ hpath]
    rfl
  · refine ⟨.flags, ?_⟩
    simp only [scanMapsLineIn, storeStrIn_of_not_fits _ _ hflags]
    rfl

end maps

end Il2CppDumper
