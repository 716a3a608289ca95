import Il2CppDumper.Model.Maps
import Mathlib.Tactic.Common

/-!
# One chunk at a time

The fields of `get_module_base` outlive a turn of its loop, but nothing of an earlier chunk gets into an
answer. `path` is emptied before every scan, so a path that names the module says that the scan of this
very chunk has stored all four items (`scanMapsLine_of_none`), the ones before it included. The loop is
therefore a search for the first chunk that names the module by itself (`findModule_eq`), and the address
is the start in this chunk (`getModuleBase_fresh`).
-/

namespace Il2CppDumper

open Clib

/-! ### What a chunk says -/

/-- What the conversions of one chunk store, if all four succeed. -/
def chunkMapping (chunk : Text) : Option (MapsFields × Text) :=
  match (sscanf chunk mapsFormat).items with
  | [.int start, .int end_, .str flags, .str path] =>
    some (⟨UInt64.ofInt start, UInt64.ofInt end_, flags⟩, path)
  | _ => none

/-- The chunk by itself passes the tests of the loop. -/
def chunkNames (aarch64 : Bool) (moduleName chunk : Text) : Bool :=
  match chunkMapping chunk with
  | some (fields, path) => (!aarch64 || strstr fields.flags "x") && strstr path moduleName
  | none => false

/-- The start in a chunk. -/
def chunkStart (chunk : Text) : UInt64 :=
  match chunkMapping chunk with
  | some (fields, _) => fields.start
  | none => 0

theorem scanMapsLine_of_some {chunk : Text} {mapping : MapsFields × Text}
    (h : chunkMapping chunk = some mapping) (fields : MapsFields) :
    scanMapsLine fields chunk = mapping := by
  rw [chunkMapping] at h
  split at h
  · rename_i hitems
    obtain rfl := Option.some.inj h
    simp only [scanMapsLine, hitems]
    rfl
  · cases h

theorem stored_mapsFormat : stored (parseFormat none mapsFormat) = [false, false, true, true] := by
  decide

/-- A path is stored with everything before it or not at all. -/
theorem scanMapsLine_of_none {chunk : Text} (h : chunkMapping chunk = none) (fields : MapsFields) :
    (scanMapsLine fields chunk).2 = [] := by
  have hkinds := scan_isStr (parseFormat none mapsFormat) (cstring chunk)
  rw [stored_mapsFormat] at hkinds
  rw [chunkMapping] at h
  rw [scanMapsLine]
  simp only [sscanf] at h ⊢
  rcases hitems : (scan (parseFormat none mapsFormat) (cstring chunk)).items with
    - | ⟨a, - | ⟨b, - | ⟨c, - | ⟨d, rest⟩⟩⟩⟩
  · rfl
  · rfl
  · rfl
  · rfl
  · rw [hitems] at hkinds h
    obtain ⟨later, hlater⟩ := hkinds
    simp only [List.map_cons, List.cons_append, List.cons.injEq, List.append_eq_nil_iff,
      List.map_eq_nil_iff] at hlater
    obtain ⟨ha, hb, hc, hd, rfl, -⟩ := hlater
    cases a with
    | str t => cases ha
    | int start =>
      cases b with
      | str t => cases hb
      | int end_ =>
        cases c with
        | int n => cases hc
        | str flags =>
          cases d with
          | int n => cases hd
          | str path => cases h

/-! ### The loop -/

/-- The turn on which the loop breaks, and the address that it leaves with. -/
def breakTurn (aarch64 : Bool) (moduleName : Text) (fields : MapsFields) :
    List Text → Option (Nat × UInt64)
  | [] => none
  | line :: lines =>
    let fields' := (scanMapsLine fields line).1
    let path := (scanMapsLine fields line).2
    let next := (breakTurn aarch64 moduleName fields' lines).map fun (i, addr) => (i + 1, addr)
    if aarch64 ∧ strstr fields'.flags "x" = false then next
    else if strstr path moduleName then some (0, fields'.start)
    else next

section loop
variable (aarch64 : Bool) {moduleName : Text}

theorem findModule_eq_breakTurn (moduleName : Text) (fields : MapsFields) (lines : List Text) :
    findModule aarch64 moduleName fields lines =
      ((breakTurn aarch64 moduleName fields lines).map Prod.snd).getD 0 := by
  induction lines generalizing fields with
  | nil => rfl
  | cons line lines ih =>
    rw [findModule, breakTurn]
    simp only [ih]
    split_ifs
    · rw [Option.map_map]
      rfl
    · rfl
    · rw [Option.map_map]
      rfl

variable (hname : moduleName ≠ [])
include hname

/-- A turn breaks on what its own chunk says, wherever it goes on. -/
theorem turn_eq {α : Type} (found : UInt64 → α) (next : α) (fields : MapsFields) (line : Text) :
    (if aarch64 = true ∧ strstr (scanMapsLine fields line).1.flags "x" = false then next
      else if strstr (scanMapsLine fields line).2 moduleName = true then
        found (scanMapsLine fields line).1.start
      else next) =
      if chunkNames aarch64 moduleName line = true then found (chunkStart line) else next := by
  rw [chunkNames, chunkStart]
  rcases hchunk : chunkMapping line with - | ⟨chunkFields, path⟩
  · simp only [scanMapsLine_of_none hchunk, strstr_nil hname, Bool.false_eq_true, if_false, ite_self]
  · simp only [scanMapsLine_of_some hchunk]
    cases aarch64 <;> cases strstr chunkFields.flags "x" <;> cases strstr path moduleName <;> rfl

theorem breakTurn_cons (fields : MapsFields) (line : Text) (lines : List Text) :
    breakTurn aarch64 moduleName fields (line :: lines) =
      if chunkNames aarch64 moduleName line then some (0, chunkStart line)
      else (breakTurn aarch64 moduleName (scanMapsLine fields line).1 lines).map
        fun (i, addr) => (i + 1, addr) := by
  rw [breakTurn]
  exact turn_eq aarch64 hname (fun addr => some (0, addr)) _ fields line

theorem breakTurn_eq (fields : MapsFields) (lines : List Text) :
    (breakTurn aarch64 moduleName fields lines).map Prod.snd =
      (lines.find? (chunkNames aarch64 moduleName)).map chunkStart := by
  induction lines generalizing fields with
  | nil => rfl
  | cons line lines ih =>
    rw [breakTurn_cons aarch64 hname, List.find?_cons]
    cases hline : chunkNames aarch64 moduleName line
    · rw [if_neg Bool.false_ne_true, Option.map_map, ← ih]
      rfl
    · rfl

end loop

/-! ### The answer -/

/-- The conversions of this chunk have all succeeded, with this start; its path contains the name of the
module and, in the build for aarch64, its permissions an `x`. -/
def Names (aarch64 : Bool) (moduleName chunk : Text) (start : Int) : Prop :=
  ∃ end_ flags path,
    (sscanf chunk mapsFormat).items = [.int start, .int end_, .str flags, .str path] ∧
      strstr path moduleName = true ∧ (aarch64 = true → 'x' ∈ flags)

theorem names_of_chunkNames {aarch64 : Bool} {moduleName chunk : Text}
    (h : chunkNames aarch64 moduleName chunk = true) :
    ∃ start, Names aarch64 moduleName chunk start ∧ chunkStart chunk = UInt64.ofInt start := by
  rw [chunkNames, chunkMapping] at h
  rw [chunkStart, chunkMapping]
  split at h
  · rename_i fields path hchunk
    split at hchunk
    · rename_i start end_ flags path' hitems
      obtain ⟨rfl, rfl⟩ := Prod.mk.inj (Option.some.inj hchunk)
      obtain ⟨hx, hpath⟩ := Bool.and_eq_true_iff.1 h
      refine ⟨start, ⟨end_, flags, path', hitems, hpath, ?_⟩, rfl⟩
      rintro rfl
      exact strstr_singleton.1 hx
    · cases hchunk
  · cases h

theorem chunkNames_of_names {aarch64 : Bool} {moduleName chunk : Text} {start : Int}
    (h : Names aarch64 moduleName chunk start) : chunkNames aarch64 moduleName chunk = true := by
  obtain ⟨end_, flags, path, hitems, hpath, hx⟩ := h
  rw [chunkNames, chunkMapping, hitems]
  refine Bool.and_eq_true_iff.2 ⟨?_, hpath⟩
  cases aarch64 with
  | false => rfl
  | true => exact strstr_singleton.2 (hx rfl)

theorem not_names_of_chunkNames {aarch64 : Bool} {moduleName chunk : Text}
    (h : chunkNames aarch64 moduleName chunk = false) (start : Int) :
    ¬Names aarch64 moduleName chunk start := by
  intro hnames
  rw [chunkNames_of_names hnames] at h
  cases h

section answer
variable {moduleName : Text} (hname : moduleName ≠ []) {aarch64 : Bool}
include hname

/-- A loop that breaks does so on the first chunk that names the module. -/
theorem breakTurn_some {fields : MapsFields} {lines : List Text} {turn : Nat} {addr : UInt64}
    (h : breakTurn aarch64 moduleName fields lines = some (turn, addr)) :
    ∃ before chunk after start, lines = before ++ chunk :: after ∧ before.length = turn ∧
      Names aarch64 moduleName chunk start ∧ addr = UInt64.ofInt start ∧
      ∀ earlier ∈ before, ∀ start, ¬Names aarch64 moduleName earlier start := by
  induction lines generalizing fields turn with
  | nil => cases h
  | cons line lines ih =>
    rw [breakTurn_cons aarch64 hname] at h
    cases hline : chunkNames aarch64 moduleName line
    · -- the loop goes on, and this chunk is one of those before
      rw [hline, if_neg Bool.false_ne_true] at h
      obtain ⟨⟨turn', addr'⟩, hrest, hturn⟩ := Option.map_eq_some_iff.1 h
      obtain ⟨rfl, rfl⟩ := Prod.mk.inj hturn
      obtain ⟨before, chunk, after, start, rfl, rfl, hnames, haddr, hbefore⟩ := ih hrest
      refine ⟨line :: before, chunk, after, start, rfl, rfl, hnames, haddr, ?_⟩
      intro earlier hearlier
      rcases List.mem_cons.1 hearlier with rfl | hearlier
      · exact not_names_of_chunkNames hline
      · exact hbefore earlier hearlier
    · rw [hline, if_pos rfl] at h
      obtain ⟨rfl, rfl⟩ := Prod.mk.inj (Option.some.inj h)
      obtain ⟨start, hnames, hstart⟩ := names_of_chunkNames hline
      exact ⟨[], line, lines, start, rfl, rfl, hnames, hstart, fun earlier h => by cases h⟩

theorem breakTurn_none {fields : MapsFields} {lines : List Text}
    (h : breakTurn aarch64 moduleName fields lines = none) :
    ∀ chunk ∈ lines, ∀ start, ¬Names aarch64 moduleName chunk start := by
  have hfind := breakTurn_eq aarch64 hname fields lines
  rw [h] at hfind
  intro chunk hchunk
  have hno := List.find?_eq_none.1 (Option.map_eq_none_iff.1 hfind.symm) chunk hchunk
  exact not_names_of_chunkNames (by simpa using hno)

/-- **If the loop breaks, the address is the start in the chunk of that turn, which by itself names the
module, and no chunk before it does; if no chunk names the module, the loop does not break and the
answer is 0.** -/
theorem getModuleBase_fresh (aarch64 : Bool) (flags text : Text) :
    getModuleBase aarch64 flags (some text) moduleName =
        ((breakTurn aarch64 moduleName ⟨0, 0, flags⟩ (fgetsLines 1024 text)).map Prod.snd).getD 0 ∧
      match breakTurn aarch64 moduleName ⟨0, 0, flags⟩ (fgetsLines 1024 text) with
      | some (turn, addr) => ∃ before chunk after start,
          fgetsLines 1024 text = before ++ chunk :: after ∧ before.length = turn ∧
          Names aarch64 moduleName chunk start ∧ addr = UInt64.ofInt start ∧
          ∀ earlier ∈ before, ∀ start, ¬Names aarch64 moduleName earlier start
      | none => ∀ chunk ∈ fgetsLines 1024 text, ∀ start, ¬Names aarch64 moduleName chunk start := by
  refine ⟨findModule_eq_breakTurn aarch64 moduleName _ _, ?_⟩
  split
  · rename_i turn addr hturn
    exact breakTurn_some hname hturn
  · rename_i hturn
    exact breakTurn_none hname hturn

end answer

/-- The first chunk has a start, and nothing after it. -/
theorem getModuleBase_fresh_secondChunk :
    ∃ before chunk after start,
      fgetsLines 1024 "9-\n1-2 r-xp 0 0:0 0 /a.so\n" = before ++ chunk :: after ∧ before.length = 1 ∧
      Names true "a.so" chunk start ∧
      getModuleBase true [] (some "9-\n1-2 r-xp 0 0:0 0 /a.so\n") "a.so" = UInt64.ofInt start := by
  have hturn : breakTurn true "a.so" ⟨0, 0, []⟩ (fgetsLines 1024 "9-\n1-2 r-xp 0 0:0 0 /a.so\n") =
      some (1, 1) := by decide
  have hfresh := getModuleBase_fresh (show ("a.so" : Text) ≠ [] by decide) true []
    "9-\n1-2 r-xp 0 0:0 0 /a.so\n"
  rw [hturn] at hfresh
  obtain ⟨hbase, before, chunk, after, start, hlines, hlength, hnames, haddr, -⟩ := hfresh
  exact ⟨before, chunk, after, start, hlines, hlength, hnames, hbase.trans haddr⟩

end Il2CppDumper
