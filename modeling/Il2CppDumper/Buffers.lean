import Il2CppDumper.Hook.Game
import Il2CppDumper.Maps.Pieces
import Il2CppDumper.Model.Buffers

/-!
# Which stores fit

No conversion of `isGame` and `get_module_base` has a width, so whether a store fits is up to the text.
Where all stores fit, the runs within the buffers are the runs without a bound (`isGameIn_of_fits`,
`findModuleIn_of_fits`), and else they end in an overflow.

`package_name` holds the package name that the directory gives (`isGameFits_iff`). The pieces of the maps
are too short to fill `path` (`fits_path`), and the first piece of a line has the four characters of the
permissions for `flags`. A later piece is text of a path, and whatever stands there after two numbers
with a `-` between them is stored (`flags_iff`), so there the exact condition is one on the text
(`no_overflow_iff`).
-/

namespace Il2CppDumper

open Clib

/-! ### `isGame` -/

theorem fits_succ_iff {size : Nat} {t : Text} :
    Fits (size + 1) (some (.str t)) ↔ ∀ t', some t = some t' → t'.length ≤ size := by
  rw [fits_str, Nat.add_le_add_iff_right]
  constructor
  · rintro h t' ⟨⟩
    exact h
  · intro h
    exact h t rfl

/-- The stores of `isGame` fit exactly if the scanned package name does. -/
theorem isGameFits_iff {dir : Text} :
    IsGameFits dir ↔ ∀ name, scannedPackageName dir = some name → name.length ≤ 255 := by
  by_cases huser : (sscanf dir userFormat).result = 2
  · obtain ⟨name, hname⟩ := sscanf_str_of_result (k := 1) huser (by decide)
    have hscanned : scannedPackageName dir = some name := by
      rw [scannedPackageName, if_pos huser, hname]
      rfl
    rw [IsGameFits, hname, hscanned, fits_succ_iff]
    exact and_iff_left fun hno => absurd huser hno
  · -- the first scan stores no package name, and the second is reached
    have hfits : IsGameFits dir ↔ Fits 256 (sscanf dir plainFormat).items[0]? := by
      rw [IsGameFits, items_user_none huser]
      exact ⟨fun h => h.2 huser, fun h => ⟨fits_none 256, fun _ => h⟩⟩
    rw [hfits, scannedPackageName, if_neg huser]
    by_cases hplain : (sscanf dir plainFormat).result = 1
    · obtain ⟨name, hname⟩ := sscanf_str_of_result (k := 0) hplain (by decide)
      rw [if_pos hplain, hname]
      exact fits_succ_iff
    · rw [items_plain_none hplain, if_neg hplain]
      refine iff_of_true (fits_none 256) fun name hname => ?_
      cases hname

/-! ### `get_module_base` -/

/-- The pieces that the loop gets to: those up to the first that reads as a line with the name. -/
def reached (aarch64 : Bool) (moduleName : Text) : List Text → List Text
  | [] => []
  | piece :: pieces =>
    piece :: if chunkNames aarch64 moduleName piece then [] else reached aarch64 moduleName pieces

section reached
variable (aarch64 : Bool) {moduleName : Text} (hname : moduleName ≠ [])

theorem reached_subset (moduleName : Text) (lines : List Text) :
    ∀ line ∈ reached aarch64 moduleName lines, line ∈ lines := by
  induction lines with
  | nil => exact fun line h => h
  | cons first lines ih =>
    intro line hline
    rcases List.mem_cons.1 hline with rfl | hline
    · exact List.mem_cons_self
    · split_ifs at hline
      · cases hline
      · exact List.mem_cons_of_mem first (ih line hline)

include hname

theorem findModule_cons (fields : MapsFields) (line : Text) (lines : List Text) :
    findModule aarch64 moduleName fields (line :: lines) =
      if chunkNames aarch64 moduleName line then chunkStart line
      else findModule aarch64 moduleName (scanMapsLine fields line).1 lines := by
  rw [findModule]
  exact turn_eq aarch64 hname id _ fields line

theorem findModuleIn_cons (fields : MapsFields) {line : Text} (hline : LineFits line)
    (lines : List Text) :
    findModuleIn aarch64 moduleName fields (line :: lines) =
      if chunkNames aarch64 moduleName line then .ok (chunkStart line)
      else findModuleIn aarch64 moduleName (scanMapsLine fields line).1 lines := by
  rw [findModuleIn, scanMapsLineIn_of_fits fields hline]
  exact turn_eq aarch64 hname Except.ok _ fields line

theorem findModuleIn_of_fits {lines : List Text}
    (h : ∀ line ∈ reached aarch64 moduleName lines, LineFits line) (fields : MapsFields) :
    findModuleIn aarch64 moduleName fields lines = .ok (findModule aarch64 moduleName fields lines) := by
  induction lines generalizing fields with
  | nil => rfl
  | cons line lines ih =>
    have hline := h line List.mem_cons_self
    rw [findModuleIn_cons aarch64 hname fields hline, findModule_cons aarch64 hname]
    split_ifs with hnames
    · rfl
    · refine ih (fun next hnext => h next (List.mem_cons_of_mem line ?_)) _
      rwa [if_neg hnames]

theorem findModuleIn_of_not_fits {lines : List Text}
    (h : ∃ line ∈ reached aarch64 moduleName lines, ¬LineFits line) (fields : MapsFields) :
    ∃ overflow, findModuleIn aarch64 moduleName fields lines = .error overflow := by
  induction lines generalizing fields with
  | nil =>
    obtain ⟨line, hline, -⟩ := h
    cases hline
  | cons line lines ih =>
    by_cases hfits : LineFits line
    · obtain ⟨next, hnext, hno⟩ := h
      rcases List.mem_cons.1 hnext with rfl | hnext
      · exact absurd hfits hno
      · rw [findModuleIn_cons aarch64 hname fields hfits]
        split_ifs at hnext ⊢ with hnames
        · cases hnext
        · exact ih ⟨next, hnext, hno⟩ _
    · obtain ⟨overflow, hoverflow⟩ := scanMapsLineIn_of_not_fits fields hfits
      refine ⟨overflow, ?_⟩
      rw [findModuleIn, hoverflow]
      rfl

end reached

/-! ### The pieces of the maps -/

/-- No piece is long enough to fill `path`. -/
theorem fits_path {stream piece : Text} (hpiece : piece ∈ fgetsLines 1024 stream) :
    Fits PATH_MAX (sscanf piece mapsFormat).items[3]? := by
  intro t ht
  have hstored := (isWord_of_mem_maps (List.mem_of_getElem? ht)).2.length_le
  have hlength := length_le_of_mem_fgetsLines (by decide) stream piece hpiece
  show t.length + 1 ≤ 4096
  omega

/-- The word that a chunk has for permissions: it stands after `start-end`. -/
def PermsWord (chunk w : Text) : Prop :=
  ∃ start end_ later rest, ReadsNumber .hex chunk start ('-' :: later) ∧
    ReadsNumber .hex later end_ rest ∧ FirstWord rest w

/-- The store into `flags` is reached exactly if the chunk has a word for permissions. -/
theorem flags_iff {chunk w : Text} :
    (sscanf chunk mapsFormat).items[2]? = some (.str w) ↔ PermsWord (cstring chunk) w := by
  have hsplit : mapsDirectives =
      [.conv false (.int .hex), .lit '-', .conv false (.int .hex), .space] ++ [.conv false .str] ++
        mapsDirectives.drop 5 := rfl
  rw [sscanf, parseFormat_mapsFormat, hsplit]
  refine (getElem?_items_iff _ _ rfl).trans ?_
  constructor
  · rintro ⟨items, hcompletes, hitem⟩
    obtain ⟨_, afterStart, items, hstart, hminus, rfl⟩ := completes_conv.1 hcompletes
    obtain ⟨later, rfl, hlater⟩ := completes_lit.1 hminus
    obtain ⟨_, rest, items, hend, hspace, rfl⟩ := completes_conv.1 hlater
    obtain ⟨w', rfl, hword⟩ := completes_str.1 (completes_space.1 hspace)
    obtain ⟨start, -, hstart⟩ := Kind.run_int.1 hstart
    obtain ⟨end_, -, hend⟩ := Kind.run_int.1 hend
    obtain rfl := Item.str.inj (Option.some.inj hitem)
    rw [firstWord_eq_iff, firstWord_dropWhile, ← firstWord_eq_iff] at hword
    exact ⟨start, end_, later, rest, hstart, hend, hword⟩
  · rintro ⟨start, end_, later, rest, hstart, hend, hword⟩
    refine ⟨[.int start, .int end_, .str w], ?_, rfl⟩
    apply completes_conv.2
    refine ⟨.int start, '-' :: later, _, Kind.run_int.2 ⟨start, rfl, hstart⟩, ?_, rfl⟩
    apply completes_lit.2
    refine ⟨later, rfl, completes_conv.2 ?_⟩
    refine ⟨.int end_, rest, _, Kind.run_int.2 ⟨end_, rfl, hend⟩, ?_, rfl⟩
    apply completes_space.2
    rw [firstWord_eq_iff, ← firstWord_dropWhile, ← firstWord_eq_iff] at hword
    exact completes_str.2 ⟨w, rfl, hword⟩

/-- The permissions of a mapping fill `flags`. -/
theorem Mapping.WellFormed.lineFits_firstPiece {m : Mapping} (hm : m.WellFormed) :
    LineFits m.firstPiece := by
  have hpiece : m.firstPiece ∈ m.pieces := by
    rw [hm.pieces_eq]
    exact List.mem_cons_self
  refine ⟨?_, fits_path hpiece⟩
  rw [sscanf_firstPiece hm]
  exact fits_str.2 (Nat.le_refl 5)

/-- No later piece of a line that the loop gets to has more than four characters for permissions. -/
def LaterFlagsFit (aarch64 : Bool) (moduleName : Text) (ms : List Mapping) : Prop :=
  ∀ m ∈ ms, ∀ piece ∈ m.laterPieces, piece ∈ reached aarch64 moduleName (ms.flatMap Mapping.pieces) →
    ∀ w, PermsWord (cstring piece) w → w.length ≤ 4

theorem lineFits_reached_iff (aarch64 : Bool) (moduleName : Text) {ms : List Mapping}
    (hms : ∀ m ∈ ms, m.WellFormed) :
    (∀ piece ∈ reached aarch64 moduleName (ms.flatMap Mapping.pieces), LineFits piece) ↔
      LaterFlagsFit aarch64 moduleName ms := by
  constructor
  · intro h m _ piece _ hreached w hw
    exact Nat.le_of_succ_le_succ ((h piece hreached).1 w (flags_iff.2 hw))
  · intro h piece hreached
    obtain ⟨m, hm, hpiece⟩ := List.mem_flatMap.1 (reached_subset aarch64 moduleName _ piece hreached)
    have hpath := fits_path hpiece
    rw [(hms m hm).pieces_eq] at hpiece
    rcases List.mem_cons.1 hpiece with rfl | hlater
    · exact (hms m hm).lineFits_firstPiece
    · refine ⟨fun w hw => ?_, hpath⟩
      exact Nat.succ_le_succ (h m hm piece hlater hreached w (flags_iff.1 hw))

/-- **No buffer of `isGame` overflows exactly if the package name has at most 255 characters, and none
of `get_module_base` exactly if no later piece of a line that it gets to has more than four characters
for permissions.** -/
theorem no_overflow_iff {moduleName : Text} (hname : moduleName ≠ []) {ms : List Mapping}
    (hms : ∀ m ∈ ms, m.WellFormed) (gamePackageName dir : Text) (s : ModuleState) (aarch64 : Bool)
    (flags : Text) :
    ((∀ overflow, isGameIn gamePackageName (some dir) s ≠ .error overflow) ↔
        ∀ name, PackageOf (cstring dir) name → name.length ≤ 255) ∧
      ((∀ overflow,
          getModuleBaseIn aarch64 flags (some (mapsText ms)) moduleName ≠ .error overflow) ↔
        LaterFlagsFit aarch64 moduleName ms) := by
  constructor
  · simp only [← scannedPackageName_iff]
    rw [← isGameFits_iff]
    by_cases hfits : IsGameFits dir
    · rw [isGameIn_of_fits hfits]
      exact iff_of_true (fun overflow h => by cases h) hfits
    · rw [isGameIn_of_not_fits hfits]
      exact iff_of_false (fun h => h _ rfl) hfits
  · rw [← lineFits_reached_iff aarch64 moduleName hms, getModuleBaseIn, fgetsLines_mapsText ms hms]
    constructor
    · intro h piece hpiece
      by_contra hno
      obtain ⟨overflow, hoverflow⟩ :=
        findModuleIn_of_not_fits aarch64 hname ⟨piece, hpiece, hno⟩ ⟨0, 0, flags⟩
      exact h overflow hoverflow
    · intro h overflow hoverflow
      rw [findModuleIn_of_fits aarch64 hname h] at hoverflow
      cases hoverflow

theorem no_overflow_threeLines :
    (∀ overflow, isGameIn "com.game" (some "/data/user/0/com.game") .init ≠ .error overflow) ∧
      ∀ overflow, getModuleBaseIn true [] (some (mapsText threeLines)) "libil2cpp.so" ≠
        .error overflow := by
  have hboth := no_overflow_iff (show ("libil2cpp.so" : Text) ≠ [] by decide) threeLines_wellFormed
    "com.game" "/data/user/0/com.game" .init true []
  refine ⟨hboth.1.2 fun name hname => ?_, hboth.2.2 fun m hm piece hpiece _ w hw => ?_⟩
  · have hscanned : scannedPackageName "/data/user/0/com.game" = some "com.game".toList := by decide
    rw [scannedPackageName_iff.2 hname] at hscanned
    obtain rfl := Option.some.inj hscanned
    decide
  · have hnone : ∀ m ∈ threeLines, ∀ piece ∈ m.laterPieces,
        (sscanf piece mapsFormat).items[2]? = none := by decide +kernel
    have hitem := flags_iff.2 hw
    rw [hnone m hm piece hpiece] at hitem
    cases hitem

/-- A directory with a package name of 256 characters. -/
def longDir : Text := "/data/user/0/" ++ List.replicate 256 'a'

/-- A line whose second piece has five characters for permissions. -/
def longMapping : Mapping :=
  { segment 0x1000 true with path := List.replicate 980 'a' ++ ("1-2 rwxps" : Text) }

theorem overflow_of_long :
    longDir.length ≤ 4095 ∧ isGameIn "com.game" (some longDir) .init = .error .packageName ∧
      longMapping.WellFormed ∧ longMapping.path.length ≤ 4095 ∧
      getModuleBaseIn false [] (some (mapsText [longMapping])) "libil2cpp.so" = .error .flags :=
  ⟨by decide +kernel, by decide +kernel, ⟨by decide, by decide, by decide +kernel⟩,
    by decide +kernel, by decide +kernel⟩

end Il2CppDumper
