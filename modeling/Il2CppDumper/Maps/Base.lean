import Il2CppDumper.Model.Driver

/-!
# The base address from the maps

A mapping in the kernel's layout of `/proc/self/maps` is scanned into its own fields, whatever the turns
before it left (`scanMapsLine_line`), so `get_module_base` returns the start of the first mapping that
its loop accepts (`getModuleBase_maps`). In the build for aarch64 that is the first *executable* mapping
of the library; the segment at the library's base need not be executable, and then the answer is not the
base (`base_from_maps_iff`).
-/

namespace Il2CppDumper

open Clib

/-! ### The kernel's layout -/

structure Perms where
  read : Bool
  write : Bool
  exec : Bool
  shared : Bool
  deriving DecidableEq, Repr

def Perms.text (p : Perms) : Text :=
  [if p.read then 'r' else '-', if p.write then 'w' else '-', if p.exec then 'x' else '-',
    if p.shared then 's' else 'p']

structure Mapping where
  start : UInt64
  end_ : UInt64
  perms : Perms
  offset : UInt64
  major : Nat
  minor : Nat
  inode : Nat
  /-- The blanks before the path, which align it. -/
  pad : Nat
  /-- Empty without a path. -/
  path : Text
  deriving DecidableEq, Repr

/-- A hexadecimal numeral with leading zeros up to a width. -/
def hexPad (width n : Nat) : Text :=
  List.replicate (width - (numeral .hex n).length) '0' ++ numeral .hex n

def Mapping.line (m : Mapping) : Text :=
  hexPad 8 m.start.toNat ++ '-' :: (hexPad 8 m.end_.toNat ++ ' ' :: (m.perms.text ++ ' ' ::
    (hexPad 8 m.offset.toNat ++ ' ' :: (hexPad 2 m.major ++ ':' :: (hexPad 2 m.minor ++ ' ' ::
      (numeral .dec m.inode ++ ' ' ::
        if m.path = [] then [] else List.replicate m.pad ' ' ++ m.path))))))

/-- A line up to the blank after the inode. -/
def Mapping.header (m : Mapping) : Text :=
  hexPad 8 m.start.toNat ++ '-' :: (hexPad 8 m.end_.toNat ++ ' ' :: (m.perms.text ++ ' ' ::
    (hexPad 8 m.offset.toNat ++ ' ' :: (hexPad 2 m.major ++ ':' :: (hexPad 2 m.minor ++ ' ' ::
      (numeral .dec m.inode ++ [' ']))))))

/-- What stands after the header. -/
def Mapping.tail (m : Mapping) : Text :=
  if m.path = [] then [] else List.replicate m.pad ' ' ++ m.path

theorem Mapping.line_eq (m : Mapping) : m.line = m.header ++ m.tail := by
  simp only [line, header, tail, List.append_assoc, List.cons_append, List.nil_append]

/-- The text of the file. -/
def mapsText (ms : List Mapping) : Text := terminated '\n' (ms.map Mapping.line)

/-- The path has no white space and no null character, and the line with its end is shorter than the
buffer. -/
structure Mapping.Readable (m : Mapping) : Prop where
  path : ∀ c ∈ m.path, isspace c = false ∧ c ≠ '\x00'
  length : m.line.length + 1 < 1024

instance : DecidablePred Mapping.Readable := fun m =>
  let _ : Decidable (∀ c ∈ m.path, isspace c = false ∧ c ≠ '\x00') := List.decidableBAll _ m.path
  decidable_of_iff ((∀ c ∈ m.path, isspace c = false ∧ c ≠ '\x00') ∧ m.line.length + 1 < 1024)
    ⟨fun ⟨hpath, hlength⟩ => ⟨hpath, hlength⟩, fun h => ⟨h.path, h.length⟩⟩

/-! ### Scanning a line -/

theorem isDigit_hexPad {width n : Nat} : ∀ c ∈ hexPad width n, Base.hex.isDigit c = true := by
  intro c hc
  rcases List.mem_append.1 hc with hc | hc
  · rw [(List.mem_replicate.1 hc).2]
    decide
  · exact isDigit_of_mem_numeral hc

theorem hexPad_ne_nil {width n : Nat} : hexPad width n ≠ [] := by simp [hexPad]

theorem ofNumeral_hexPad (width n : Nat) : ofNumeral .hex (hexPad width n) = n := by
  rw [hexPad, ofNumeral_replicate_zero, ofNumeral_numeral]

/-- A padded numeral is scanned up to a character that is no digit. -/
theorem scan_hexPad (ds : List Directive) (suppress : Bool) (width n : Nat) {c : Char} (t : Text)
    (hc : Base.hex.isDigit c = false ∧ c ≠ 'x' ∧ c ≠ 'X') :
    scan (.conv suppress (.int .hex) :: ds) (hexPad width n ++ c :: t) =
      (scan ds (c :: t)).store suppress (.int n) := by
  have hrest : ∀ d, (c :: t).head? = some d → Base.hex.isDigit d = false ∧ d ≠ 'x' ∧ d ≠ 'X' := by
    rintro d hd
    obtain rfl := Option.some.inj hd
    exact hc
  rw [scan_int ds suppress hexPad_ne_nil isDigit_hexPad hrest, ofNumeral_hexPad]

/-- The blank between two fields. -/
theorem scan_blank (ds : List Directive) {w : Text} (rest : Text) (hne : w ≠ [])
    (hw : ∀ c ∈ w, isspace c = false) : scan (.space :: ds) (' ' :: (w ++ rest)) = scan ds (w ++ rest) := by
  have hspace : (w ++ rest).dropWhile isspace = w ++ rest := by
    refine dropWhile_isspace fun c hc => ?_
    cases w with
    | nil => exact absurd rfl hne
    | cons d w =>
      obtain rfl := Option.some.inj hc
      exact hw d (by simp)
  rw [scan_space, List.dropWhile_cons_of_pos (by decide), hspace]

def mapsDirectives : List Directive :=
  [.conv false (.int .hex), .lit '-', .conv false (.int .hex), .space, .conv false .str, .space,
    .conv true (.int .hex), .space, .conv true (.int .hex), .lit ':', .conv true (.int .hex), .space,
    .conv true (.int .dec), .space, .conv false .str, .space]

theorem parseFormat_mapsFormat : parseFormat none mapsFormat = mapsDirectives := by decide

theorem isspace_perms (p : Perms) : ∀ c ∈ p.text, isspace c = false := by
  have hall : p.text.all (!isspace ·) = true := by
    obtain ⟨r, w, x, s⟩ := p
    revert r w x s
    decide
  intro c hc
  simpa using List.all_eq_true.1 hall c hc

/-- The header is scanned into the fields of its mapping, whatever follows it. -/
theorem scan_header (m : Mapping) (rest : Text) :
    (scan mapsDirectives (m.header ++ rest)).items =
      [.int m.start.toNat, .int m.end_.toNat, .str m.perms.text] ++
        if firstWord rest = [] then [] else [.str (firstWord rest)] := by
  have hblank : ∀ c, (∃ t : Text, (' ' :: t).head? = some c) → isspace c = true := by
    rintro c ⟨t, hc⟩
    obtain rfl := Option.some.inj hc
    decide
  have hdec : ∀ c, (∃ t : Text, (' ' :: t).head? = some c) →
      Base.dec.isDigit c = false ∧ c ≠ 'x' ∧ c ≠ 'X' := by
    rintro c ⟨t, hc⟩
    obtain rfl := Option.some.inj hc
    decide
  have hhex : ∀ {width n : Nat}, ∀ c ∈ hexPad width n, isspace c = false := fun c hc =>
    isspace_of_isDigit (isDigit_hexPad c hc)
  have hword : (scan [.space, .conv false .str, .space] (' ' :: rest)).items =
      if firstWord rest = [] then [] else [.str (firstWord rest)] := by
    have hspace : ∀ c ∈ [' '], isspace c = true := by simp [isspace]
    have hskip : firstWord (' ' :: rest) = firstWord rest := firstWord_blank hspace rest
    rw [scan_space, items_scan_str_space, firstWord_dropWhile, hskip]
  rw [← hword]
  simp only [Mapping.header, mapsDirectives, List.append_assoc, List.cons_append, List.nil_append]
  rw [scan_hexPad _ _ _ _ _ (by decide), scan_lit, scan_hexPad _ _ _ _ _ (by decide),
    scan_blank _ _ (by simp [Perms.text]) (isspace_perms m.perms),
    scan_str _ _ (by simp [Perms.text]) (isspace_perms m.perms) (fun c hc => hblank c ⟨_, hc⟩),
    scan_blank _ _ hexPad_ne_nil hhex, scan_hexPad _ _ _ _ _ (by decide),
    scan_blank _ _ hexPad_ne_nil hhex, scan_hexPad _ _ _ _ _ (by decide), scan_lit,
    scan_hexPad _ _ _ _ _ (by decide),
    scan_blank _ _ numeral_ne_nil (fun c hc => isspace_of_isDigit (isDigit_of_mem_numeral hc)),
    scan_int _ _ numeral_ne_nil (fun c hc => isDigit_of_mem_numeral hc) (fun c hc => hdec c ⟨_, hc⟩)]
  rfl

theorem Mapping.not_mem_line {m : Mapping} {c : Char} (hhex : Base.hex.isDigit c = false)
    (hdec : Base.dec.isDigit c = false) (hsep : c ∉ [' ', '-', ':']) (hperms : ∀ p : Perms, c ∉ p.text)
    (hpath : c ∉ m.path) : c ∉ m.line := by
  have hhexPad : ∀ width n, c ∉ hexPad width n := fun width n hc => by
    rw [isDigit_hexPad c hc] at hhex
    cases hhex
  have hnumeral := not_mem_numeral (n := m.inode) hdec
  simp only [List.mem_cons, List.not_mem_nil, or_false, not_or] at hsep
  obtain ⟨hblank, hminus, hcolon⟩ := hsep
  have htail : c ∉ if m.path = [] then [] else List.replicate m.pad ' ' ++ m.path := by
    split
    · simp
    · simp [hblank, hpath]
  simp only [Mapping.line, List.mem_append, List.mem_cons, not_or]
  exact ⟨hhexPad _ _, hminus, hhexPad _ _, hblank, hperms _, hblank, hhexPad _ _, hblank,
    hhexPad _ _, hcolon, hhexPad _ _, hblank, hnumeral, hblank, htail⟩

theorem not_mem_perms : ∀ c ∈ ['\x00', '\n'], ∀ p : Perms, c ∉ p.text := by
  intro c hc p
  have hboth : '\x00' ∉ p.text ∧ '\n' ∉ p.text := by
    obtain ⟨r, w, x, s⟩ := p
    revert r w x s
    decide
  rcases List.mem_cons.1 hc with rfl | hc
  · exact hboth.1
  · exact List.mem_singleton.1 hc ▸ hboth.2

theorem ofInt_toNat (n : UInt64) : UInt64.ofInt (n.toNat : Int) = n := by
  have hlt := n.toNat_lt
  have hmod : (n.toNat : Int) % 2 ^ 64 = n.toNat := Int.emod_eq_of_lt (by omega) (by omega)
  rw [UInt64.ofInt, hmod, Int.toNat_natCast, UInt64.ofNat_toNat]

section readable
variable {m : Mapping} (hm : m.Readable)
include hm

theorem Mapping.Readable.newline_not_mem : '\n' ∉ m.line :=
  not_mem_line rfl rfl (by decide) (not_mem_perms _ (by decide)) fun hc =>
    absurd (hm.path _ hc).1 (by decide)

theorem Mapping.Readable.null_not_mem : '\x00' ∉ m.line :=
  not_mem_line rfl rfl (by decide) (not_mem_perms _ (by decide)) fun hc => (hm.path _ hc).2 rfl

/-- The path is what the first word of the rest of the line is. -/
theorem Mapping.Readable.firstWord_tail : firstWord (m.tail ++ ['\n']) = m.path := by
  rw [tail]
  split
  · rename_i hpath
    rw [hpath]
    rfl
  · rename_i hpath
    have hpad : ∀ c ∈ List.replicate m.pad ' ', isspace c = true := fun c hc => by
      rw [(List.mem_replicate.1 hc).2]
      decide
    have hend : ∀ c, ['\n'].head? = some c → isspace c = true := by
      rintro c hc
      obtain rfl := Option.some.inj hc
      decide
    rw [List.append_assoc, firstWord_blank hpad,
      firstWord_append (fun c hc => (hm.path c hc).1) hend hpath]

/-- A turn of the loop reads the fields of its line, whatever they were before. -/
theorem scanMapsLine_line (fields : MapsFields) :
    scanMapsLine fields (m.line ++ ['\n']) = (⟨m.start, m.end_, m.perms.text⟩, m.path) := by
  have hnull : '\x00' ∉ m.line ++ ['\n'] := by
    simp only [List.mem_append, not_or]
    exact ⟨hm.null_not_mem, by decide⟩
  have hitems : (sscanf (m.line ++ ['\n']) mapsFormat).items =
      [.int m.start.toNat, .int m.end_.toNat, .str m.perms.text] ++
        if m.path = [] then [] else [.str m.path] := by
    rw [sscanf, parseFormat_mapsFormat, cstring_eq hnull, m.line_eq, List.append_assoc,
      scan_header, hm.firstWord_tail]
  simp only [scanMapsLine, hitems]
  by_cases hpath : m.path = []
  · simp [storeInt, storeStr, ofInt_toNat, hpath]
  · simp [storeInt, storeStr, ofInt_toNat, hpath]

end readable

/-! ### The loop -/

/-- The build for aarch64 skips a mapping that is not executable before it looks at the path. -/
def Mapping.accepted (aarch64 : Bool) (moduleName : Text) (m : Mapping) : Bool :=
  (!aarch64 || m.perms.exec) && strstr m.path moduleName

theorem strstr_perms (p : Perms) : strstr p.text "x" = p.exec := by
  obtain ⟨r, w, x, s⟩ := p
  revert r w x s
  decide

/-- The loop returns the start of the first accepted mapping. -/
theorem findModule_lines (aarch64 : Bool) (moduleName : Text) (ms : List Mapping)
    (hms : ∀ m ∈ ms, m.Readable) (fields : MapsFields) :
    findModule aarch64 moduleName fields (ms.map fun m => m.line ++ ['\n']) =
      match ms.find? (Mapping.accepted aarch64 moduleName) with
      | some m => m.start
      | none => 0 := by
  induction ms generalizing fields with
  | nil => rfl
  | cons m ms ih =>
    have hrest := ih (fun n hn => hms n (by simp [hn])) ⟨m.start, m.end_, m.perms.text⟩
    rw [List.map_cons, findModule, scanMapsLine_line (hms m (by simp)), List.find?_cons]
    simp only [strstr_perms, hrest, Mapping.accepted]
    -- the tests of the turn, and of `accepted`, on these three
    cases aarch64 <;> cases m.perms.exec <;> cases strstr m.path moduleName <;> rfl

/-- **`get_module_base` returns the start of the first accepted mapping.** -/
theorem getModuleBase_maps (aarch64 : Bool) (flags moduleName : Text) (ms : List Mapping)
    (hms : ∀ m ∈ ms, m.Readable) :
    getModuleBase aarch64 flags (some (mapsText ms)) moduleName =
      match ms.find? (Mapping.accepted aarch64 moduleName) with
      | some m => m.start
      | none => 0 := by
  have hlines : ∀ l ∈ ms.map Mapping.line, '\n' ∉ l ∧ l.length + 1 < 1024 := by
    intro l hl
    obtain ⟨m, hm, rfl⟩ := List.mem_map.1 hl
    exact ⟨(hms m hm).newline_not_mem, (hms m hm).length⟩
  rw [getModuleBase, mapsText, fgetsLines_terminated (by decide) _ hlines, List.map_map]
  exact findModule_lines aarch64 moduleName ms hms _

/-! ### The two ways to the base -/

/-- The library is loaded at `base`: its mappings, among others, begin there and go up. -/
structure LoadedAt (ms : List Mapping) (moduleName : Text) (base : UInt64) (first : Mapping)
    (rest : List Mapping) : Prop where
  mappings : (ms.filter fun m => strstr m.path moduleName) = first :: rest
  start : first.start = base
  ascending : ∀ m ∈ rest, base < m.start
  ne_zero : base ≠ 0

theorem LoadedAt.getModuleBase_iff {ms : List Mapping} {moduleName : Text} {base : UInt64}
    {first : Mapping} {rest : List Mapping} (h : LoadedAt ms moduleName base first rest)
    (hms : ∀ m ∈ ms, m.Readable) (aarch64 : Bool) (flags : Text) :
    getModuleBase aarch64 flags (some (mapsText ms)) moduleName = base ↔
      (aarch64 = true → first.perms.exec = true) := by
  have hfind : ms.find? (Mapping.accepted aarch64 moduleName) =
      (first :: rest).find? fun m => !aarch64 || m.perms.exec := by
    rw [← h.mappings, List.find?_filter]
    congr 1
    funext m
    cases hpath : strstr m.path moduleName <;> simp [Mapping.accepted, hpath]
  rw [getModuleBase_maps aarch64 flags moduleName ms hms, hfind, List.find?_cons]
  cases hfirst : (!aarch64 || first.perms.exec)
  · -- the first segment is skipped, and every other answer is another address
    obtain ⟨haarch64, hexec⟩ : aarch64 = true ∧ first.perms.exec = false := by simpa using hfirst
    refine iff_of_false (fun hbase => ?_) (by simp [haarch64, hexec])
    rcases hrest : rest.find? fun m => !aarch64 || m.perms.exec with _ | m
    · rw [hrest] at hbase
      exact h.ne_zero hbase.symm
    · rw [hrest] at hbase
      have hstart : m.start = base := hbase
      have hlt := h.ascending m (List.mem_of_find?_eq_some hrest)
      rw [hstart] at hlt
      exact absurd hlt (UInt64.lt_irrefl base)
  · refine iff_of_true h.start fun haarch64 => ?_
    simpa [haarch64] using hfirst

variable {H : Handles}

/-- **Both ways give the base, and `dump_method` the same addresses, exactly if the segment at the base
is executable or the build is not for aarch64.** -/
theorem base_from_maps_iff (process : Process H) (ms : List Mapping) (hms : ∀ m ∈ ms, m.Readable)
    (hmaps : process.maps = some (mapsText ms)) (base : UInt64) (first : Mapping)
    (rest : List Mapping) (hloaded : LoadedAt ms "libil2cpp.so" base first rest) :
    (getModuleBase process.aarch64 process.flags process.maps "libil2cpp.so" = base ∧
      { process with dladdr := none }.il2cppBase = { process with dladdr := some base }.il2cppBase ∧
      ∀ (il2cpp : Il2cppApi H) (klass : H.Il2CppClass),
        dumpMethod il2cpp { process with dladdr := none }.il2cppBase klass =
          dumpMethod il2cpp { process with dladdr := some base }.il2cppBase klass) ↔
      (process.aarch64 = true → first.perms.exec = true) := by
  rw [← hloaded.getModuleBase_iff hms process.aarch64 process.flags, ← hmaps]
  constructor
  · rintro ⟨hbase, -, -⟩
    exact hbase
  · intro hbase
    have hsame : { process with dladdr := none }.il2cppBase =
        { process with dladdr := some base }.il2cppBase := hbase
    exact ⟨hbase, hsame, fun il2cpp klass => by rw [hsame]⟩

/-- A mapping of `/lib/libil2cpp.so`. -/
def segment (start : UInt64) (exec : Bool) : Mapping where
  start := start
  end_ := start + 0x1000
  perms := { read := true, write := false, exec, shared := false }
  offset := 0
  major := 0xfd
  minor := 1
  inode := 7
  pad := 3
  path := "/lib/libil2cpp.so"

/-- A process whose maps are two segments of the library, the second executable. -/
def twoSegments (exec : Bool) : Process .numbered :=
  { processOf .blank with
    maps := some (mapsText [segment 0x1000 exec, segment 0x2000 true])
    aarch64 := true }

theorem segments_readable (exec : Bool) :
    ∀ m ∈ [segment 0x1000 exec, segment 0x2000 true], m.Readable := by
  cases exec <;> decide

theorem segments_loadedAt (exec : Bool) :
    LoadedAt [segment 0x1000 exec, segment 0x2000 true] "libil2cpp.so" 0x1000 (segment 0x1000 exec)
      [segment 0x2000 true] :=
  ⟨by cases exec <;> decide, rfl, by decide, by decide⟩

theorem base_from_maps_twoSegments :
    (getModuleBase true [] (twoSegments true).maps "libil2cpp.so" = 0x1000 ∧
      { twoSegments true with dladdr := none }.il2cppBase =
        { twoSegments true with dladdr := some 0x1000 }.il2cppBase ∧
      ∀ (il2cpp : Il2cppApi .numbered) (klass : Nat),
        dumpMethod il2cpp { twoSegments true with dladdr := none }.il2cppBase klass =
          dumpMethod il2cpp { twoSegments true with dladdr := some 0x1000 }.il2cppBase klass) ↔
      (true = true → true = true) :=
  base_from_maps_iff (twoSegments true) _ (segments_readable true) rfl 0x1000 _ _
    (segments_loadedAt true)

/-- With a first segment that is not executable the answer is the start of the second. -/
theorem twoSegments_misplaced :
    (∀ m ∈ [segment 0x1000 false, segment 0x2000 true], m.Readable) ∧
      LoadedAt [segment 0x1000 false, segment 0x2000 true] "libil2cpp.so" 0x1000
        (segment 0x1000 false) [segment 0x2000 true] ∧
      getModuleBase true [] (twoSegments false).maps "libil2cpp.so" = 0x2000 ∧
      { twoSegments false with dladdr := none }.il2cppBase ≠
        { twoSegments false with dladdr := some 0x1000 }.il2cppBase := by
  have hanswer : getModuleBase true [] (twoSegments false).maps "libil2cpp.so" = 0x2000 :=
    (getModuleBase_maps true [] "libil2cpp.so" _ (segments_readable false)).trans (by decide)
  refine ⟨segments_readable false, segments_loadedAt false, hanswer, fun hsame => ?_⟩
  have hbase : getModuleBase true [] (twoSegments false).maps "libil2cpp.so" = 0x1000 := hsame
  rw [hanswer] at hbase
  exact absurd hbase (by decide)

end Il2CppDumper
