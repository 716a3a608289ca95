import Il2CppDumper.Clib.Numeral
import Mathlib.Data.List.TakeWhile

/-!
# `fgets` and `sscanf`

A format is parsed into directives (`parseFormat`) and the directives are run on the text (`scan`).
A conversion that is reached stores its item in the next argument; the scan stops at the first
directive that does not match, and the arguments from there on keep what they had.

Every directive has its rule on matching text (`scan_lit`, `scan_space`, `scan_int`, `scan_str`), so
that a line in a known layout is scanned by rewriting, one directive after the other.
-/

namespace Clib

/-! ### Directives -/

/-- What a conversion takes: an integer, a run without white space, or a run without one character. -/
inductive Kind where
  | int (b : Base)
  | str
  | except (c : Char)
  deriving DecidableEq, Repr

inductive Directive where
  | space
  | lit (c : Char)
  | conv (suppress : Bool) (kind : Kind)
  deriving DecidableEq, Repr

/-- The directives of a format; `spec` is set between a `%` and its conversion, to whether a `*` has
been seen. -/
def parseFormat (spec : Option Bool) : Text → List Directive
  | [] => []
  | '[' :: '^' :: c :: ']' :: format =>
    match spec with
    | some suppress => .conv suppress (.except c) :: parseFormat none format
    | none => .lit '[' :: .lit '^' :: .lit c :: .lit ']' :: parseFormat none format
  | c :: format =>
    match spec with
    | some suppress =>
      if c = '*' then parseFormat (some true) format
      else if c = 'l' then parseFormat (some suppress) format
      else if c = 'x' then .conv suppress (.int .hex) :: parseFormat none format
      else if c = 'd' ∨ c = 'u' then .conv suppress (.int .dec) :: parseFormat none format
      else if c = 's' then .conv suppress .str :: parseFormat none format
      else []
    | none =>
      if c = '%' then parseFormat (some false) format
      else if isspace c then .space :: parseFormat none format
      else .lit c :: parseFormat none format

/-! ### Conversions -/

/-- What a conversion stores. -/
inductive Item where
  | int (n : Int)
  | str (t : Text)
  deriving DecidableEq, Repr

/-- Why a scan stops: the text is used up, or it does not match. -/
inductive Stop where
  | input
  | matching
  deriving DecidableEq, Repr

/-- The text after an optional sign. -/
def dropSign : Text → Text
  | '+' :: t => t
  | '-' :: t => t
  | t => t

/-- The text after an optional `0x`. -/
def dropRadix : Base → Text → Text
  | .hex, '0' :: 'x' :: t => t
  | .hex, '0' :: 'X' :: t => t
  | _, t => t

def scanInt (b : Base) (t : Text) : Except Stop (Item × Text) :=
  let digits := dropRadix b (dropSign t)
  let n := ofNumeral b (digits.takeWhile b.isDigit)
  if t = [] then .error .input
  else if digits.takeWhile b.isDigit = [] then .error .matching
  else .ok (.int (if t.head? = some '-' then -n else n), digits.dropWhile b.isDigit)

def Kind.run : Kind → Text → Except Stop (Item × Text)
  | .int b, t => scanInt b (t.dropWhile isspace)
  | .str, t =>
    let t := t.dropWhile isspace
    if t = [] then .error .input
    else .ok (.str (t.takeWhile (!isspace ·)), t.dropWhile (!isspace ·))
  | .except c, t =>
    if t = [] then .error .input
    else if t.takeWhile (· ≠ c) = [] then .error .matching
    else .ok (.str (t.takeWhile (· ≠ c)), t.dropWhile (· ≠ c))

/-- The outcome of a scan: what is stored in the arguments, whether any conversion was completed, and
what stopped it before the end of the format. -/
structure Scan where
  items : List Item
  converted : Bool
  stop : Option Stop
  deriving DecidableEq, Repr

/-- The scan from its second directive on, after a conversion. -/
def Scan.store (suppress : Bool) (item : Item) (s : Scan) : Scan where
  items := if suppress then s.items else item :: s.items
  converted := true
  stop := s.stop

def scan : List Directive → Text → Scan
  | [], _ => ⟨[], false, none⟩
  | .space :: ds, t => scan ds (t.dropWhile isspace)
  | .lit _ :: _, [] => ⟨[], false, some .input⟩
  | .lit c :: ds, d :: t => if d = c then scan ds t else ⟨[], false, some .matching⟩
  | .conv suppress kind :: ds, t =>
    match kind.run t with
    | .ok (item, t) => (scan ds t).store suppress item
    | .error stop => ⟨[], false, some stop⟩

/-- A string ends at its first null character. -/
def cstring (t : Text) : Text := t.takeWhile (· ≠ '\x00')

theorem cstring_eq {t : Text} (h : '\x00' ∉ t) : cstring t = t :=
  takeWhile_ne_eq_self h

def sscanf (input format : Text) : Scan := scan (parseFormat none format) (cstring input)

/-- The value that `sscanf` returns: the number of arguments stored, or `EOF`. -/
def Scan.result (s : Scan) : Int :=
  if s.stop = some .input ∧ s.converted = false then -1 else s.items.length

/-! ### What is stored -/

/-- An integer argument of `sscanf` after the call: the item stored there, or what it was. A number out
of range wraps here; C leaves that undefined, and libraries store the largest number. -/
def storeInt (old : UInt64) : Option Item → UInt64
  | some (.int n) => UInt64.ofInt n
  | _ => old

/-- A string argument of `sscanf` after the call. -/
def storeStr (old : Text) : Option Item → Text
  | some (.str t) => t
  | _ => old

def Item.isStr : Item → Bool
  | .int _ => false
  | .str _ => true

def Kind.isStr : Kind → Bool
  | .int _ => false
  | .str => true
  | .except _ => true

/-- The kinds of the arguments that a format stores. -/
def stored : List Directive → List Bool
  | [] => []
  | .conv false kind :: ds => kind.isStr :: stored ds
  | _ :: ds => stored ds

theorem Kind.isStr_of_run {kind : Kind} {t rest : Text} {item : Item}
    (h : kind.run t = .ok (item, rest)) : item.isStr = kind.isStr := by
  cases kind with
  | int b =>
    simp only [run, scanInt] at h
    split_ifs at h
    all_goals
      obtain ⟨rfl, -⟩ := Prod.mk.inj (Except.ok.inj h)
      rfl
  | str =>
    simp only [run] at h
    split_ifs at h
    obtain ⟨rfl, -⟩ := Prod.mk.inj (Except.ok.inj h)
    rfl
  | except c =>
    simp only [run] at h
    split_ifs at h
    obtain ⟨rfl, -⟩ := Prod.mk.inj (Except.ok.inj h)
    rfl

/-- The items are stored in order, and each is of the kind its conversion asks for. -/
theorem scan_isStr (ds : List Directive) (t : Text) :
    (scan ds t).items.map Item.isStr <+: stored ds := by
  induction ds, t using scan.induct with
  | case1 t => simp [scan, stored]
  | case2 ds t ih => simpa [scan, stored] using ih
  | case3 c ds => simp [scan]
  | case4 ds d t ih => simpa [scan, stored] using ih
  | case5 c ds d t hne => rw [scan, if_neg hne]; simp
  | case6 suppress kind ds t item rest hrun ih =>
    rw [scan, hrun]
    cases suppress with
    | true => simpa [Scan.store, stored] using ih
    | false => simpa [Scan.store, stored, Kind.isStr_of_run hrun] using ih
  | case7 suppress kind ds t stop hrun => rw [scan, hrun]; simp

theorem Scan.length_items {s : Scan} {k : Nat} (h : s.result = k) : s.items.length = k := by
  rw [result] at h
  split_ifs at h
  exact Int.ofNat.inj h

/-- A result that counts a string conversion says that its argument was stored. -/
theorem sscanf_str_of_result {input format : Text} {k : Nat}
    (hresult : (sscanf input format).result = (k + 1 : Nat))
    (hkind : (stored (parseFormat none format))[k]? = some true) :
    ∃ t, (sscanf input format).items[k]? = some (.str t) := by
  obtain ⟨item, hitem⟩ : ∃ item, (sscanf input format).items[k]? = some item :=
    ⟨_, List.getElem?_eq_getElem (by rw [Scan.length_items hresult]; omega)⟩
  have hkinds : ((sscanf input format).items.map Item.isStr)[k]? = some item.isStr := by
    rw [List.getElem?_map, hitem]
    rfl
  obtain ⟨later, hlater⟩ := scan_isStr (parseFormat none format) (cstring input)
  have hsame : some item.isStr = some true := by
    rw [← hkind, ← hlater, ← hkinds]
    exact (List.getElem?_append_left (List.getElem?_eq_some_iff.1 hkinds).1).symm
  cases item with
  | int n => cases hsame
  | str t => exact ⟨t, hitem⟩

/-! ### Scanning text that matches -/

section scan
variable (ds : List Directive) {t rest : Text}

@[simp] theorem scan_lit (c : Char) : scan (.lit c :: ds) (c :: t) = scan ds t := by
  rw [scan, if_pos rfl]

@[simp] theorem scan_space : scan (.space :: ds) t = scan ds (t.dropWhile isspace) := by
  rw [scan]

theorem dropWhile_isspace (h : ∀ c, t.head? = some c → isspace c = false) :
    t.dropWhile isspace = t := by
  cases t with
  | nil => rfl
  | cons c t => exact List.dropWhile_cons_of_neg (by simp [h c rfl])

theorem isspace_of_isDigit {b : Base} {c : Char} (h : b.isDigit c = true) : isspace c = false := by
  by_contra hspace
  have hmem : c ∈ [' ', '\t', '\n', '\x0b', '\x0c', '\x0d'] := by
    simp only [isspace, Bool.not_eq_false, Bool.or_eq_true, decide_eq_true_eq] at hspace
    simpa [or_assoc] using hspace
  have hno : [' ', '\t', '\n', '\x0b', '\x0c', '\x0d'].all (!b.isDigit ·) = true := by
    cases b <;> decide
  have hc := List.all_eq_true.1 hno c hmem
  rw [h] at hc
  cases hc

/-- What stands around digits is no digit. -/
theorem not_isDigit (b : Base) : b.isDigit '+' = false ∧ b.isDigit '-' = false ∧
    b.isDigit 'x' = false ∧ b.isDigit 'X' = false := by
  cases b <;> decide

theorem dropSign_of_isDigit {b : Base} {c : Char} (hc : b.isDigit c = true) (t : Text) :
    dropSign (c :: t) = c :: t := by
  unfold dropSign
  split
  · rename_i heq
    obtain ⟨rfl, -⟩ := List.cons_eq_cons.1 heq
    simp [(not_isDigit b).1] at hc
  · rename_i heq
    obtain ⟨rfl, -⟩ := List.cons_eq_cons.1 heq
    simp [(not_isDigit b).2.1] at hc
  · rfl

theorem dropRadix_of_ne {b : Base} {c : Char}
    (ht : ∀ x, t.head? = some x → x ≠ 'x' ∧ x ≠ 'X') : dropRadix b (c :: t) = c :: t := by
  unfold dropRadix
  split
  · rename_i heq
    obtain ⟨-, rfl⟩ := List.cons_eq_cons.1 heq
    exact absurd rfl (ht _ rfl).1
  · rename_i heq
    obtain ⟨-, rfl⟩ := List.cons_eq_cons.1 heq
    exact absurd rfl (ht _ rfl).2
  · rfl

/-- Digits without a sign and without a `0x` are read up to the first character that is no digit. -/
theorem scanInt_digits {b : Base} {digits : Text} (hne : digits ≠ [])
    (hdigits : ∀ c ∈ digits, b.isDigit c = true)
    (hrest : ∀ c, rest.head? = some c → b.isDigit c = false ∧ c ≠ 'x' ∧ c ≠ 'X') :
    scanInt b (digits ++ rest) = .ok (.int (ofNumeral b digits), rest) := by
  have htake := takeWhile_append_boundary hdigits fun c hc => (hrest c hc).1
  have hdrop := dropWhile_append_boundary hdigits fun c hc => (hrest c hc).1
  obtain ⟨d, ds, rfl⟩ := List.exists_cons_of_ne_nil hne
  have hd := hdigits d List.mem_cons_self
  have hnext : ∀ x, (ds ++ rest).head? = some x → x ≠ 'x' ∧ x ≠ 'X' := by
    intro x hx
    cases ds with
    | nil => exact (hrest x hx).2
    | cons e ds =>
      obtain rfl := Option.some.inj hx
      have he := hdigits e (by simp)
      constructor
      · rintro rfl
        simp [(not_isDigit b).2.2.1] at he
      · rintro rfl
        simp [(not_isDigit b).2.2.2] at he
  have hminus : ((d :: ds) ++ rest).head? ≠ some '-' := by
    intro hminus
    obtain rfl := Option.some.inj hminus
    simp [(not_isDigit b).2.1] at hd
  have hsign : dropSign ((d :: ds) ++ rest) = (d :: ds) ++ rest := dropSign_of_isDigit hd _
  have hradix : dropRadix b ((d :: ds) ++ rest) = (d :: ds) ++ rest := dropRadix_of_ne hnext
  have hnonempty : (d :: ds) ++ rest ≠ [] := List.cons_ne_nil d (ds ++ rest)
  simp only [scanInt, hsign, hradix, htake, hdrop]
  rw [if_neg hnonempty, if_neg hne, if_neg hminus]

theorem scan_int (suppress : Bool) {b : Base} {digits : Text} (hne : digits ≠ [])
    (hdigits : ∀ c ∈ digits, b.isDigit c = true)
    (hrest : ∀ c, rest.head? = some c → b.isDigit c = false ∧ c ≠ 'x' ∧ c ≠ 'X') :
    scan (.conv suppress (.int b) :: ds) (digits ++ rest) =
      (scan ds rest).store suppress (.int (ofNumeral b digits)) := by
  have hspace : (digits ++ rest).dropWhile isspace = digits ++ rest := by
    refine dropWhile_isspace fun c hc => ?_
    cases digits with
    | nil => exact absurd rfl hne
    | cons d digits =>
      obtain rfl := Option.some.inj hc
      exact isspace_of_isDigit (hdigits d (by simp))
  rw [scan, Kind.run, hspace, scanInt_digits hne hdigits hrest]

theorem scan_str (suppress : Bool) {w : Text} (hne : w ≠ [])
    (hw : ∀ c ∈ w, isspace c = false) (hrest : ∀ c, rest.head? = some c → isspace c = true) :
    scan (.conv suppress .str :: ds) (w ++ rest) = (scan ds rest).store suppress (.str w) := by
  have hspace : (w ++ rest).dropWhile isspace = w ++ rest := by
    refine dropWhile_isspace fun c hc => ?_
    cases w with
    | nil => exact absurd rfl hne
    | cons d w =>
      obtain rfl := Option.some.inj hc
      exact hw d (by simp)
  have hinside : ∀ c ∈ w, (!isspace c) = true := fun c hc => by simp [hw c hc]
  have hboundary : ∀ c, rest.head? = some c → (!isspace c) = false := fun c hc => by
    simp [hrest c hc]
  rw [scan, Kind.run]
  simp only [hspace]
  rw [if_neg (by simp [hne]), takeWhile_append_boundary hinside hboundary,
    dropWhile_append_boundary hinside hboundary]

end scan

/-! ### The first word -/

/-- The first run of characters that are no white space. -/
def firstWord (t : Text) : Text := (t.dropWhile isspace).takeWhile (!isspace ·)

theorem isspace_firstWord (t : Text) : ∀ c ∈ firstWord t, isspace c = false := fun c hc => by
  simpa using List.mem_takeWhile_imp hc

theorem firstWord_blank {blank : Text} (hblank : ∀ c ∈ blank, isspace c = true) (t : Text) :
    firstWord (blank ++ t) = firstWord t := by
  rw [firstWord, List.dropWhile_append_of_pos hblank, firstWord]

@[simp] theorem firstWord_dropWhile (t : Text) : firstWord (t.dropWhile isspace) = firstWord t := by
  have hblank : ∀ c ∈ t.takeWhile isspace, isspace c = true := fun c hc => List.mem_takeWhile_imp hc
  rw [← firstWord_blank hblank, List.takeWhile_append_dropWhile]

theorem firstWord_append {w rest : Text} (hw : ∀ c ∈ w, isspace c = false)
    (hrest : ∀ c, rest.head? = some c → isspace c = true) (hne : w ≠ []) :
    firstWord (w ++ rest) = w := by
  have hhead : ∀ c, (w ++ rest).head? = some c → isspace c = false := by
    intro c hc
    cases w with
    | nil => exact absurd rfl hne
    | cons d w =>
      obtain rfl := Option.some.inj hc
      exact hw d (by simp)
  rw [firstWord, dropWhile_isspace hhead]
  exact takeWhile_append_boundary (fun c hc => by simp [hw c hc]) fun c hc => by simp [hrest c hc]

/-- A string conversion before white space at the end of a format stores the first word, if there is
one. -/
theorem items_scan_str_space (t : Text) :
    (scan [.conv false .str, .space] t).items =
      if firstWord t = [] then [] else [.str (firstWord t)] := by
  rw [scan, Kind.run]
  by_cases hnil : t.dropWhile isspace = []
  · have hword : firstWord t = [] := by rw [firstWord, hnil]; rfl
    simp only [hnil, if_true, hword]
  · have hword : firstWord t ≠ [] := by
      have hhead := List.head?_dropWhile_not isspace t
      rw [firstWord]
      cases hdrop : t.dropWhile isspace with
      | nil => exact absurd hdrop hnil
      | cons c rest =>
        rw [hdrop] at hhead
        have hc : (!isspace c) = true := by simpa using hhead
        have htake : (c :: rest).takeWhile (!isspace ·) = c :: rest.takeWhile (!isspace ·) :=
          List.takeWhile_cons_of_pos hc
        rw [htake]
        exact List.cons_ne_nil _ _
    rw [if_neg hword]
    simp only [hnil, if_false]
    rfl

/-! ### Lines of a stream -/

/-- The text up to and with its first newline, or its first `room` characters, and the rest. -/
def takeLine : Nat → Text → Text × Text
  | 0, t => ([], t)
  | _, [] => ([], [])
  | room + 1, c :: t =>
    if c = '\n' then ([c], t) else ((c :: (takeLine room t).1), (takeLine room t).2)

/-- `fgets(line, size, stream)`: nothing at the end of the stream. -/
def fgets (size : Nat) (stream : Text) : Option (Text × Text) :=
  if stream = [] then none else some (takeLine (size - 1) stream)

/-- What one `fgets` after the other delivers, `fuel` of them at most. -/
def fgetsAll (size : Nat) : Nat → Text → List Text
  | 0, _ => []
  | fuel + 1, stream =>
    match fgets size stream with
    | some (line, rest) => line :: fgetsAll size fuel rest
    | none => []

/-- The lines that `fgets` delivers until the end of the stream: each takes a character at least. -/
def fgetsLines (size : Nat) (stream : Text) : List Text := fgetsAll size stream.length stream

theorem takeLine_append (room : Nat) (t : Text) : (takeLine room t).1 ++ (takeLine room t).2 = t := by
  induction t generalizing room with
  | nil => cases room <;> rfl
  | cons c t ih =>
    cases room with
    | zero => rfl
    | succ room =>
      rw [takeLine]
      split
      · rfl
      · rw [List.cons_append, ih]

section fgets
variable {size : Nat} (hsize : 2 ≤ size)
include hsize

theorem fgets_cons (c : Char) (t : Text) :
    ∃ line rest, fgets size (c :: t) = some (line, rest) ∧ line ++ rest = c :: t ∧
      rest.length ≤ t.length := by
  have happend := takeLine_append (size - 1) (c :: t)
  refine ⟨_, _, if_neg (by simp), happend, ?_⟩
  have hne : (takeLine (size - 1) (c :: t)).1 ≠ [] := by
    obtain ⟨room, hroom⟩ : ∃ room, size - 1 = room + 1 := ⟨size - 2, by omega⟩
    rw [hroom, takeLine]
    split <;> simp
  have hpos := List.length_pos_iff.2 hne
  have hlength := congrArg List.length happend
  rw [List.length_append, List.length_cons] at hlength
  omega

theorem fgetsAll_of_le {fuel : Nat} {stream : Text} (hfuel : stream.length ≤ fuel) :
    fgetsAll size fuel stream = fgetsLines size stream := by
  induction fuel using Nat.strongRecOn generalizing stream with
  | ind fuel ih =>
    cases stream with
    | nil => cases fuel <;> rfl
    | cons c t =>
      obtain ⟨fuel, rfl⟩ : ∃ k, fuel = k + 1 := ⟨fuel - 1, by simp at hfuel; omega⟩
      obtain ⟨line, rest, hline, -, hlength⟩ := fgets_cons hsize c t
      have hfuel : t.length ≤ fuel := by simpa using hfuel
      rw [fgetsLines, List.length_cons, fgetsAll, fgetsAll, hline]
      simp only [List.cons.injEq, true_and]
      rw [ih fuel (by omega) (Nat.le_trans hlength hfuel)]
      rcases Nat.lt_or_ge t.length (fuel + 1) with hlt | hge
      · exact (ih t.length hlt hlength).symm
      · omega

theorem fgetsLines_cons {stream line rest : Text} (h : fgets size stream = some (line, rest)) :
    fgetsLines size stream = line :: fgetsLines size rest := by
  cases stream with
  | nil => exact absurd h (by simp [fgets])
  | cons c t =>
    obtain ⟨line', rest', hline, -, hlength⟩ := fgets_cons hsize c t
    obtain ⟨rfl, rfl⟩ := Prod.mk.inj (Option.some.inj (h.symm.trans hline))
    rw [fgetsLines, List.length_cons, fgetsAll, h]
    simp only
    rw [fgetsAll_of_le hsize hlength]

end fgets

theorem takeLine_line {l : Text} (hl : '\n' ∉ l) (room : Nat) (rest : Text) :
    takeLine room (l ++ '\n' :: rest) =
      if l.length < room then (l ++ ['\n'], rest) else (l.take room, l.drop room ++ '\n' :: rest) := by
  induction l generalizing room with
  | nil =>
    cases room with
    | zero => rfl
    | succ room =>
      have hroom : ([] : Text).length < room + 1 := Nat.succ_pos room
      rw [List.nil_append, takeLine, if_pos rfl, if_pos hroom]
      rfl
  | cons c l ih =>
    obtain ⟨hc, hl⟩ : '\n' ≠ c ∧ '\n' ∉ l := by simpa using hl
    cases room with
    | zero => rfl
    | succ room =>
      rw [List.cons_append, takeLine, if_neg hc.symm, ih hl]
      simp only [List.length_cons, Nat.add_lt_add_iff_right]
      split_ifs <;> rfl

theorem fgets_line {size : Nat} {l : Text} (hl : '\n' ∉ l) (hlength : l.length + 1 < size)
    (rest : Text) : fgets size (l ++ '\n' :: rest) = some (l ++ ['\n'], rest) := by
  rw [fgets, if_neg (by simp), takeLine_line hl, if_pos (by omega)]

/-- Lines that fit in the buffer are delivered one by one. -/
theorem fgetsLines_terminated {size : Nat} (hsize : 2 ≤ size) (ls : List Text)
    (hls : ∀ l ∈ ls, '\n' ∉ l ∧ l.length + 1 < size) :
    fgetsLines size (terminated '\n' ls) = ls.map (· ++ ['\n']) := by
  induction ls with
  | nil => rfl
  | cons l ls ih =>
    obtain ⟨hl, hlength⟩ := hls l (by simp)
    rw [terminated_cons, fgetsLines_cons hsize (fgets_line hl hlength _),
      ih fun m hm => hls m (by simp [hm]), List.map_cons]

/-- A line is delivered in pieces, and the next one starts with a piece of its own. -/
theorem fgetsLines_line {size : Nat} (hsize : 2 ≤ size) {l : Text} (hl : '\n' ∉ l) (rest : Text) :
    fgetsLines size (l ++ '\n' :: rest) =
      fgetsLines size (l ++ ['\n']) ++ fgetsLines size rest := by
  induction hlength : l.length using Nat.strongRecOn generalizing l with
  | ind n ih =>
    subst hlength
    have hgets : ∀ rest, fgets size (l ++ '\n' :: rest) =
        some (takeLine (size - 1) (l ++ '\n' :: rest)) := fun rest => if_neg (by simp)
    by_cases hfits : l.length < size - 1
    · have hline : ∀ rest, fgets size (l ++ '\n' :: rest) = some (l ++ ['\n'], rest) := fun rest => by
        rw [hgets, takeLine_line hl, if_pos hfits]
      rw [fgetsLines_cons hsize (hline rest), fgetsLines_cons hsize (hline [])]
      rfl
    · -- the rest of the line is a line again, and a shorter one
      have hpiece : ∀ rest, fgets size (l ++ '\n' :: rest) =
          some (l.take (size - 1), l.drop (size - 1) ++ '\n' :: rest) := fun rest => by
        rw [hgets, takeLine_line hl, if_neg hfits]
      have hdrop : '\n' ∉ l.drop (size - 1) := fun h => hl (List.mem_of_mem_drop h)
      rw [fgetsLines_cons hsize (hpiece rest), fgetsLines_cons hsize (hpiece []),
        ih (l.drop (size - 1)).length (by rw [List.length_drop]; omega) hdrop rfl]
      rfl

/-- The first piece of a line. -/
theorem fgetsLines_piece {size : Nat} (hsize : 2 ≤ size) {l : Text} (hl : '\n' ∉ l) :
    fgetsLines size (l ++ ['\n']) =
      (l ++ ['\n']).take (size - 1) :: fgetsLines size ((l ++ ['\n']).drop (size - 1)) := by
  have hgets : fgets size (l ++ ['\n']) =
      some ((l ++ ['\n']).take (size - 1), (l ++ ['\n']).drop (size - 1)) := by
    rw [fgets, if_neg (by simp), takeLine_line hl]
    split_ifs with hfits
    · have hle : (l ++ ['\n']).length ≤ size - 1 := by simpa using Nat.succ_le_of_lt hfits
      rw [List.take_of_length_le hle, List.drop_of_length_le hle]
    · rw [List.take_append_of_le_length (by omega), List.drop_append_of_le_length (by omega)]
  exact fgetsLines_cons hsize hgets

theorem length_takeLine_le (room : Nat) (t : Text) : (takeLine room t).1.length ≤ room := by
  induction t generalizing room with
  | nil => cases room <;> exact Nat.zero_le _
  | cons c t ih =>
    cases room with
    | zero => exact Nat.zero_le _
    | succ room =>
      rw [takeLine]
      split
      · simp
      · exact Nat.succ_le_succ (ih room)

/-- Induction along what `fgets` delivers of a stream. -/
theorem fgetsLines_induction {size : Nat} (hsize : 2 ≤ size) {motive : Text → List Text → Prop}
    (nil : motive [] [])
    (cons : ∀ stream line rest, fgets size stream = some (line, rest) → line ++ rest = stream →
      motive rest (fgetsLines size rest) → motive stream (line :: fgetsLines size rest))
    (stream : Text) : motive stream (fgetsLines size stream) := by
  induction hlength : stream.length using Nat.strongRecOn generalizing stream with
  | ind n ih =>
    subst hlength
    cases stream with
    | nil => exact nil
    | cons c t =>
      obtain ⟨line, rest, hline, happend, hrest⟩ := fgets_cons hsize c t
      rw [fgetsLines_cons hsize hline]
      exact cons _ line rest hline happend (ih rest.length (Nat.lt_succ_of_le hrest) rest rfl)

/-- A piece fits in the buffer. -/
theorem length_le_of_mem_fgetsLines {size : Nat} (hsize : 2 ≤ size) (stream : Text) :
    ∀ line ∈ fgetsLines size stream, line.length ≤ size - 1 := by
  induction stream using fgetsLines_induction hsize with
  | nil =>
    intro line hline
    cases hline
  | cons stream line rest hline happend ih =>
    intro l hl
    rcases List.mem_cons.1 hl with rfl | hl
    · rw [fgets] at hline
      split_ifs at hline
      have htake : (takeLine (size - 1) stream).1 = l := by
        rw [Option.some.inj hline]
      rw [← htake]
      exact length_takeLine_le _ _
    · exact ih l hl

end Clib
