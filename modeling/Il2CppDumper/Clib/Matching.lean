import Il2CppDumper.Clib.Scanf

/-!
# Texts that match a format

A scan completes (`Completes`) when every directive of the format matches. Each directive has its rule
on any text (`completes_lit`, `completes_conv` with `Kind.run_int`, `Kind.run_except` and
`Kind.run_str`), so a format is rewritten into the shape of the texts that match it.

A format whose last directive stores an item has stored as many as it asks for exactly if the scan
completes: that is what a test of the result of `sscanf` asks (`sscanf_result_iff`). The same goes for the
beginning of a format, up to the conversion that stores an item (`getElem?_items_iff`).
-/

namespace Clib

/-! ### Words and blanks -/

def IsBlank (t : Text) : Prop := ∀ c ∈ t, isspace c = true

theorem isBlank_nil : IsBlank [] := fun c hc => by cases hc

/-- Where no white space stands there are no blanks. -/
theorem IsBlank.eq_nil {t : Text} (h : IsBlank t) (ht : ∀ c ∈ t, isspace c = false) : t = [] := by
  rw [List.eq_nil_iff_forall_not_mem]
  intro c hc
  have hspace := h c hc
  rw [ht c hc] at hspace
  cases hspace

/-- A text that a string conversion takes whole. -/
structure IsWord (t : Text) : Prop where
  ne_nil : t ≠ []
  isspace : ∀ c ∈ t, isspace c = false

/-- The text does not go on with a character of this kind. -/
def EndsAt (p : Char → Bool) (rest : Text) : Prop := ∀ c, rest.head? = some c → p c = false

@[simp] theorem endsAt_cons {p : Char → Bool} {c : Char} {rest : Text} :
    EndsAt p (c :: rest) ↔ p c = false := by
  simp [EndsAt]

theorem takeWhile_dropWhile_iff {p : Char → Bool} {t l rest : Text} :
    t.takeWhile p = l ∧ t.dropWhile p = rest ↔
      t = l ++ rest ∧ (∀ c ∈ l, p c = true) ∧ EndsAt p rest := by
  constructor
  · rintro ⟨rfl, rfl⟩
    refine ⟨(List.takeWhile_append_dropWhile).symm, fun c hc => List.mem_takeWhile_imp hc, ?_⟩
    intro c hc
    have hhead := List.head?_dropWhile_not p t
    rw [hc] at hhead
    simpa using hhead
  · rintro ⟨rfl, hl, hrest⟩
    exact ⟨takeWhile_append_boundary hl hrest, dropWhile_append_boundary hl hrest⟩

/-- A text comes apart into its blanks and what follows them. -/
theorem dropWhile_isspace_iff {t rest : Text} :
    t.dropWhile isspace = rest ↔
      ∃ blank, t = blank ++ rest ∧ IsBlank blank ∧ EndsAt isspace rest := by
  constructor
  · intro h
    exact ⟨_, takeWhile_dropWhile_iff.1 ⟨rfl, h⟩⟩
  · rintro ⟨blank, h⟩
    exact (takeWhile_dropWhile_iff.2 h).2

theorem IsWord.endsAt {w : Text} (hw : IsWord w) (rest : Text) : EndsAt Clib.isspace (w ++ rest) := by
  intro c hc
  cases w with
  | nil => exact absurd rfl hw.ne_nil
  | cons d w =>
    obtain rfl := Option.some.inj hc
    exact hw.isspace d (by simp)

/-! ### Numbers -/

/-- The texts that stand for an optional sign. -/
def signs : List Text := [[], ['+'], ['-']]

/-- The texts that may stand between the sign and the digits. -/
def radices : Base → List Text
  | .dec => [[]]
  | .hex => [[], ['0', 'x'], ['0', 'X']]

/-- An optional sign, for the base 16 an optional `0x`, and digits. -/
structure IsNumber (b : Base) (sign radix digits : Text) : Prop where
  sign : sign ∈ signs
  radix : radix ∈ radices b
  ne_nil : digits ≠ []
  isDigit : ∀ c ∈ digits, b.isDigit c = true

/-- The number is not taken further: no digit follows, and its digits are not those of a `0x`. -/
structure Stops (b : Base) (radix digits rest : Text) : Prop where
  endsAt : EndsAt b.isDigit rest
  radix : radix = [] → dropRadix b (digits ++ rest) = digits ++ rest

def numberValue (b : Base) (sign digits : Text) : Int :=
  if sign = ['-'] then -(ofNumeral b digits) else ofNumeral b digits

theorem dropSign_split (t : Text) :
    ∃ sign ∈ signs, t = sign ++ dropSign t ∧ (t.head? = some '-' ↔ sign = ['-']) := by
  unfold dropSign
  split
  · exact ⟨['+'], by decide, rfl, by simp⟩
  · exact ⟨['-'], by decide, rfl, by simp⟩
  · rename_i hplus hminus
    refine ⟨[], by decide, rfl, ?_⟩
    refine iff_of_false (fun hhead => ?_) (by decide)
    obtain ⟨later, hlater⟩ := List.head?_eq_some_iff.1 hhead
    exact hminus later hlater

/-- In front of a digit a sign is dropped and nothing else. -/
theorem dropSign_append {b : Base} {sign : Text} (hsign : sign ∈ signs) {d : Char}
    (hd : b.isDigit d = true) (t : Text) :
    dropSign (sign ++ d :: t) = d :: t ∧ ((sign ++ d :: t).head? = some '-' ↔ sign = ['-']) := by
  simp only [signs, List.mem_cons, List.not_mem_nil, or_false] at hsign
  rcases hsign with rfl | rfl | rfl
  · refine ⟨dropSign_of_isDigit hd t, ?_⟩
    refine iff_of_false (fun hhead => ?_) (by decide)
    obtain rfl := Option.some.inj hhead
    rw [(not_isDigit b).2.1] at hd
    cases hd
  · exact ⟨rfl, by simp⟩
  · exact ⟨rfl, by simp⟩

theorem dropRadix_split (b : Base) (t : Text) : ∃ radix ∈ radices b, t = radix ++ dropRadix b t := by
  unfold dropRadix
  split
  · exact ⟨['0', 'x'], by decide, rfl⟩
  · exact ⟨['0', 'X'], by decide, rfl⟩
  · exact ⟨[], by cases b <;> decide, rfl⟩

theorem Stops.dropRadix_append {b : Base} {radix digits rest : Text} (h : Stops b radix digits rest)
    (hradix : radix ∈ radices b) : dropRadix b (radix ++ (digits ++ rest)) = digits ++ rest := by
  cases b with
  | dec =>
    obtain rfl := List.mem_singleton.1 hradix
    exact h.radix rfl
  | hex =>
    simp only [radices, List.mem_cons, List.not_mem_nil, or_false] at hradix
    rcases hradix with rfl | rfl | rfl
    · exact h.radix rfl
    · rfl
    · rfl

/-- After the sign a number begins with a digit. -/
theorem IsNumber.exists_digit {b : Base} {sign radix digits : Text} (h : IsNumber b sign radix digits)
    (rest : Text) : ∃ d t, radix ++ (digits ++ rest) = d :: t ∧ b.isDigit d = true := by
  obtain ⟨d, ds, hds⟩ := List.exists_cons_of_ne_nil h.ne_nil
  have hd := h.isDigit d (by simp [hds])
  have hradix := h.radix
  cases b with
  | dec =>
    obtain rfl := List.mem_singleton.1 hradix
    exact ⟨d, ds ++ rest, by rw [hds]; rfl, hd⟩
  | hex =>
    simp only [radices, List.mem_cons, List.not_mem_nil, or_false] at hradix
    rcases hradix with rfl | rfl | rfl
    · exact ⟨d, ds ++ rest, by rw [hds]; rfl, hd⟩
    · exact ⟨'0', _, rfl, by decide⟩
    · exact ⟨'0', _, rfl, by decide⟩

/-- No blank stands in front of a number. -/
theorem IsNumber.endsAt {b : Base} {sign radix digits : Text} (h : IsNumber b sign radix digits)
    (rest : Text) : EndsAt isspace (sign ++ (radix ++ (digits ++ rest))) := by
  obtain ⟨d, t, ht, hd⟩ := h.exists_digit rest
  have hsign := h.sign
  simp only [signs, List.mem_cons, List.not_mem_nil, or_false] at hsign
  rw [ht]
  intro c hc
  rcases hsign with rfl | rfl | rfl
  · obtain rfl := Option.some.inj hc
    exact isspace_of_isDigit hd
  · obtain rfl := Option.some.inj hc
    decide
  · obtain rfl := Option.some.inj hc
    decide

theorem scanInt_iff {b : Base} {t rest : Text} {item : Item} :
    scanInt b t = .ok (item, rest) ↔
      ∃ sign radix digits, item = .int (numberValue b sign digits) ∧
        t = sign ++ (radix ++ (digits ++ rest)) ∧ IsNumber b sign radix digits ∧
        Stops b radix digits rest := by
  constructor
  · intro h
    obtain ⟨sign, hsign, ht, hminus⟩ := dropSign_split t
    obtain ⟨radix, hradix, hafter⟩ := dropRadix_split b (dropSign t)
    simp only [scanInt, hminus] at h
    by_cases hnil : t = []
    · rw [if_pos hnil] at h
      cases h
    by_cases hnone : (dropRadix b (dropSign t)).takeWhile b.isDigit = []
    · rw [if_neg hnil, if_pos hnone] at h
      cases h
    rw [if_neg hnil, if_neg hnone] at h
    obtain ⟨hitem, hrest⟩ := Prod.mk.inj (Except.ok.inj h)
    obtain ⟨hsplit, hdigits, hends⟩ := takeWhile_dropWhile_iff.1 ⟨rfl, hrest⟩
    refine ⟨sign, radix, _, hitem.symm, ?_, ⟨hsign, hradix, hnone, hdigits⟩, hends, ?_⟩
    · rw [← hsplit, ← hafter]
      exact ht
    · -- without a radix the digits are all that follows the sign
      rintro rfl
      rw [← hsplit]
      exact congrArg (dropRadix b) hafter.symm
  · rintro ⟨sign, radix, digits, rfl, rfl, hnumber, hstops⟩
    obtain ⟨d, later, hlater, hd⟩ := hnumber.exists_digit rest
    obtain ⟨hdrop, hminus⟩ := dropSign_append hnumber.sign hd later
    rw [← hlater] at hdrop hminus
    obtain ⟨htake, hrest⟩ := takeWhile_dropWhile_iff.2 ⟨rfl, hnumber.isDigit, hstops.endsAt⟩
    have hnil : sign ++ (radix ++ (digits ++ rest)) ≠ [] := by simp [hnumber.ne_nil]
    simp only [scanInt, hdrop, hstops.dropRadix_append hnumber.radix, htake, hrest, hminus,
      numberValue]
    rw [if_neg hnil, if_neg hnumber.ne_nil]

/-- The text begins, after blanks, with this number, and goes on with `rest`. -/
def ReadsNumber (b : Base) (t : Text) (n : Int) (rest : Text) : Prop :=
  ∃ blank sign radix digits, t = blank ++ (sign ++ (radix ++ (digits ++ rest))) ∧ IsBlank blank ∧
    IsNumber b sign radix digits ∧ Stops b radix digits rest ∧ n = numberValue b sign digits

/-! ### What a conversion takes -/

namespace Kind
variable {t rest : Text} {item : Item}

theorem run_except {x : Char} :
    (Kind.except x).run t = .ok (item, rest) ↔
      ∃ l, item = .str l ∧ t = l ++ rest ∧ l ≠ [] ∧ x ∉ l ∧ EndsAt (· ≠ x) rest := by
  have hmem : ∀ l : Text, (∀ c ∈ l, decide (c ≠ x) = true) ↔ x ∉ l := by
    intro l
    refine ⟨?_, forall_ne_of_not_mem⟩
    intro hl hx
    simpa using hl x hx
  constructor
  · intro h
    rw [run] at h
    split_ifs at h with hnil hnone
    obtain ⟨rfl, hrest⟩ := Prod.mk.inj (Except.ok.inj h)
    obtain ⟨ht, hl, hends⟩ := takeWhile_dropWhile_iff.1 ⟨rfl, hrest⟩
    exact ⟨_, rfl, ht, hnone, (hmem _).1 hl, hends⟩
  · rintro ⟨l, rfl, ht, hne, hx, hends⟩
    obtain ⟨htake, hdrop⟩ := takeWhile_dropWhile_iff.2 ⟨ht, (hmem l).2 hx, hends⟩
    have hnil : t ≠ [] := by
      rw [ht]
      simp [hne]
    rw [run, if_neg hnil, htake, hdrop, if_neg hne]

theorem run_str :
    Kind.str.run t = .ok (item, rest) ↔
      ∃ blank w, item = .str w ∧ t = blank ++ (w ++ rest) ∧ IsBlank blank ∧ IsWord w ∧
        EndsAt (!isspace ·) rest := by
  have hword : ∀ l : Text, (∀ c ∈ l, (!isspace c) = true) ↔ ∀ c ∈ l, isspace c = false := by
    simp
  constructor
  · intro h
    simp only [run] at h
    split_ifs at h with hnil
    obtain ⟨rfl, hrest⟩ := Prod.mk.inj (Except.ok.inj h)
    obtain ⟨blank, ht, hblank, hends⟩ := dropWhile_isspace_iff.1 (Eq.refl (t.dropWhile isspace))
    obtain ⟨hsplit, hl, hboundary⟩ := takeWhile_dropWhile_iff.1 ⟨rfl, hrest⟩
    refine ⟨blank, _, rfl, by rw [← hsplit]; exact ht, hblank, ⟨?_, (hword _).1 hl⟩, hboundary⟩
    -- the first character after the blanks is one of the word
    intro hempty
    rw [hempty, List.nil_append] at hsplit
    obtain ⟨c, later, hc⟩ := List.exists_cons_of_ne_nil hnil
    rw [hc] at hends
    rw [← hsplit, hc] at hboundary
    have hspace := endsAt_cons.1 hends
    have hno := endsAt_cons.1 hboundary
    rw [hspace] at hno
    cases hno
  · rintro ⟨blank, w, rfl, rfl, hblank, hw, hboundary⟩
    have hdrop : (blank ++ (w ++ rest)).dropWhile isspace = w ++ rest :=
      dropWhile_isspace_iff.2 ⟨blank, rfl, hblank, hw.endsAt rest⟩
    obtain ⟨htake, hrest⟩ := takeWhile_dropWhile_iff.2 ⟨rfl, (hword w).2 hw.isspace, hboundary⟩
    simp only [run, hdrop, htake, hrest]
    rw [if_neg (by simp [hw.ne_nil])]

theorem run_int {b : Base} :
    (Kind.int b).run t = .ok (item, rest) ↔ ∃ n, item = .int n ∧ ReadsNumber b t n rest := by
  rw [run, scanInt_iff]
  constructor
  · rintro ⟨sign, radix, digits, hitem, hdrop, hnumber, hstops⟩
    obtain ⟨blank, ht, hblank, -⟩ := dropWhile_isspace_iff.1 hdrop
    exact ⟨_, hitem, blank, sign, radix, digits, ht, hblank, hnumber, hstops, rfl⟩
  · rintro ⟨n, hitem, blank, sign, radix, digits, ht, hblank, hnumber, hstops, rfl⟩
    refine ⟨sign, radix, digits, hitem, ?_, hnumber, hstops⟩
    exact dropWhile_isspace_iff.2 ⟨blank, ht, hblank, hnumber.endsAt rest⟩

/-- What a conversion leaves is the end of its text. -/
theorem isSuffix_of_run {kind : Kind} (h : kind.run t = .ok (item, rest)) : rest <:+ t := by
  cases kind with
  | int b =>
    obtain ⟨n, -, blank, sign, radix, digits, rfl, -⟩ := run_int.1 h
    exact ⟨blank ++ (sign ++ (radix ++ digits)), by simp⟩
  | str =>
    obtain ⟨blank, w, -, rfl, -⟩ := run_str.1 h
    exact ⟨blank ++ w, by simp⟩
  | except c =>
    obtain ⟨l, -, rfl, -⟩ := run_except.1 h
    exact ⟨l, rfl⟩

/-- A stored text is a part of the text that it is taken from. -/
theorem isInfix_of_run {kind : Kind} {w : Text} (h : kind.run t = .ok (.str w, rest)) : w <:+: t := by
  cases kind with
  | int b =>
    obtain ⟨n, hitem, -⟩ := run_int.1 h
    cases hitem
  | str =>
    obtain ⟨blank, w', hitem, rfl, -⟩ := run_str.1 h
    obtain rfl := Item.str.inj hitem
    exact ⟨blank, rest, by simp⟩
  | except c =>
    obtain ⟨l, hitem, rfl, -⟩ := run_except.1 h
    obtain rfl := Item.str.inj hitem
    exact ⟨[], rest, rfl⟩

end Kind

/-! ### Complete scans -/

/-- The scan gets through the whole format, with these items. -/
def Completes (ds : List Directive) (t : Text) (items : List Item) : Prop :=
  (scan ds t).stop = none ∧ (scan ds t).items = items

section completes
variable {ds : List Directive} {t : Text} {items : List Item}

@[simp] theorem completes_nil : Completes [] t items ↔ items = [] := by
  simp [Completes, scan, eq_comm]

@[simp] theorem completes_space :
    Completes (.space :: ds) t items ↔ Completes ds (t.dropWhile isspace) items := by
  rw [Completes, scan_space, Completes]

theorem completes_lit {c : Char} :
    Completes (.lit c :: ds) t items ↔ ∃ rest, t = c :: rest ∧ Completes ds rest items := by
  cases t with
  | nil => simp [Completes, scan]
  | cons d t =>
    by_cases hd : d = c
    · subst hd
      rw [Completes, scan_lit]
      refine ⟨fun h => ⟨t, rfl, h⟩, ?_⟩
      rintro ⟨rest, ht, h⟩
      obtain ⟨-, rfl⟩ := List.cons.inj ht
      exact h
    · rw [Completes, scan, if_neg hd]
      refine iff_of_false (fun h => by cases h.1) ?_
      rintro ⟨rest, ht, -⟩
      exact hd (List.cons.inj ht).1

/-- A run of literal characters. -/
theorem completes_lits (s : Text) :
    Completes (s.map .lit ++ ds) t items ↔ ∃ rest, t = s ++ rest ∧ Completes ds rest items := by
  induction s generalizing t with
  | nil => simp
  | cons c s ih =>
    rw [List.map_cons, List.cons_append, completes_lit]
    constructor
    · rintro ⟨rest, rfl, h⟩
      obtain ⟨later, rfl, hlater⟩ := ih.1 h
      exact ⟨later, rfl, hlater⟩
    · rintro ⟨later, rfl, h⟩
      exact ⟨s ++ later, rfl, ih.2 ⟨later, rfl, h⟩⟩

theorem completes_conv {suppress : Bool} {kind : Kind} :
    Completes (.conv suppress kind :: ds) t items ↔
      ∃ item rest later, kind.run t = .ok (item, rest) ∧ Completes ds rest later ∧
        items = if suppress then later else item :: later := by
  rcases hrun : kind.run t with stop | ⟨item, rest⟩
  · rw [Completes, scan, hrun]
    refine iff_of_false (fun h => by cases h.1) ?_
    rintro ⟨item, rest, later, h, -⟩
    cases h
  · rw [Completes, scan, hrun]
    constructor
    · rintro ⟨hstop, rfl⟩
      exact ⟨item, rest, _, rfl, ⟨hstop, rfl⟩, rfl⟩
    · rintro ⟨item', rest', later, h, ⟨hstop, hlater⟩, rfl⟩
      obtain ⟨rfl, rfl⟩ := Prod.mk.inj (Except.ok.inj h)
      subst hlater
      exact ⟨hstop, rfl⟩

/-- The text begins, after blanks, with this word. -/
def FirstWord (t w : Text) : Prop :=
  ∃ blank rest, t = blank ++ (w ++ rest) ∧ IsBlank blank ∧ IsWord w ∧ EndsAt (!isspace ·) rest

/-- A string conversion at the end of a format. -/
theorem completes_str : Completes [.conv false .str] t items ↔ ∃ w, items = [.str w] ∧ FirstWord t w := by
  rw [completes_conv]
  constructor
  · rintro ⟨item, rest, later, hrun, hlater, rfl⟩
    obtain rfl := completes_nil.1 hlater
    obtain ⟨blank, w, rfl, ht⟩ := Kind.run_str.1 hrun
    exact ⟨w, rfl, blank, rest, ht⟩
  · rintro ⟨w, rfl, blank, rest, ht⟩
    exact ⟨.str w, rest, [], Kind.run_str.2 ⟨blank, w, rfl, ht⟩, completes_nil.2 rfl, rfl⟩

theorem firstWord_eq_iff {w : Text} : FirstWord t w ↔ firstWord t = w ∧ w ≠ [] := by
  constructor
  · rintro ⟨blank, rest, rfl, hblank, hw, hends⟩
    have hrest : ∀ c, rest.head? = some c → isspace c = true := fun c hc => by simpa using hends c hc
    rw [firstWord_blank hblank, firstWord_append hw.isspace hrest hw.ne_nil]
    exact ⟨rfl, hw.ne_nil⟩
  · rintro ⟨rfl, hne⟩
    obtain ⟨blank, ht, hblank, -⟩ := dropWhile_isspace_iff.1 (Eq.refl (t.dropWhile isspace))
    obtain ⟨hsplit, -, hends⟩ := takeWhile_dropWhile_iff.1
      (And.intro (Eq.refl (firstWord t)) (Eq.refl ((t.dropWhile isspace).dropWhile (!isspace ·))))
    refine ⟨blank, _, ?_, hblank, ⟨hne, isspace_firstWord t⟩, hends⟩
    rw [← hsplit]
    exact ht

/-- Without white space the first word is the whole text. -/
theorem firstWord_iff {w : Text} (ht : ∀ c ∈ t, isspace c = false) :
    FirstWord t w ↔ t = w ∧ w ≠ [] := by
  have hall : firstWord t = t := by
    rw [firstWord, dropWhile_isspace fun c hc => ht c (List.mem_of_mem_head? hc),
      List.takeWhile_eq_self_iff]
    intro c hc
    rw [ht c hc]
    rfl
  rw [firstWord_eq_iff, hall]

end completes

/-! ### Where an item comes from -/

/-- An item is what a conversion of the format takes, run somewhere on the text. -/
theorem exists_run_of_mem_items {ds : List Directive} {t : Text} {item : Item}
    (h : item ∈ (scan ds t).items) :
    ∃ kind u rest, .conv false kind ∈ ds ∧ u <:+ t ∧ kind.run u = .ok (item, rest) := by
  -- the rest of the format is run on an end of the text
  have hlater : ∀ {d : Directive} {ds : List Directive} {u t : Text}, u <:+ t →
      (∃ kind v rest, .conv false kind ∈ ds ∧ v <:+ u ∧ kind.run v = .ok (item, rest)) →
      ∃ kind v rest, .conv false kind ∈ d :: ds ∧ v <:+ t ∧ kind.run v = .ok (item, rest) := by
    rintro d ds u t hu ⟨kind, v, rest, hmem, hv, hrun⟩
    exact ⟨kind, v, rest, List.mem_cons_of_mem d hmem, hv.trans hu, hrun⟩
  induction ds, t using scan.induct with
  | case1 t => cases h
  | case2 ds t ih =>
    rw [scan_space] at h
    exact hlater (List.dropWhile_suffix _) (ih h)
  | case3 c ds => cases h
  | case4 ds d t ih =>
    rw [scan_lit] at h
    exact hlater (List.suffix_cons d t) (ih h)
  | case5 c ds d t hne =>
    rw [scan, if_neg hne] at h
    cases h
  | case6 suppress kind ds t item' rest hrun ih =>
    rw [scan, hrun] at h
    have hrest := Kind.isSuffix_of_run hrun
    cases suppress with
    | true => exact hlater hrest (ih h)
    | false =>
      rcases List.mem_cons.1 h with rfl | h
      · exact ⟨kind, t, rest, List.mem_cons_self, List.suffix_rfl, hrun⟩
      · exact hlater hrest (ih h)
  | case7 suppress kind ds t stop hrun =>
    rw [scan, hrun] at h
    cases h

theorem isInfix_of_mem_items {ds : List Directive} {t w : Text}
    (h : Item.str w ∈ (scan ds t).items) : w <:+: t := by
  obtain ⟨kind, u, rest, -, hu, hrun⟩ := exists_run_of_mem_items h
  exact (Kind.isInfix_of_run hrun).trans hu.isInfix

/-- Where all string conversions take words, every stored text is one. -/
theorem isWord_of_mem_items {ds : List Directive} (hds : ∀ c, .conv false (.except c) ∉ ds)
    {t w : Text} (h : Item.str w ∈ (scan ds t).items) : IsWord w := by
  obtain ⟨kind, u, rest, hmem, -, hrun⟩ := exists_run_of_mem_items h
  cases kind with
  | int b =>
    obtain ⟨n, hitem, -⟩ := Kind.run_int.1 hrun
    cases hitem
  | str =>
    obtain ⟨blank, w', hitem, -, -, hw, -⟩ := Kind.run_str.1 hrun
    obtain rfl := Item.str.inj hitem
    exact hw
  | except c => exact absurd hmem (hds c)

/-! ### The number of items -/

theorem Completes.length_eq {ds : List Directive} {t : Text} {items : List Item}
    (h : Completes ds t items) : items.length = (stored ds).length := by
  obtain ⟨hstop, rfl⟩ := h
  induction ds, t using scan.induct with
  | case1 t => rfl
  | case2 ds t ih =>
    rw [scan_space] at hstop ⊢
    exact ih hstop
  | case3 c ds => cases hstop
  | case4 ds d t ih =>
    rw [scan_lit] at hstop ⊢
    exact ih hstop
  | case5 c ds d t hne =>
    rw [scan, if_neg hne] at hstop
    cases hstop
  | case6 suppress kind ds t item rest hrun ih =>
    rw [scan, hrun] at hstop ⊢
    have hlength := ih hstop
    cases suppress with
    | true => exact hlength
    | false =>
      show (scan ds rest).items.length + 1 = (stored ds).length + 1
      rw [hlength]
  | case7 suppress kind ds t stop hrun =>
    rw [scan, hrun] at hstop
    cases hstop

theorem stored_append (ds ds' : List Directive) : stored (ds ++ ds') = stored ds ++ stored ds' := by
  induction ds with
  | nil => rfl
  | cons d ds ih =>
    rcases d with - | c | ⟨suppress, kind⟩
    · exact ih
    · exact ih
    · cases suppress with
      | true => exact ih
      | false => exact congrArg (kind.isStr :: ·) ih

/-- With a conversion that stores at the end, a scan that stops has not stored them all. -/
theorem completes_of_length {ds : List Directive} {kind : Kind} {t : Text}
    (h : (scan (ds ++ [.conv false kind]) t).items.length =
      (stored (ds ++ [.conv false kind])).length) :
    Completes (ds ++ [.conv false kind]) t (scan (ds ++ [.conv false kind]) t).items := by
  have hpos : ∀ ds, 0 < (stored (ds ++ [.conv false kind])).length := by
    intro ds
    rw [stored_append, List.length_append]
    exact Nat.succ_pos _
  refine ⟨?_, rfl⟩
  induction ds generalizing t with
  | nil =>
    rw [List.nil_append, scan] at h ⊢
    rcases hrun : kind.run t with stop | ⟨item, rest⟩
    · rw [hrun] at h
      cases h
    · rfl
  | cons d ds ih =>
    have hrest := hpos ds
    rcases d with - | c | ⟨suppress, k⟩
    · rw [List.cons_append, scan_space] at h ⊢
      exact ih h
    · cases t with
      | nil => exact absurd h.symm (Nat.ne_of_gt hrest)
      | cons d t =>
        by_cases hd : d = c
        · subst hd
          rw [List.cons_append, scan_lit] at h ⊢
          exact ih h
        · rw [List.cons_append, scan, if_neg hd] at h
          exact absurd h.symm (Nat.ne_of_gt hrest)
    · rw [List.cons_append, scan] at h ⊢
      rcases hrun : k.run t with stop | ⟨item, rest⟩
      · rw [hrun] at h
        have hall := hpos (.conv suppress k :: ds)
        exact absurd h.symm (Nat.ne_of_gt hall)
      · rw [hrun] at h
        cases suppress with
        | true => exact ih h
        | false => exact ih (Nat.succ.inj h)

/-- More directives at the end store more items, if the scan gets there. -/
theorem scan_append (ds ds' : List Directive) (t : Text) :
    (scan ds t).items <+: (scan (ds ++ ds') t).items ∧
      ((scan ds t).stop ≠ none → (scan (ds ++ ds') t).items = (scan ds t).items) := by
  induction ds, t using scan.induct with
  | case1 t => exact ⟨List.nil_prefix, fun hstop => absurd rfl hstop⟩
  | case2 ds t ih =>
    rw [List.cons_append, scan_space, scan_space]
    exact ih
  | case3 c ds => exact ⟨List.nil_prefix, fun _ => rfl⟩
  | case4 ds d t ih =>
    rw [List.cons_append, scan_lit, scan_lit]
    exact ih
  | case5 c ds d t hne =>
    rw [List.cons_append, scan, if_neg hne, scan, if_neg hne]
    exact ⟨List.prefix_rfl, fun _ => rfl⟩
  | case6 suppress kind ds t item rest hrun ih =>
    obtain ⟨hitems, hstop⟩ := ih
    rw [List.cons_append, scan, hrun, scan, hrun]
    cases suppress with
    | true => exact ⟨hitems, hstop⟩
    | false =>
      refine ⟨List.cons_prefix_cons.2 ⟨rfl, hitems⟩, fun h => ?_⟩
      exact congrArg (item :: ·) (hstop h)
  | case7 suppress kind ds t stop hrun =>
    rw [List.cons_append, scan, hrun, scan, hrun]
    exact ⟨List.prefix_rfl, fun _ => rfl⟩

/-- An item is stored exactly if the format completes up to its conversion. -/
theorem getElem?_items_iff (ds ds' : List Directive) {kind : Kind} {k : Nat}
    (hk : (stored (ds ++ [.conv false kind])).length = k + 1) {t : Text} {item : Item} :
    (scan (ds ++ [.conv false kind] ++ ds') t).items[k]? = some item ↔
      ∃ items, Completes (ds ++ [.conv false kind]) t items ∧ items[k]? = some item := by
  obtain ⟨⟨more, hmore⟩, hstop⟩ := scan_append (ds ++ [.conv false kind]) ds' t
  constructor
  · intro h
    by_cases hnone : (scan (ds ++ [.conv false kind]) t).stop = none
    · have hcompletes : Completes (ds ++ [.conv false kind]) t _ := ⟨hnone, rfl⟩
      have hlength := hcompletes.length_eq
      refine ⟨_, hcompletes, ?_⟩
      rw [← hmore, List.getElem?_append_left (by omega)] at h
      exact h
    · rw [hstop hnone] at h
      obtain ⟨hlt, -⟩ := List.getElem?_eq_some_iff.1 h
      have hle := (scan_isStr (ds ++ [.conv false kind]) t).length_le
      rw [List.length_map] at hle
      exact absurd (completes_of_length (by omega)).1 hnone
  · rintro ⟨items, hcompletes, hitem⟩
    have hlength := hcompletes.length_eq
    obtain ⟨-, rfl⟩ := hcompletes
    rw [← hmore, List.getElem?_append_left (by omega)]
    exact hitem

/-- What a test of the result of `sscanf` asks. -/
theorem sscanf_result_iff (ds : List Directive) {input format : Text} {kind : Kind}
    (hformat : parseFormat none format = ds ++ [.conv false kind]) {k : Nat}
    (hk : (stored (ds ++ [.conv false kind])).length = k) :
    (sscanf input format).result = k ↔
      ∃ items, Completes (ds ++ [.conv false kind]) (cstring input) items := by
  have hscan : sscanf input format = scan (ds ++ [.conv false kind]) (cstring input) := by
    rw [sscanf, hformat]
  constructor
  · intro hresult
    have hlength := Scan.length_items hresult
    rw [hscan, ← hk] at hlength
    exact ⟨_, completes_of_length hlength⟩
  · rintro ⟨items, hcompletes⟩
    have hlength := hcompletes.length_eq
    obtain ⟨hstop, rfl⟩ := hcompletes
    rw [hscan, Scan.result, if_neg (by simp [hstop]), hlength, hk]

/-- A failed test says that the last item has not been stored. -/
theorem sscanf_last_none (ds : List Directive) {input format : Text} {kind : Kind}
    (hformat : parseFormat none format = ds ++ [.conv false kind]) {k : Nat}
    (hk : (stored (ds ++ [.conv false kind])).length = k + 1)
    (hresult : (sscanf input format).result ≠ (k + 1 : Nat)) :
    (sscanf input format).items[k]? = none := by
  rw [List.getElem?_eq_none_iff]
  by_contra hlength
  have hscan : sscanf input format = scan (ds ++ [.conv false kind]) (cstring input) := by
    rw [sscanf, hformat]
  have hle := (scan_isStr (ds ++ [.conv false kind]) (cstring input)).length_le
  rw [List.length_map, hk, ← hscan] at hle
  have hall : (sscanf input format).items.length = k + 1 := by omega
  rw [hscan, ← hk] at hall
  exact hresult ((sscanf_result_iff ds hformat hk).2 ⟨_, completes_of_length hall⟩)

end Clib
