import Il2CppDumper.Clib.Matching
import Il2CppDumper.Hook.Callbacks

/-!
# The directories of the game

What `isGame` accepts, as a grammar. The scan with the number of a user completes on `UserDir`, the one
without on `PlainDir`, so the package name is that of the first where the directory has this form, and
of the second else (`scannedPackageName_iff`). The second form has the first in it when the package name
starts with a number and a slash; a package name starts with a letter, so the scan with the number never
stands in the way of the other (`isGame_iff`).
-/

namespace Il2CppDumper

open Clib

/-! ### The two forms -/

/-- The directory is `/data/`, a segment, a slash and this text. -/
def AfterSegment (dir rest : Text) : Prop :=
  ∃ segment, segment ≠ [] ∧ '/' ∉ segment ∧ dir = "/data/" ++ (segment ++ '/' :: rest)

def UserDir (dir : Text) (user : Int) (name : Text) : Prop :=
  ∃ after rest, AfterSegment dir after ∧ ReadsNumber .dec after user ('/' :: rest) ∧
    FirstWord rest name

def PlainDir (dir name : Text) : Prop := ∃ rest, AfterSegment dir rest ∧ FirstWord rest name

/-- The text after the segment is determined. -/
theorem AfterSegment.unique {dir rest rest' : Text} (h : AfterSegment dir rest)
    (h' : AfterSegment dir rest') : rest = rest' := by
  obtain ⟨segment, -, hslash, rfl⟩ := h
  obtain ⟨segment', -, hslash', heq⟩ := h'
  have hsame := List.append_cancel_left heq
  have hdrop := congrArg (List.dropWhile (· ≠ '/')) hsame
  rw [dropWhile_ne_append hslash, dropWhile_ne_append hslash'] at hdrop
  exact (List.cons.inj hdrop).2

/-! ### The scans -/

/-- The beginning of both formats. -/
theorem completes_segment {ds : List Directive} {t : Text} {items : List Item} :
    Completes (("/data/" : Text).map .lit ++ .conv true (.except '/') :: .lit '/' :: ds) t items ↔
      ∃ rest, AfterSegment t rest ∧ Completes ds rest items := by
  refine (completes_lits _).trans ?_
  constructor
  · rintro ⟨t, rfl, h⟩
    obtain ⟨item, rest, later, hrun, hlit, rfl⟩ := completes_conv.1 h
    obtain ⟨segment, -, rfl, hne, hslash, -⟩ := Kind.run_except.1 hrun
    obtain ⟨rest, rfl, hrest⟩ := completes_lit.1 hlit
    exact ⟨rest, ⟨segment, hne, hslash, rfl⟩, hrest⟩
  · rintro ⟨rest, ⟨segment, hne, hslash, rfl⟩, hrest⟩
    refine ⟨segment ++ '/' :: rest, rfl, completes_conv.2 ?_⟩
    refine ⟨.str segment, '/' :: rest, items, Kind.run_except.2 ?_,
      completes_lit.2 ⟨rest, rfl, hrest⟩, rfl⟩
    exact ⟨segment, rfl, rfl, hne, hslash, endsAt_cons.2 (by decide)⟩

def userDirectives : List Directive :=
  ("/data/" : Text).map .lit ++
    .conv true (.except '/') :: .lit '/' :: .conv false (.int .dec) :: .lit '/' :: [.conv false .str]

def plainDirectives : List Directive :=
  ("/data/" : Text).map .lit ++ .conv true (.except '/') :: .lit '/' :: [.conv false .str]

theorem completes_user {t : Text} {items : List Item} :
    Completes userDirectives t items ↔
      ∃ user name, items = [.int user, .str name] ∧ UserDir t user name := by
  refine completes_segment.trans ?_
  constructor
  · rintro ⟨after, hsegment, hafter⟩
    obtain ⟨item, later, items, hrun, hlit, rfl⟩ := completes_conv.1 hafter
    obtain ⟨user, rfl, hnumber⟩ := Kind.run_int.1 hrun
    obtain ⟨rest, rfl, hstr⟩ := completes_lit.1 hlit
    obtain ⟨name, rfl, hname⟩ := completes_str.1 hstr
    exact ⟨user, name, rfl, after, rest, hsegment, hnumber, hname⟩
  · rintro ⟨user, name, rfl, after, rest, hsegment, hnumber, hname⟩
    refine ⟨after, hsegment, completes_conv.2 ?_⟩
    refine ⟨.int user, '/' :: rest, [.str name], Kind.run_int.2 ⟨user, rfl, hnumber⟩, ?_, rfl⟩
    exact completes_lit.2 ⟨rest, rfl, completes_str.2 ⟨name, rfl, hname⟩⟩

theorem completes_plain {t : Text} {items : List Item} :
    Completes plainDirectives t items ↔ ∃ name, items = [.str name] ∧ PlainDir t name := by
  refine completes_segment.trans ?_
  constructor
  · rintro ⟨rest, hsegment, hrest⟩
    obtain ⟨name, rfl, hname⟩ := completes_str.1 hrest
    exact ⟨name, rfl, rest, hsegment, hname⟩
  · rintro ⟨name, rfl, rest, hsegment, hname⟩
    exact ⟨rest, hsegment, completes_str.2 ⟨name, rfl, hname⟩⟩

theorem parseFormat_userFormat : parseFormat none userFormat = userDirectives := by decide

theorem parseFormat_plainFormat : parseFormat none plainFormat = plainDirectives := by decide

theorem sscanf_userFormat (dir : Text) :
    sscanf dir userFormat = scan userDirectives (cstring dir) := by
  rw [sscanf, parseFormat_userFormat]

theorem sscanf_plainFormat (dir : Text) :
    sscanf dir plainFormat = scan plainDirectives (cstring dir) := by
  rw [sscanf, parseFormat_plainFormat]

theorem result_user_iff (dir : Text) :
    (sscanf dir userFormat).result = 2 ↔ ∃ user name, UserDir (cstring dir) user name := by
  refine (sscanf_result_iff userDirectives.dropLast parseFormat_userFormat rfl).trans ⟨?_, ?_⟩
  · rintro ⟨items, hitems⟩
    obtain ⟨user, name, -, hname⟩ := completes_user.1 hitems
    exact ⟨user, name, hname⟩
  · rintro ⟨user, name, hname⟩
    exact ⟨_, completes_user.2 ⟨user, name, rfl, hname⟩⟩

theorem result_plain_iff (dir : Text) :
    (sscanf dir plainFormat).result = 1 ↔ ∃ name, PlainDir (cstring dir) name := by
  refine (sscanf_result_iff plainDirectives.dropLast parseFormat_plainFormat rfl).trans ⟨?_, ?_⟩
  · rintro ⟨items, hitems⟩
    obtain ⟨name, -, hname⟩ := completes_plain.1 hitems
    exact ⟨name, hname⟩
  · rintro ⟨name, hname⟩
    exact ⟨_, completes_plain.2 ⟨name, rfl, hname⟩⟩

theorem items_user_none {dir : Text} (h : (sscanf dir userFormat).result ≠ 2) :
    (sscanf dir userFormat).items[1]? = none :=
  sscanf_last_none userDirectives.dropLast parseFormat_userFormat rfl h

theorem items_plain_none {dir : Text} (h : (sscanf dir plainFormat).result ≠ 1) :
    (sscanf dir plainFormat).items[0]? = none :=
  sscanf_last_none plainDirectives.dropLast parseFormat_plainFormat rfl h

/-! ### The scanned package name -/

/-- The package name in a directory: the word after the number of a user, else after the segment. -/
def PackageOf (dir name : Text) : Prop :=
  (∃ user, UserDir dir user name) ∨ (¬∃ user name, UserDir dir user name) ∧ PlainDir dir name

section name
variable {dir name : Text}

theorem scannedPackageName_user {user : Int} (h : UserDir (cstring dir) user name) :
    scannedPackageName dir = some name := by
  have hcompletes := completes_user.2 ⟨user, name, rfl, h⟩
  rw [scannedPackageName, if_pos ((result_user_iff dir).2 ⟨user, name, h⟩), sscanf_userFormat,
    hcompletes.2]
  rfl

theorem scannedPackageName_plain (hnone : ¬∃ user name, UserDir (cstring dir) user name)
    (h : PlainDir (cstring dir) name) : scannedPackageName dir = some name := by
  have hcompletes := completes_plain.2 ⟨name, rfl, h⟩
  rw [scannedPackageName, if_neg (mt (result_user_iff dir).1 hnone),
    if_pos ((result_plain_iff dir).2 ⟨name, h⟩), sscanf_plainFormat, hcompletes.2]
  rfl

theorem scannedPackageName_iff :
    scannedPackageName dir = some name ↔ PackageOf (cstring dir) name := by
  constructor
  · intro hname
    by_cases huser : ∃ user name, UserDir (cstring dir) user name
    · obtain ⟨user, name', huser⟩ := huser
      rw [scannedPackageName_user huser] at hname
      obtain rfl := Option.some.inj hname
      exact .inl ⟨user, huser⟩
    · refine .inr ⟨huser, ?_⟩
      by_cases hplain : ∃ name, PlainDir (cstring dir) name
      · obtain ⟨name', hplain⟩ := hplain
        rw [scannedPackageName_plain huser hplain] at hname
        obtain rfl := Option.some.inj hname
        exact hplain
      · rw [scannedPackageName, if_neg (mt (result_user_iff dir).1 huser),
          if_neg (mt (result_plain_iff dir).1 hplain)] at hname
        cases hname
  · rintro (⟨user, h⟩ | ⟨hnone, h⟩)
    · exact scannedPackageName_user h
    · exact scannedPackageName_plain hnone h

end name

/-! ### Package names -/

/-- Letters, digits, `_` and `.`, with a letter at the start. -/
structure IsPackageName (g : Text) : Prop where
  head : ∃ c, g.head? = some c ∧ c.isAlpha = true
  chars : ∀ c ∈ g, c.isAlphanum = true ∨ c = '_' ∨ c = '.'

/-- No sign and no digit is a letter. -/
theorem isAlpha_of_isDigit {c : Char} (hc : Base.dec.isDigit c = true) : c.isAlpha = false := by
  have hrange : '0' ≤ c ∧ c ≤ '9' := by
    by_contra hno
    rw [Base.isDigit, digitValue, if_neg hno] at hc
    -- every other digit is worth ten at least
    split_ifs at hc
    · exact absurd (of_decide_eq_true hc) (Nat.not_lt.2 (Nat.le_add_left 10 _))
    · exact absurd (of_decide_eq_true hc) (Nat.not_lt.2 (Nat.le_add_left 10 _))
  have hhigh : c.val ≤ 57 := hrange.2
  have hupper : c.isUpper = false :=
    decide_eq_false fun h => absurd (UInt32.le_trans h.1 hhigh) (by decide)
  have hlower : c.isLower = false := by
    have hlow : ¬('a'.val ≤ c.val) := fun h => absurd (UInt32.le_trans h hhigh) (by decide)
    show (decide ('a'.val ≤ c.val) && decide (c.val ≤ 'z'.val)) = false
    rw [decide_eq_false hlow, Bool.false_and]
  show (c.isUpper || c.isLower) = false
  rw [hupper, hlower, Bool.or_false]

/-- A decimal number with an optional sign. -/
def IsDecimal (sign digits : Text) : Prop := IsNumber .dec sign [] digits

/-- In front of a slash the number is read to its end. -/
theorem readsNumber_dec_iff {t rest : Text} :
    (∃ n, ReadsNumber .dec t n ('/' :: rest)) ↔
      ∃ blank sign digits, t = blank ++ (sign ++ (digits ++ '/' :: rest)) ∧ IsBlank blank ∧
        IsDecimal sign digits := by
  constructor
  · rintro ⟨n, blank, sign, radix, digits, rfl, hblank, hnumber, -⟩
    obtain rfl := List.mem_singleton.1 hnumber.radix
    exact ⟨blank, sign, digits, rfl, hblank, hnumber⟩
  · rintro ⟨blank, sign, digits, rfl, hblank, hdecimal⟩
    have hdrop : ∀ t, dropRadix .dec t = t := fun t => by
      cases t <;> rfl
    exact ⟨_, blank, sign, [], digits, rfl, hblank, hdecimal,
      ⟨endsAt_cons.2 (by decide), fun _ => hdrop _⟩, rfl⟩

/-- A package name does not begin with a number. -/
theorem IsPackageName.not_decimal {g sign digits rest : Text} (hg : IsPackageName g)
    (hdecimal : IsDecimal sign digits) : g ≠ sign ++ (digits ++ rest) := by
  rintro rfl
  obtain ⟨c, hhead, halpha⟩ := hg.head
  obtain ⟨d, t, ht, hd⟩ := hdecimal.exists_digit rest
  rw [List.nil_append] at ht
  have hsign := hdecimal.sign
  simp only [signs, List.mem_cons, List.not_mem_nil, or_false] at hsign
  rw [ht] at hhead
  rcases hsign with rfl | rfl | rfl
  · obtain rfl := Option.some.inj hhead
    rw [isAlpha_of_isDigit hd] at halpha
    cases halpha
  · obtain rfl := Option.some.inj hhead
    exact absurd halpha (by decide)
  · obtain rfl := Option.some.inj hhead
    exact absurd halpha (by decide)

theorem IsPackageName.ne_nil {g : Text} (hg : IsPackageName g) : g ≠ [] := by
  rintro rfl
  obtain ⟨c, hhead, -⟩ := hg.head
  cases hhead

/-- The directories of the package: with the number of a user or without. -/
def DataDir (dir g : Text) : Prop :=
  AfterSegment dir g ∨
    ∃ sign digits, IsDecimal sign digits ∧ AfterSegment dir (sign ++ (digits ++ '/' :: g))

/-- What stands after the segment has no white space if the directory has none. -/
theorem AfterSegment.isspace {dir rest : Text} (h : AfterSegment dir rest)
    (hdir : ∀ c ∈ dir, isspace c = false) : ∀ c ∈ rest, isspace c = false := by
  obtain ⟨segment, -, -, rfl⟩ := h
  intro c hc
  exact hdir c (by simp [hc])

theorem userDir_iff {dir name : Text} (hdir : ∀ c ∈ dir, isspace c = false) :
    (∃ user, UserDir dir user name) ↔
      ∃ sign digits, IsDecimal sign digits ∧ AfterSegment dir (sign ++ (digits ++ '/' :: name)) ∧
        name ≠ [] := by
  constructor
  · rintro ⟨user, after, rest, hsegment, hnumber, hword⟩
    obtain ⟨blank, sign, digits, rfl, hblank, hdecimal⟩ := readsNumber_dec_iff.1 ⟨user, hnumber⟩
    have hspace := hsegment.isspace hdir
    obtain ⟨rfl, hne⟩ := (firstWord_iff fun c hc => hspace c (by simp [hc])).1 hword
    obtain rfl := hblank.eq_nil fun c hc => hspace c (by simp [hc])
    exact ⟨sign, digits, hdecimal, hsegment, hne⟩
  · rintro ⟨sign, digits, hdecimal, hsegment, hne⟩
    have hspace := hsegment.isspace hdir
    obtain ⟨user, hnumber⟩ :=
      readsNumber_dec_iff.2 ⟨[], sign, digits, rfl, isBlank_nil, hdecimal⟩
    exact ⟨user, _, name, hsegment, hnumber,
      (firstWord_iff fun c hc => hspace c (by simp [hc])).2 ⟨rfl, hne⟩⟩

theorem plainDir_iff {dir name : Text} (hdir : ∀ c ∈ dir, isspace c = false) :
    PlainDir dir name ↔ AfterSegment dir name ∧ name ≠ [] := by
  constructor
  · rintro ⟨rest, hsegment, hword⟩
    obtain ⟨rfl, hne⟩ := (firstWord_iff (hsegment.isspace hdir)).1 hword
    exact ⟨hsegment, hne⟩
  · rintro ⟨hsegment, hne⟩
    exact ⟨name, hsegment, (firstWord_iff (hsegment.isspace hdir)).2 ⟨rfl, hne⟩⟩

/-- The scan finds the package of a directory that is one of its own. -/
theorem scannedPackageName_eq_iff {g dir : Text} (hg : IsPackageName g)
    (hdir : ∀ c ∈ cstring dir, isspace c = false) :
    scannedPackageName dir = some g ↔ DataDir (cstring dir) g := by
  rw [scannedPackageName_iff, PackageOf, userDir_iff hdir, plainDir_iff hdir]
  constructor
  · rintro (⟨sign, digits, hdecimal, hsegment, -⟩ | ⟨-, hsegment, -⟩)
    · exact .inr ⟨sign, digits, hdecimal, hsegment⟩
    · exact .inl hsegment
  · rintro (hsegment | ⟨sign, digits, hdecimal, hsegment⟩)
    · refine .inr ⟨?_, hsegment, hg.ne_nil⟩
      -- the package name would begin with the number of the user
      rintro ⟨user, name, huser⟩
      obtain ⟨sign, digits, hdecimal, hsegment', -⟩ := (userDir_iff hdir).1 ⟨user, huser⟩
      exact hg.not_decimal hdecimal (hsegment.unique hsegment')
    · exact .inl ⟨sign, digits, hdecimal, hsegment, hg.ne_nil⟩

/-- **`isGame` recognises the directories of the target and no others, whatever its buffer held.** -/
theorem isGame_iff {g : Text} (hg : IsPackageName g) {dir : Text}
    (hdir : ∀ c ∈ cstring dir, isspace c = false) (s : ModuleState) :
    ((isGame g (some dir) s).1 = 1 ↔ DataDir (cstring dir) g) ∧
      ((isGame g (some dir) s).1 = 0 ↔ ¬DataDir (cstring dir) g) := by
  rw [← scannedPackageName_eq_iff hg hdir, isGame_some]
  rcases hname : scannedPackageName dir with - | name
  · simp
  · by_cases hgame : name = g
    · subst hgame
      simp [matchGame]
    · simp [matchGame, hgame]

/-- The buffer still holds the name of another application. -/
theorem isGame_secondUser :
    IsPackageName "com.game" ∧ (∀ c ∈ cstring "/data/user/10/com.game", isspace c = false) ∧
      (isGame "com.game" (some "/data/user/10/com.game")
        { ModuleState.init with packageName := "com.app" }).1 = 1 := by
  have hchars : ("com.game" : Text).all (fun c => c.isAlphanum || c = '_' || c = '.') = true := by
    decide
  have hg : IsPackageName "com.game" :=
    ⟨⟨'c', rfl, rfl⟩, fun c hc => by simpa [or_assoc] using List.all_eq_true.1 hchars c hc⟩
  have hspace : (cstring "/data/user/10/com.game").all (!isspace ·) = true := by decide
  have hdir : ∀ c ∈ cstring "/data/user/10/com.game", isspace c = false := fun c hc => by
    simpa using List.all_eq_true.1 hspace c hc
  have hdigits : ("10" : Text).all Base.dec.isDigit = true := by decide
  refine ⟨hg, hdir, (isGame_iff hg hdir _).1.2 (.inr ⟨[], "10", ⟨by decide, by decide, by decide, ?_⟩, ?_⟩)⟩
  · exact List.all_eq_true.1 hdigits
  · exact ⟨"user", by decide, by decide, by decide⟩

end Il2CppDumper
