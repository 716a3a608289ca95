import Mathlib.Data.List.Basic
import Mathlib.Data.List.Infix
import Mathlib.Data.Nat.Basic
import Mathlib.Tactic.Common

/-!
# Text as the C library sees it

A string is a list of characters, one for each byte. `isspace` and `strstr` are the C library's.
A text is read back in two ways: `List.splitOn` at a separator, and `textLines`, the lines a line
reader delivers, where an unterminated last line counts as a line and an empty rest does not.

Everything a reader needs to know about a written text is in `splitOn_terminated`: pieces that are
each followed by the separator come apart again.
-/

namespace Clib

abbrev Text := List Char

instance : Coe String Text := ⟨String.toList⟩

/-- `isspace` of the C locale. -/
def isspace (c : Char) : Bool :=
  c = ' ' || c = '\t' || c = '\n' || c = '\x0b' || c = '\x0c' || c = '\x0d'

/-- `strstr(haystack, needle) != nullptr`. -/
def strstr (haystack needle : Text) : Bool :=
  match haystack with
  | [] => needle.isPrefixOf []
  | c :: rest => needle.isPrefixOf (c :: rest) || strstr rest needle

theorem strstr_iff {haystack needle : Text} : strstr haystack needle = true ↔ needle <:+: haystack := by
  induction haystack with
  | nil => simp [strstr, List.isPrefixOf_iff_prefix]
  | cons c rest ih => rw [strstr, Bool.or_eq_true, ih, List.isPrefixOf_iff_prefix, List.infix_cons_iff]

theorem strstr_nil {needle : Text} (h : needle ≠ []) : strstr [] needle = false := by
  cases needle with
  | nil => exact absurd rfl h
  | cons c needle => rfl

theorem strstr_singleton {haystack : Text} {c : Char} : strstr haystack [c] = true ↔ c ∈ haystack := by
  rw [strstr_iff, List.singleton_infix_iff]

/-! ### Terminated pieces -/

/-- Every piece followed by the separator. -/
def terminated {α : Type} (x : α) (pieces : List (List α)) : List α :=
  pieces.flatMap (· ++ [x])

section terminated
variable {α : Type} {x : α}

@[simp] theorem terminated_nil : terminated x [] = [] := rfl

@[simp] theorem terminated_cons (l : List α) (ls : List (List α)) :
    terminated x (l :: ls) = l ++ x :: terminated x ls := by
  simp [terminated]

@[simp] theorem terminated_append (ls ms : List (List α)) :
    terminated x (ls ++ ms) = terminated x ls ++ terminated x ms := by
  simp [terminated]

variable [BEq α] [LawfulBEq α]

theorem splitOn_terminated (ls : List (List α)) (hls : ∀ l ∈ ls, x ∉ l) (rest : List α) :
    (terminated x ls ++ rest).splitOn x = ls ++ rest.splitOn x := by
  induction ls with
  | nil => rfl
  | cons l ls ih =>
    rw [terminated_cons, List.append_assoc, List.cons_append,
      List.splitOn_append_cons_self_of_not_mem (hls l (by simp)),
      ih fun m hm => hls m (by simp [hm]), List.cons_append]

/-- Terminated pieces are what splitting gives, and an empty piece after the last terminator. -/
theorem dropLast_splitOn_terminated (ls : List (List α)) (hls : ∀ l ∈ ls, x ∉ l) :
    ((terminated x ls).splitOn x).dropLast = ls := by
  have hsplit := splitOn_terminated ls hls []
  rw [List.append_nil, List.splitOn_nil] at hsplit
  rw [hsplit, List.dropLast_concat]

/-- Text without a separator only lengthens the first piece. -/
theorem splitOn_append_of_not_mem (l : List α) (hl : x ∉ l) (rest : List α) :
    (l ++ rest).splitOn x = (rest.splitOn x).modifyHead (l ++ ·) := by
  induction l with
  | nil => cases h : rest.splitOn x <;> simp [h]
  | cons c l ih =>
    obtain ⟨hc, hl⟩ : x ≠ c ∧ x ∉ l := by simpa using hl
    rw [List.cons_append, List.splitOn_cons_eq_if_modifyHead, if_neg (by simpa using hc.symm), ih hl]
    cases h : rest.splitOn x <;> simp

/-- Splitting loses nothing but the last terminator. -/
theorem terminated_splitOn (t : List α) : terminated x (t.splitOn x) = t ++ [x] := by
  induction t with
  | nil => simp
  | cons c t ih =>
    rw [List.splitOn_cons_eq_if_modifyHead]
    split
    · rename_i hc
      rw [terminated_cons, ih, beq_iff_eq.1 hc]
      rfl
    · obtain ⟨l, ls, h⟩ := List.exists_cons_of_ne_nil (List.splitOn_ne_nil x t)
      rw [h] at ih ⊢
      simp only [List.modifyHead_cons, terminated_cons, List.cons_append] at ih ⊢
      rw [ih]

end terminated

/-! ### Cutting at the first separator -/

section cut
variable {α : Type} {l rest : List α}

section boundary
variable {p : α → Bool} (hl : ∀ x ∈ l, p x = true) (hrest : ∀ x, rest.head? = some x → p x = false)
include hl hrest

theorem takeWhile_append_boundary : (l ++ rest).takeWhile p = l := by
  rw [List.takeWhile_append_of_pos hl]
  cases rest with
  | nil => simp
  | cons c rest => rw [List.takeWhile_cons_of_neg (by simp [hrest c rfl]), List.append_nil]

theorem dropWhile_append_boundary : (l ++ rest).dropWhile p = rest := by
  rw [List.dropWhile_append_of_pos hl]
  cases rest with
  | nil => rfl
  | cons c rest => exact List.dropWhile_cons_of_neg (by simp [hrest c rfl])

end boundary

variable [DecidableEq α] {x : α} (hl : x ∉ l) (rest : List α)
include hl

theorem forall_ne_of_not_mem : ∀ y ∈ l, decide (y ≠ x) = true :=
  fun y hy => by simpa using fun h : y = x => hl (h ▸ hy)

theorem takeWhile_ne_append : (l ++ x :: rest).takeWhile (· ≠ x) = l :=
  takeWhile_append_boundary (forall_ne_of_not_mem hl) (by simp)

theorem dropWhile_ne_append : (l ++ x :: rest).dropWhile (· ≠ x) = x :: rest :=
  dropWhile_append_boundary (forall_ne_of_not_mem hl) (by simp)

theorem takeWhile_ne_eq_self : l.takeWhile (· ≠ x) = l := by
  have htake := takeWhile_append_boundary (forall_ne_of_not_mem hl)
    (show ∀ y, ([] : List α).head? = some y → decide (y ≠ x) = false by simp)
  rwa [List.append_nil] at htake

end cut

/-! ### Lines -/

/-- The lines of a text. -/
def textLines : Text → List Text
  | [] => []
  | c :: t =>
    if c = '\n' then [] :: textLines t
    else match textLines t with
      | [] => [[c]]
      | l :: ls => (c :: l) :: ls

theorem textLines_line (l : Text) (hl : '\n' ∉ l) (rest : Text) :
    textLines (l ++ '\n' :: rest) = l :: textLines rest := by
  induction l with
  | nil => simp [textLines]
  | cons c l ih =>
    obtain ⟨hc, hl⟩ : '\n' ≠ c ∧ '\n' ∉ l := by simpa using hl
    rw [List.cons_append, textLines, if_neg hc.symm, ih hl]

theorem textLines_unterminated (l : Text) (hl : '\n' ∉ l) (hne : l ≠ []) : textLines l = [l] := by
  induction l with
  | nil => exact absurd rfl hne
  | cons c l ih =>
    obtain ⟨hc, hl⟩ : '\n' ≠ c ∧ '\n' ∉ l := by simpa using hl
    rw [textLines, if_neg hc.symm]
    cases l with
    | nil => rfl
    | cons d l => rw [ih hl (by simp)]

/-- An unterminated text takes the next line with it. -/
theorem length_textLines_append (l : Text) (hl : '\n' ∉ l) (rest : Text) (hrest : rest ≠ []) :
    (textLines (l ++ rest)).length = (textLines rest).length := by
  induction l with
  | nil => rfl
  | cons c l ih =>
    obtain ⟨hc, hl⟩ : '\n' ≠ c ∧ '\n' ∉ l := by simpa using hl
    have hlen := ih hl
    rw [List.cons_append, textLines, if_neg hc.symm]
    rcases h : textLines (l ++ rest) with _ | ⟨m, ms⟩
    · have hpos : textLines rest ≠ [] := by
        cases rest with
        | nil => exact absurd rfl hrest
        | cons d r => unfold textLines; split_ifs <;> [simp; (split <;> simp)]
      rw [h] at hlen
      exact absurd (List.length_eq_zero_iff.1 hlen.symm) hpos
    · rw [h] at hlen
      simpa using hlen

end Clib
