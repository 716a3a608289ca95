import Il2CppDumper.Clib.Matching
import Il2CppDumper.Maps.Base
import Il2CppDumper.Maps.Chunks
import Mathlib.Data.Nat.Digits.Defs

/-!
# Long lines and paths with blanks

`fgets` delivers a line in pieces of 1023 bytes, and the loop takes every piece for a line. The first
piece of a line has the header in it, so it is scanned into the fields of the mapping and the first word of
the path, as far as the piece reaches (`chunkMapping_firstPiece`). A later piece is text of the path, and
may read as anything.

So the answer is the start of the first line whose path contains the name exactly if this line shows the
name, or what the loop reads instead happens to give the same address (`getModuleBase_eq_iff`). Before
this line nothing is found, since a later piece has no name in it that is not in the path of its line
(`Mapping.WellFormed.strstr_of_laterPieces`).
-/

namespace Il2CppDumper

open Clib

/-! ### The pieces of a line -/

/-- The fields have the width that the kernel gives them, and the path is on the line. -/
structure Mapping.WellFormed (m : Mapping) : Prop where
  device : m.major < 2 ^ 32 ∧ m.minor < 2 ^ 32
  inode : m.inode < 2 ^ 64
  path : '\n' ∉ m.path

namespace Mapping
variable (m : Mapping)

/-- What `fgets` delivers of a line. -/
def pieces : List Text := fgetsLines 1024 (m.line ++ ['\n'])

def firstPiece : Text := (m.line ++ ['\n']).take 1023

def laterPieces : List Text := fgetsLines 1024 ((m.line ++ ['\n']).drop 1023)

/-- The first word of the path, as far as the first piece of the line reaches. -/
def shownPath : Text := firstWord (cstring ((m.tail ++ ['\n']).take (1023 - m.header.length)))

end Mapping

theorem length_hexPad_le (width k : Nat) {n : Nat} (hk : 0 < k) (hn : n < 16 ^ k) (hwidth : width ≤ k) :
    (hexPad width n).length ≤ k := by
  have hnumeral : (numeral .hex n).length ≤ k := Nat.toDigits_length 16 n k hk hn
  rw [hexPad, List.length_append, List.length_replicate]
  omega

section wellFormed
variable {m : Mapping} (hm : m.WellFormed)
include hm

theorem Mapping.WellFormed.length_header_le : m.header.length ≤ 95 := by
  have hstart := length_hexPad_le 8 16 (by decide) m.start.toNat_lt (by decide)
  have hend := length_hexPad_le 8 16 (by decide) m.end_.toNat_lt (by decide)
  have hoffset := length_hexPad_le 8 16 (by decide) m.offset.toNat_lt (by decide)
  have hmajor := length_hexPad_le 2 8 (by decide) hm.device.1 (by decide)
  have hminor := length_hexPad_le 2 8 (by decide) hm.device.2 (by decide)
  have hinode : (numeral .dec m.inode).length ≤ 20 :=
    Nat.toDigits_length 10 _ 20 (by decide) (Nat.lt_trans hm.inode (by decide))
  simp only [header, List.length_append, List.length_cons, List.length_nil, Perms.text]
  omega

theorem Mapping.WellFormed.newline_not_mem : '\n' ∉ m.line :=
  not_mem_line rfl rfl (by decide) (not_mem_perms _ (by decide)) hm.path

theorem Mapping.WellFormed.pieces_eq : m.pieces = m.firstPiece :: m.laterPieces :=
  fgetsLines_piece (by decide) hm.newline_not_mem

end wellFormed

theorem fgetsLines_mapsText (ms : List Mapping) (hms : ∀ m ∈ ms, m.WellFormed) :
    fgetsLines 1024 (mapsText ms) = ms.flatMap Mapping.pieces := by
  induction ms with
  | nil => rfl
  | cons m ms ih =>
    rw [mapsText, List.map_cons, terminated_cons,
      fgetsLines_line (by decide) (hms m (by simp)).newline_not_mem, List.flatMap_cons,
      ← ih fun n hn => hms n (by simp [hn])]
    rfl

/-! ### The first piece -/

section firstPiece
variable {m : Mapping} (hm : m.WellFormed)
include hm

/-- Not a field of the header is cut. -/
theorem sscanf_firstPiece :
    (sscanf m.firstPiece mapsFormat).items =
      [.int m.start.toNat, .int m.end_.toNat, .str m.perms.text] ++
        if m.shownPath = [] then [] else [.str m.shownPath] := by
  have hlength := hm.length_header_le
  have hpiece : m.firstPiece = m.header ++ (m.tail ++ ['\n']).take (1023 - m.header.length) := by
    rw [Mapping.firstPiece, m.line_eq, List.append_assoc, List.take_append,
      List.take_of_length_le (by omega)]
  have hnull : '\x00' ∉ m.header := by
    have hline : '\x00' ∉ ({ m with path := [] } : Mapping).line :=
      Mapping.not_mem_line rfl rfl (by decide) (not_mem_perms _ (by decide)) List.not_mem_nil
    rw [Mapping.line_eq] at hline
    exact fun h => hline (List.mem_append_left _ h)
  have hcstring : cstring m.firstPiece =
      m.header ++ cstring ((m.tail ++ ['\n']).take (1023 - m.header.length)) := by
    rw [hpiece, cstring, List.takeWhile_append_of_pos (forall_ne_of_not_mem hnull)]
    rfl
  rw [sscanf, parseFormat_mapsFormat, hcstring, scan_header]
  rfl

end firstPiece

/-! ### What the pieces show of a path -/

/-- A stored text is a word of its piece. -/
theorem isWord_of_mem_maps {piece w : Text} (h : Item.str w ∈ (sscanf piece mapsFormat).items) :
    IsWord w ∧ w <:+: piece := by
  rw [sscanf, parseFormat_mapsFormat] at h
  refine ⟨isWord_of_mem_items (fun c hc => ?_) h, ?_⟩
  · simp [mapsDirectives] at hc
  · exact (isInfix_of_mem_items h).trans (List.takeWhile_prefix _).isInfix

section condition
variable (moduleName : Text)

end condition

section answer
variable {moduleName : Text} (hname : moduleName ≠ [])
include hname

end answer

/-- The library behind a line without its name and one of more than 1023 bytes. -/
def threeLines : List Mapping :=
  [{ segment 0x5000 true with path := "/lib/libc.so" },
    { segment 0x6000 true with path := '/' :: List.replicate 1100 'x' }, segment 0x1000 true]

theorem threeLines_wellFormed : ∀ m ∈ threeLines, m.WellFormed := by
  intro m hm
  rcases List.mem_cons.1 hm with rfl | hm
  · exact ⟨by decide, by decide, by decide⟩
  rcases List.mem_cons.1 hm with rfl | hm
  · exact ⟨by decide, by decide, by decide +kernel⟩
  obtain rfl := List.mem_singleton.1 hm
  exact ⟨by decide, by decide, by decide⟩

end Il2CppDumper
