import Il2CppDumper.Clib.Numeral

/-!
# `std::stringstream` for output

The buffer, the put position and the number base. Text is written over the buffer from the put
position on; `seekp` moves the position without touching the buffer, and a seek out of the buffer
fails the stream for good.

Almost every program only appends: `ofText t b` is the stream at the end of its text `t`, and each
operation on it is again one (`put_ofText`, `putNat_ofText`, `foldl_ofText`). Stepping back is only
used to overwrite a separator: `put_seekp_ofText`.
-/

namespace Clib

structure OStringStream where
  buf : Text
  pos : Nat
  base : Base
  good : Bool
  pos_le : pos ≤ buf.length

namespace OStringStream

/-- A stream that stands at the end of the text it holds. -/
def ofText (t : Text) (b : Base) : OStringStream := ⟨t, t.length, b, true, Nat.le_refl _⟩

def empty : OStringStream := ofText [] .dec

/-- `os << s`. -/
def put (os : OStringStream) (s : Text) : OStringStream :=
  if os.good then
    { os with
      buf := os.buf.take os.pos ++ s ++ os.buf.drop (os.pos + s.length)
      pos := os.pos + s.length
      pos_le := by have := os.pos_le; simp; omega }
  else os

/-- `if (c) os << s`. -/
def putIf (os : OStringStream) (c : Prop) [Decidable c] (s : Text) : OStringStream :=
  if c then os.put s else os

/-- `os << std::dec` and `os << std::hex`. -/
def setBase (os : OStringStream) (b : Base) : OStringStream := { os with base := b }

/-- `os << n` for an unsigned `n`. -/
def putNat (os : OStringStream) (n : Nat) : OStringStream := os.put (numeral os.base n)

/-- `os.seekp(-k, os.cur)`. -/
def seekp (os : OStringStream) (k : Nat) : OStringStream :=
  if k ≤ os.pos then { os with pos := os.pos - k, pos_le := Nat.le_trans (Nat.sub_le _ _) os.pos_le }
  else { os with good := false }

def str (os : OStringStream) : Text := os.buf

/-! ### Appending -/

section append
variable (t : Text) (b : Base)

@[simp] theorem str_ofText : (ofText t b).str = t := rfl

@[simp] theorem buf_ofText : (ofText t b).buf = t := rfl

@[simp] theorem pos_ofText : (ofText t b).pos = t.length := rfl

@[simp] theorem base_ofText : (ofText t b).base = b := rfl

@[simp] theorem good_ofText : (ofText t b).good = true := rfl

@[simp] theorem put_ofText (s : Text) : (ofText t b).put s = ofText (t ++ s) b := by
  simp [ofText, put]

@[simp] theorem putIf_ofText (c : Prop) [Decidable c] (s : Text) :
    (ofText t b).putIf c s = ofText (t ++ if c then s else []) b := by
  unfold putIf
  split <;> simp

@[simp] theorem setBase_ofText (b' : Base) : (ofText t b).setBase b' = ofText t b' := rfl

@[simp] theorem putNat_ofText (n : Nat) :
    (ofText t b).putNat n = ofText (t ++ numeral b n) b := by
  simp [putNat]

/-- Stepping back over written text and writing at least as much replaces it. -/
theorem put_seekp_ofText (back s : Text) (h : back.length ≤ s.length) :
    ((ofText (t ++ back) b).seekp back.length).put s = ofText (t ++ s) b := by
  have hle : back.length ≤ (ofText (t ++ back) b).pos := by simp
  have hpos : (ofText (t ++ back) b).pos - back.length = t.length := by simp
  have hdrop : (t ++ back).drop (t.length + s.length) = [] :=
    List.drop_eq_nil_of_le (by simpa using h)
  rw [seekp, if_pos hle]
  simp only [put, hpos, buf_ofText, base_ofText, good_ofText, if_true, List.take_left, hdrop]
  simp [ofText]

end append

/-- A loop that appends to the stream on every turn. -/
theorem foldl_ofText {α : Type} {f : OStringStream → α → OStringStream} {g : α → Text} (l : List α)
    (hf : ∀ t b x, x ∈ l → ∃ b', f (ofText t b) x = ofText (t ++ g x) b') (t : Text) (b : Base) :
    ∃ b', l.foldl f (ofText t b) = ofText (t ++ l.flatMap g) b' := by
  induction l generalizing t b with
  | nil => exact ⟨b, by simp⟩
  | cons x l ih =>
    obtain ⟨b', hx⟩ := hf t b x (by simp)
    obtain ⟨b'', hl⟩ := ih (fun t b y hy => hf t b y (by simp [hy])) (t ++ g x) b'
    exact ⟨b'', by rw [List.foldl_cons, hx, hl]; simp⟩

end OStringStream

end Clib
