import Il2CppDumper.Clib.Text

/-!
# `std::ofstream`

A file opened for writing, written piece by piece and closed. Anything can go wrong at any point, as
the `Device` decides: the file cannot be opened, a write is cut short, the last flush loses a tail. A
failed stream ignores what is written to it, and nothing is reported unless the program asks.

The file holds the pieces in order exactly if the device keeps them (`fileContent_eq_iff`), as one does
where nothing goes wrong (`fileContent_sound`).
-/

namespace Clib

/-- What happens to a file that is written. -/
structure Device where
  /-- The file can be opened. -/
  opens : Bool
  /-- How many characters of the write with this number are taken, if it is cut short. -/
  cut : Nat → Option Nat
  /-- How many characters are kept at the end, if the last flush fails. -/
  lost : Option Nat

/-- Nothing goes wrong. -/
def Device.sound : Device := ⟨true, fun _ => none, none⟩

structure OFStream where
  opened : Bool
  good : Bool
  written : Nat
  text : Text
  deriving DecidableEq, Repr

namespace OFStream
variable (device : Device)

/-- `std::ofstream os(path)`. -/
def create : OFStream := ⟨device.opens, device.opens, 0, []⟩

/-- `os << s`. -/
def put (os : OFStream) (s : Text) : OFStream :=
  if os.good then
    match device.cut os.written with
    | none => { os with written := os.written + 1, text := os.text ++ s }
    | some k => { os with good := false, written := os.written + 1, text := os.text ++ s.take k }
  else os

/-- `os.close()`: what the file then holds, if it was opened. -/
def close (os : OFStream) : Option Text :=
  if os.opened then
    match device.lost with
    | none => some os.text
    | some k => some (os.text.take k)
  else none

end OFStream

/-- A file opened, written piece by piece and closed. -/
def fileContent (device : Device) (pieces : List Text) : Option Text :=
  (pieces.foldl (OFStream.put device) (OFStream.create device)).close device

/-! ### What is kept -/

/-- What a good stream takes from the write with this number on. -/
def Device.taken (device : Device) : Nat → List Text → Text
  | _, [] => []
  | n, s :: pieces =>
    match device.cut n with
    | none => s ++ device.taken (n + 1) pieces
    | some k => s.take k

/-- Nothing of the pieces is lost: the file is opened, a write that is cut short has nothing left to
write, and neither has a last flush that fails. -/
structure Device.Keeps (device : Device) (pieces : List Text) : Prop where
  opens : device.opens = true
  cut : ∀ before s after k, pieces = before ++ s :: after → device.cut before.length = some k →
    s.length ≤ k ∧ after.flatten = []
  lost : ∀ k, device.lost = some k → pieces.flatten.length ≤ k

section kept
variable (device : Device)

theorem foldl_put_bad {os : OFStream} (h : os.good = false) (pieces : List Text) :
    pieces.foldl (OFStream.put device) os = os := by
  induction pieces with
  | nil => rfl
  | cons s pieces ih => rw [List.foldl_cons, OFStream.put, if_neg (by simp [h]), ih]

theorem close_foldl_put (pieces : List Text) (n : Nat) (t : Text) :
    (pieces.foldl (OFStream.put device) ⟨true, true, n, t⟩).close device =
      (OFStream.mk true true n (t ++ device.taken n pieces)).close device := by
  induction pieces generalizing n t with
  | nil => rw [Device.taken, List.append_nil, List.foldl_nil]
  | cons s pieces ih =>
    rw [List.foldl_cons, OFStream.put, if_pos rfl, Device.taken]
    cases hcut : device.cut n with
    | none =>
      simp only
      rw [ih, List.append_assoc]
      rfl
    | some k =>
      simp only
      rw [foldl_put_bad device rfl]
      rfl

theorem fileContent_eq (pieces : List Text) :
    fileContent device pieces =
      if device.opens then (OFStream.mk true true 0 (device.taken 0 pieces)).close device else none := by
  rw [fileContent, OFStream.create]
  cases hopens : device.opens
  · rw [foldl_put_bad device rfl]
    rfl
  · exact close_foldl_put device pieces 0 []

theorem taken_prefix (n : Nat) (pieces : List Text) : device.taken n pieces <+: pieces.flatten := by
  induction pieces generalizing n with
  | nil => exact List.prefix_refl []
  | cons s pieces ih =>
    rw [Device.taken, List.flatten_cons]
    cases device.cut n with
    | none => exact (List.prefix_append_right_inj s).2 (ih (n + 1))
    | some k => exact (List.take_prefix k s).trans (List.prefix_append s _)

/-- A property of every element with its number and what comes after it, first and later ones apart. -/
theorem forall_split_cons {P : Nat → Text → List Text → Nat → Prop} {s : Text} {pieces : List Text} :
    (∀ before x after k, s :: pieces = before ++ x :: after → P before.length x after k) ↔
      (∀ k, P 0 s pieces k) ∧
        ∀ before x after k, pieces = before ++ x :: after → P (before.length + 1) x after k := by
  constructor
  · intro h
    exact ⟨fun k => h [] s pieces k rfl, fun before x after k hsplit =>
      h (s :: before) x after k (by rw [hsplit]; rfl)⟩
  · rintro ⟨hfirst, hlater⟩ before x after k hsplit
    cases before with
    | nil =>
      obtain ⟨rfl, rfl⟩ := List.cons_eq_cons.1 hsplit
      exact hfirst k
    | cons _ before => exact hlater before x after k (List.cons_eq_cons.1 hsplit).2

theorem take_eq_append_iff {s t : Text} {k : Nat} : s.take k = s ++ t ↔ s.length ≤ k ∧ t = [] := by
  constructor
  · intro h
    have hlength := congrArg List.length h
    rw [List.length_take, List.length_append] at hlength
    refine ⟨by omega, List.length_eq_zero_iff.1 ?_⟩
    omega
  · rintro ⟨hk, rfl⟩
    rw [List.take_of_length_le hk, List.append_nil]

theorem taken_eq_iff (n : Nat) (pieces : List Text) :
    device.taken n pieces = pieces.flatten ↔
      ∀ before s after k, pieces = before ++ s :: after → device.cut (n + before.length) = some k →
        s.length ≤ k ∧ after.flatten = [] := by
  induction pieces generalizing n with
  | nil =>
    refine iff_of_true rfl fun before s after k hpieces => ?_
    cases before <;> cases hpieces
  | cons s pieces ih =>
    refine Iff.trans ?_ (forall_split_cons (P := fun m s after k =>
      device.cut (n + m) = some k → s.length ≤ k ∧ after.flatten = [])).symm
    rw [Device.taken, List.flatten_cons]
    cases hcut : device.cut n with
    | none =>
      simp only [List.append_cancel_left_eq]
      rw [ih (n + 1)]
      constructor
      · intro h
        refine ⟨fun k hk => ?_, fun before s' after k hsplit hk => ?_⟩
        · cases hk
        · apply h before s' after k hsplit
          rwa [Nat.add_assoc, Nat.add_comm 1]
      · intro h before s' after k hsplit hk
        apply h.2 before s' after k hsplit
        rwa [Nat.add_assoc, Nat.add_comm 1] at hk
    | some k =>
      simp only [take_eq_append_iff]
      constructor
      · intro hkept
        refine ⟨fun k' hk' => ?_, fun before s' after k' hsplit hk' => ?_⟩
        · obtain rfl := Option.some.inj hk'
          exact hkept
        · -- nothing is left to write after the cut
          obtain ⟨-, hnil⟩ := hkept
          rw [hsplit, List.flatten_append, List.append_eq_nil_iff, List.flatten_cons,
            List.append_eq_nil_iff] at hnil
          exact ⟨by simp [hnil.2.1], hnil.2.2⟩
      · intro h
        exact h.1 k rfl

/-- **The file holds all pieces in order exactly if the device keeps them.** -/
theorem fileContent_eq_iff (pieces : List Text) :
    fileContent device pieces = some pieces.flatten ↔ device.Keeps pieces := by
  have htaken := taken_eq_iff device 0 pieces
  simp only [Nat.zero_add] at htaken
  rw [fileContent_eq]
  cases hopens : device.opens
  · refine iff_of_false (fun h => by cases h) fun h => ?_
    rw [h.opens] at hopens
    cases hopens
  · rw [if_pos rfl, OFStream.close, if_pos rfl]
    cases hlost : device.lost with
    | none =>
      simp only [Option.some.injEq]
      rw [htaken]
      exact ⟨fun h => ⟨hopens, h, fun k hk => by rw [hlost] at hk; cases hk⟩, fun h => h.cut⟩
    | some k =>
      simp only [Option.some.injEq]
      constructor
      · intro htake
        have hprefix := taken_prefix device 0 pieces
        have hlength := congrArg List.length htake
        rw [List.length_take] at hlength
        have hle := hprefix.length_le
        have hall := hprefix.eq_of_length (by omega)
        exact ⟨hopens, htaken.1 hall, fun k' hk' => by rw [hlost] at hk'; cases hk'; omega⟩
      · intro h
        rw [htaken.2 h.cut, List.take_of_length_le (h.lost k hlost)]

end kept

end Clib
