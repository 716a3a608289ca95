import Il2CppDumper.Clib.Text

/-!
# Numerals

Unsigned numbers as an output stream prints them (`std::dec`, `std::hex`: lower case, no prefix, no
padding) and as a reader takes them back. `ofNumeral_numeral`: reading a printed numeral gives the
number. A numeral is never empty and holds nothing but digits, so no separator can stand in it.
-/

namespace Clib

/-- The base of a stream or of a conversion. -/
inductive Base where
  | dec
  | hex
  deriving DecidableEq, Repr

def Base.radix : Base → Nat
  | dec => 10
  | hex => 16

theorem Base.one_lt_radix (b : Base) : 1 < b.radix := by cases b <;> decide

/-- The value of a digit, in either case. -/
def digitValue (c : Char) : Option Nat :=
  if '0' ≤ c ∧ c ≤ '9' then some (c.toNat - '0'.toNat)
  else if 'a' ≤ c ∧ c ≤ 'f' then some (c.toNat - 'a'.toNat + 10)
  else if 'A' ≤ c ∧ c ≤ 'F' then some (c.toNat - 'A'.toNat + 10)
  else none

def Base.isDigit (b : Base) (c : Char) : Bool :=
  match digitValue c with
  | some d => d < b.radix
  | none => false

def numeral (b : Base) (n : Nat) : Text := Nat.toDigits b.radix n

def ofNumeral (b : Base) (t : Text) : Nat :=
  t.foldl (fun n c => b.radix * n + (digitValue c).getD 0) 0

theorem digitValue_digitChar : ∀ d < 16, digitValue (Nat.digitChar d) = some d := by decide

variable {b : Base}

theorem Base.digitValue_of_lt {d : Nat} (hd : d < b.radix) :
    digitValue (Nat.digitChar d) = some d :=
  digitValue_digitChar d (Nat.lt_of_lt_of_le hd (by cases b <;> decide))

theorem isDigit_of_mem_numeral {n : Nat} {c : Char} (hc : c ∈ numeral b n) : b.isDigit c = true := by
  have hdigit : ∀ d < b.radix, b.isDigit (Nat.digitChar d) = true := fun d hd => by
    simp [Base.isDigit, Base.digitValue_of_lt hd, hd]
  unfold numeral at hc
  induction n using Nat.strongRecOn with
  | ind n ih =>
    rw [Nat.toDigits_eq_if b.one_lt_radix] at hc
    split at hc
    · rename_i hn
      rw [List.mem_singleton.1 hc]
      exact hdigit n hn
    · rename_i hn
      rcases List.mem_append.1 hc with hc | hc
      · exact ih _ (Nat.div_lt_self (by have := b.one_lt_radix; omega) b.one_lt_radix) hc
      · rw [List.mem_singleton.1 hc]
        exact hdigit _ (Nat.mod_lt _ (by have := b.one_lt_radix; omega))

theorem not_mem_numeral {n : Nat} {c : Char} (hc : b.isDigit c = false) : c ∉ numeral b n := by
  intro h
  rw [isDigit_of_mem_numeral h] at hc
  cases hc

@[simp] theorem numeral_ne_nil {n : Nat} : numeral b n ≠ [] := Nat.toDigits_ne_nil

@[simp] theorem ofNumeral_numeral (n : Nat) : ofNumeral b (numeral b n) = n := by
  unfold numeral
  induction n using Nat.strongRecOn with
  | ind n ih =>
    rw [Nat.toDigits_eq_if b.one_lt_radix]
    split
    · rename_i hn
      simp [ofNumeral, Base.digitValue_of_lt hn]
    · rename_i hn
      have hlt : n / b.radix < n :=
        Nat.div_lt_self (by have := b.one_lt_radix; omega) b.one_lt_radix
      have hmod : n % b.radix < b.radix := Nat.mod_lt _ (by have := b.one_lt_radix; omega)
      have hdiv := ih _ hlt
      unfold ofNumeral at hdiv ⊢
      rw [List.foldl_append, hdiv]
      simp [Base.digitValue_of_lt hmod, Nat.div_add_mod]

/-- Leading zeros do not change the number. -/
theorem ofNumeral_replicate_zero (k : Nat) (t : Text) :
    ofNumeral b (List.replicate k '0' ++ t) = ofNumeral b t := by
  induction k with
  | zero => rfl
  | succ k ih =>
    rw [List.replicate_succ, List.cons_append, ← ih]
    unfold ofNumeral
    rw [List.foldl_cons]
    rfl

/-- The number a decimal numeral denotes, with or without a minus sign. -/
def readDecimal (t : Text) : Option Int :=
  match t with
  | '-' :: ds => if ds ≠ [] ∧ ds.all Base.dec.isDigit then some (-(ofNumeral .dec ds)) else none
  | ds => if ds ≠ [] ∧ ds.all Base.dec.isDigit then some (ofNumeral .dec ds) else none

theorem readDecimal_numeral (n : Nat) : readDecimal (numeral .dec n) = some (n : Int) := by
  have hall : (numeral .dec n).all Base.dec.isDigit = true :=
    List.all_eq_true.2 fun c hc => isDigit_of_mem_numeral hc
  have hminus : ∀ ds, numeral .dec n ≠ '-' :: ds := fun ds h =>
    not_mem_numeral (b := .dec) (n := n) (c := '-') (by decide) (by rw [h]; simp)
  unfold readDecimal
  split
  · rename_i ds h
    exact absurd h (hminus ds)
  · rw [if_pos ⟨numeral_ne_nil, hall⟩, ofNumeral_numeral]

end Clib
