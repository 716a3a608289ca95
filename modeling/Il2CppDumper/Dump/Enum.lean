import Il2CppDumper.Dump.Layout

/-!
# The values of enums

`dump_field` reads the value of a literal into a zeroed 64-bit slot and prints the slot as an unsigned
number. Nothing extends the sign: the printed numeral denotes the value modulo `256 ^ width`, which is
the value itself exactly if it is not negative (`printed_value_iff`).
-/

namespace Il2CppDumper

open Clib OStringStream

/-- An integral type that an enum can have underneath. -/
structure IntegralType where
  width : Nat
  signed : Bool
  width_mem : width ∈ [1, 2, 4, 8]

namespace IntegralType

/-- The least value of the type. -/
def least (τ : IntegralType) : Int := if τ.signed then -(256 ^ τ.width / 2) else 0

/-- The number after the greatest value of the type. -/
def bound (τ : IntegralType) : Int := if τ.signed then 256 ^ τ.width / 2 else 256 ^ τ.width

def Holds (τ : IntegralType) (v : Int) : Prop := τ.least ≤ v ∧ v < τ.bound

instance (τ : IntegralType) (v : Int) : Decidable (τ.Holds v) :=
  inferInstanceAs (Decidable (_ ∧ _))

variable {τ : IntegralType}

theorem width_le (τ : IntegralType) : τ.width ≤ 8 := by
  have hwidth := τ.width_mem
  simp only [List.mem_cons, List.not_mem_nil, or_false] at hwidth
  omega

theorem Holds.lt {v : Int} (hv : τ.Holds v) : v < 256 ^ τ.width := by
  have hpos : (0 : Int) < 256 ^ τ.width := Int.pow_pos (by decide)
  have hbound : τ.bound ≤ 256 ^ τ.width := by
    unfold bound
    split <;> omega
  exact Int.lt_of_lt_of_le hv.2 hbound

end IntegralType

variable {H : Handles} (il2cpp : Il2cppApi H)

/-- What `dump_field` writes of a field before its value. -/
def fieldDeclText (field : H.FieldInfo) : Text :=
  "\t" ++ fieldModifier (il2cpp.fieldGetFlags field) ++
    il2cpp.classGetName (il2cpp.classFromType (il2cpp.fieldGetType field)) ++ " " ++
    il2cpp.fieldGetName field

/-- The field section with the value of one field, the literal of an enum, cut out. -/
def PrintsValue (klass : H.Il2CppClass) (before : List H.FieldInfo) (field : H.FieldInfo)
    (after : List H.FieldInfo) (digits : Text) : Prop :=
  dumpField il2cpp klass = "\n\t// Fields\n" ++ terminated '\n' (before.map (fieldLine il2cpp true)) ++
    fieldDeclText il2cpp field ++ " = " ++ digits ++ "; // 0x" ++
    numeral .hex (il2cpp.fieldGetOffset field).toNat ++ "\n" ++
    terminated '\n' (after.map (fieldLine il2cpp true))

section printed
variable {il2cpp} {klass : H.Il2CppClass} {before after : List H.FieldInfo} {field : H.FieldInfo}
  (hklass : il2cpp.classIsEnum klass = true)
  (hfields : il2cpp.classGetFields klass = before ++ field :: after)
  (hliteral : il2cpp.fieldGetFlags field &&& FIELD_ATTRIBUTE_LITERAL ≠ 0)
include hklass hfields hliteral

theorem printsValue_iff (digits : Text) :
    PrintsValue il2cpp klass before field after digits ↔
      digits = numeral .dec (fieldValue il2cpp field).toNat := by
  have hline : fieldLine il2cpp true field = fieldDeclText il2cpp field ++
      (" = " ++ (numeral .dec (fieldValue il2cpp field).toNat ++ ("; // 0x" ++
        numeral .hex (il2cpp.fieldGetOffset field).toNat))) := by
    rw [fieldLine, if_pos ⟨hliteral, rfl⟩, fieldDeclText]
    simp only [List.append_assoc]
  rw [PrintsValue, dumpField_eq, hfields, hklass, List.map_append, List.map_cons, terminated_append,
    terminated_cons, hline]
  simp only [List.append_assoc, List.append_cancel_left_eq]
  rw [eq_comm]
  exact List.append_left_inj _

end printed

/-- **A literal is printed as its value exactly if the value is not negative.** -/
theorem printed_value_iff (klass : H.Il2CppClass) (hklass : il2cpp.classIsEnum klass = true)
    (before after : List H.FieldInfo) (field : H.FieldInfo)
    (hfields : il2cpp.classGetFields klass = before ++ field :: after)
    (hliteral : il2cpp.fieldGetFlags field &&& FIELD_ATTRIBUTE_LITERAL ≠ 0)
    (τ : IntegralType) (v : Int) (hv : τ.Holds v)
    (hstored : il2cpp.fieldStaticGetValue field = twosComplement τ.width v) :
    (∃ digits, PrintsValue il2cpp klass before field after digits ∧ readDecimal digits = some v) ↔
      0 ≤ v := by
  have hslot := loadSlot_twosComplement τ.width_le v
  have hlt : loadSlot 8 (twosComplement τ.width v) < 2 ^ 64 := loadSlot_lt 8 _
  have hvalue : ((fieldValue il2cpp field).toNat : Int) = v % 256 ^ τ.width := by
    rw [fieldValue, hstored, UInt64.toNat_ofNat_of_lt' hlt, hslot]
  simp only [printsValue_iff hklass hfields hliteral, exists_eq_left, readDecimal_numeral, hvalue,
    Option.some.injEq]
  exact emod_eq_self_iff hv.lt

/-- An enum over `byte` whose only member is `f = 200`. -/
def byteMember : Il2cppApi .numbered :=
  { Il2cppApi.blank with
    classIsEnum := fun _ => true
    classGetFields := fun _ => [0]
    fieldGetFlags := fun _ => FIELD_ATTRIBUTE_LITERAL
    fieldStaticGetValue := fun _ => twosComplement 1 200 }

theorem printed_value_byteMember :
    (∃ digits, PrintsValue byteMember 0 [] 0 [] digits ∧ readDecimal digits = some 200) ↔
      (0 : Int) ≤ 200 :=
  printed_value_iff byteMember 0 rfl [] [] 0 rfl (by decide) ⟨1, false, by decide⟩ 200 (by decide) rfl

/-- An enum over `sbyte` whose only member is `f = -1`. -/
def negativeMember : Il2cppApi .numbered :=
  { Il2cppApi.blank with
    classIsEnum := fun _ => true
    classGetFields := fun _ => [0]
    fieldGetFlags := fun _ => FIELD_ATTRIBUTE_LITERAL
    fieldStaticGetValue := fun _ => twosComplement 1 (-1) }

/-- The member is printed as 255. -/
theorem negativeMember_misprinted :
    negativeMember.classIsEnum 0 = true ∧ negativeMember.classGetFields 0 = [0] ∧
      negativeMember.fieldGetFlags 0 &&& FIELD_ATTRIBUTE_LITERAL ≠ 0 ∧
      (⟨1, true, by decide⟩ : IntegralType).Holds (-1) ∧
      negativeMember.fieldStaticGetValue 0 = twosComplement 1 (-1) ∧
      PrintsValue negativeMember 0 [] 0 [] "255" ∧
      ¬ ∃ digits, PrintsValue negativeMember 0 [] 0 [] digits ∧ readDecimal digits = some (-1) := by
  have hprinted : ∀ digits, PrintsValue negativeMember 0 [] 0 [] digits ↔
      digits = numeral .dec (fieldValue negativeMember 0).toNat :=
    printsValue_iff rfl rfl (by decide)
  refine ⟨rfl, rfl, by decide, by decide, rfl, (hprinted "255").2 (by decide), ?_⟩
  rintro ⟨digits, hdigits, hread⟩
  rw [(hprinted digits).1 hdigits, readDecimal_numeral] at hread
  exact absurd hread (by decide)

end Il2CppDumper
