import Il2CppDumper.Model.Dump

/-!
# What the dump functions write

The text of each dump function as a plain concatenation: `dumpField_eq`, `dumpProperty_eq`,
`dumpMethod_eq` and `dumpType_eq` run the streams once and for all, so that nothing after this module
looks at a put position or a number base. The step back over the last parameter separator is undone
in `dumpMethodStep_ofText`.

The modifiers are keywords, each followed by a blank (`Spaced`), whatever the flags are.
-/

namespace Il2CppDumper

open Clib OStringStream

/-! ### Modifiers are keywords -/

/-- Words of `keywords`, each followed by a blank. -/
def Spaced (keywords : List Text) (t : Text) : Prop :=
  ∃ ws, (∀ w ∈ ws, w ∈ keywords) ∧ t = terminated ' ' ws

/-- The words of a text whose words are each followed by a blank. -/
def modifierWords (t : Text) : List Text := (t.splitOn ' ').dropLast

/-- Every word that can stand before the type of a member or the kind of a type. -/
def modifierKeywords : List Text :=
  ["private", "public", "protected", "internal", "static", "const", "readonly", "abstract",
    "sealed", "override", "virtual", "extern"]

/-- Every word that can stand before the type of a parameter. -/
def paramKeywords : List Text := ["out", "in", "ref", "[In]", "[Out]"]

section Spaced
variable {K : List Text} {s t : Text}

theorem Spaced.nil : Spaced K [] := ⟨[], by simp, rfl⟩

theorem Spaced.of_words (ws : List Text) (hws : ∀ w ∈ ws, w ∈ K) : Spaced K (terminated ' ' ws) :=
  ⟨ws, hws, rfl⟩

theorem Spaced.word {w : Text} (hw : w ∈ K) : Spaced K (w ++ [' ']) := by
  simpa using Spaced.of_words [w] (by simpa using hw)

theorem Spaced.append (hs : Spaced K s) (ht : Spaced K t) : Spaced K (s ++ t) := by
  obtain ⟨ws, hws, rfl⟩ := hs
  obtain ⟨vs, hvs, rfl⟩ := ht
  refine ⟨ws ++ vs, fun w hw => ?_, (terminated_append ws vs).symm⟩
  rcases List.mem_append.1 hw with hw | hw
  · exact hws w hw
  · exact hvs w hw

theorem Spaced.words_mem (h : Spaced K t) (hK : ∀ w ∈ K, ' ' ∉ w) :
    ∀ w ∈ modifierWords t, w ∈ K := by
  obtain ⟨ws, hws, rfl⟩ := h
  rw [modifierWords, dropLast_splitOn_terminated ws fun w hw => hK w (hws w hw)]
  exact hws

theorem Spaced.terminated_words (h : Spaced K t) (hK : ∀ w ∈ K, ' ' ∉ w) :
    terminated ' ' (modifierWords t) = t := by
  obtain ⟨ws, hws, rfl⟩ := h
  rw [modifierWords, dropLast_splitOn_terminated ws fun w hw => hK w (hws w hw)]

end Spaced

theorem blank_not_mem_modifierKeywords : ∀ w ∈ modifierKeywords, ' ' ∉ w := by decide

theorem blank_not_mem_paramKeywords : ∀ w ∈ paramKeywords, ' ' ∉ w := by decide

/-- A stream that has only written keywords. -/
def Writes (K : List Text) (os : OStringStream) : Prop := ∃ t b, os = ofText t b ∧ Spaced K t

section Writes
variable {K : List Text} {os : OStringStream} {s : Text}

theorem Writes.empty : Writes K OStringStream.empty := ⟨[], .dec, rfl, .nil⟩

theorem Writes.put (h : Writes K os) (hs : Spaced K s) : Writes K (os.put s) := by
  obtain ⟨t, b, rfl, ht⟩ := h
  exact ⟨t ++ s, b, put_ofText t b s, ht.append hs⟩

theorem Writes.putIf (h : Writes K os) {c : Prop} [Decidable c] (hs : Spaced K s) :
    Writes K (os.putIf c s) := by
  unfold OStringStream.putIf
  split
  · exact h.put hs
  · exact h

theorem Writes.str (h : Writes K os) : Spaced K os.str := by
  obtain ⟨t, b, rfl, ht⟩ := h
  exact ht

end Writes

section modifiers

theorem methodAccess_spaced (access : UInt32) : Spaced modifierKeywords (methodAccess access) := by
  unfold methodAccess
  split_ifs
  · exact .of_words ["private"] (by decide)
  · exact .of_words ["public"] (by decide)
  · exact .of_words ["protected"] (by decide)
  · exact .of_words ["internal"] (by decide)
  · exact .of_words ["protected", "internal"] (by decide)
  · exact .nil

theorem getMethodModifier_spaced (flags : UInt32) :
    Spaced modifierKeywords (getMethodModifier flags) := by
  have hstart := (Writes.empty.put
    (methodAccess_spaced (flags &&& METHOD_ATTRIBUTE_MEMBER_ACCESS_MASK))).putIf
    (c := flags &&& METHOD_ATTRIBUTE_STATIC ≠ 0) (.word (w := "static") (by decide))
  have hoverride := Spaced.word (K := modifierKeywords) (w := "override") (by decide)
  refine (Writes.putIf ?_ (.word (w := "extern") (by decide))).str
  split_ifs
  · exact (hstart.put (.word (w := "abstract") (by decide))).putIf hoverride
  · exact hstart.putIf (.of_words ["sealed", "override"] (by decide))
  · exact hstart.put (.word (w := "virtual") (by decide))
  · exact hstart.put hoverride
  · exact hstart

theorem fieldAccess_spaced (access : UInt32) : Spaced modifierKeywords (fieldAccess access) := by
  unfold fieldAccess
  split_ifs
  · exact .word (w := "private") (by decide)
  · exact .word (w := "public") (by decide)
  · exact .word (w := "protected") (by decide)
  · exact .word (w := "internal") (by decide)
  · exact .of_words ["protected", "internal"] (by decide)
  · exact .nil

theorem fieldModifier_spaced (attrs : UInt32) :
    Spaced modifierKeywords (fieldModifier attrs) := by
  have hstart := Writes.empty.put
    (fieldAccess_spaced (attrs &&& FIELD_ATTRIBUTE_FIELD_ACCESS_MASK))
  unfold fieldModifier
  refine Writes.str ?_
  split_ifs
  · exact hstart.put (.word (w := "const") (by decide))
  · exact (hstart.putIf (.word (w := "static") (by decide))).putIf
      (.word (w := "readonly") (by decide))

variable {H : Handles} (il2cpp : Il2cppApi H)

theorem paramModifier_spaced (param : H.Il2CppType) :
    Spaced paramKeywords (paramModifier il2cpp param) := by
  unfold paramModifier
  refine Writes.str ?_
  split_ifs
  · exact Writes.empty.put (.word (w := "out") (by decide))
  · exact Writes.empty.put (.word (w := "in") (by decide))
  · exact Writes.empty.put (.word (w := "ref") (by decide))
  · exact (Writes.empty.putIf (.word (w := "[In]") (by decide))).putIf
      (.word (w := "[Out]") (by decide))

theorem propModifier_spaced (get set : Option H.MethodInfo) :
    Spaced modifierKeywords (propModifier il2cpp get set) := by
  cases get with
  | some get => exact getMethodModifier_spaced _
  | none => cases set with
    | some set => exact getMethodModifier_spaced _
    | none => exact .nil

end modifiers

/-! ### The lines of the members -/

section lines
variable {H : Handles} (il2cpp : Il2cppApi H)

def fieldLine (isEnum : Bool) (field : H.FieldInfo) : Text :=
  "\t" ++ fieldModifier (il2cpp.fieldGetFlags field) ++
    il2cpp.classGetName (il2cpp.classFromType (il2cpp.fieldGetType field)) ++ " " ++
    il2cpp.fieldGetName field ++
    (if il2cpp.fieldGetFlags field &&& FIELD_ATTRIBUTE_LITERAL ≠ 0 ∧ isEnum then
      " = " ++ numeral .dec (fieldValue il2cpp field).toNat else []) ++
    "; // 0x" ++ numeral .hex (il2cpp.fieldGetOffset field).toNat

theorem dumpFieldStep_ofText (isEnum : Bool) (field : H.FieldInfo) (t : Text) (b : Base) :
    dumpFieldStep il2cpp isEnum (ofText t b) field =
      ofText (t ++ (fieldLine il2cpp isEnum field ++ ['\n'])) .hex := by
  by_cases h : il2cpp.fieldGetFlags field &&& FIELD_ATTRIBUTE_LITERAL ≠ 0 ∧ isEnum = true
  · simp only [dumpFieldStep, fieldLine, if_pos h]
    simp
  · simp only [dumpFieldStep, fieldLine, if_neg h]
    simp

theorem dumpField_eq (klass : H.Il2CppClass) :
    dumpField il2cpp klass = "\n\t// Fields\n" ++ terminated '\n'
      ((il2cpp.classGetFields klass).map (fieldLine il2cpp (il2cpp.classIsEnum klass))) := by
  obtain ⟨b, hfold⟩ := foldl_ofText (il2cpp.classGetFields klass)
    (fun t b field _ => ⟨.hex, dumpFieldStep_ofText il2cpp (il2cpp.classIsEnum klass) field t b⟩)
    "\n\t// Fields\n" .dec
  simp only [dumpField, OStringStream.empty, put_ofText, List.nil_append, hfold, str_ofText]
  simp [terminated, List.flatMap_map]

def hasAccessor (prop : H.PropertyInfo) : Prop :=
  (il2cpp.propertyGetGetMethod prop).isSome ∨ (il2cpp.propertyGetSetMethod prop).isSome

instance (prop : H.PropertyInfo) : Decidable (hasAccessor il2cpp prop) :=
  inferInstanceAs (Decidable (_ ∨ _))

theorem propClass_isSome_iff (prop : H.PropertyInfo) :
    (propClass il2cpp (il2cpp.propertyGetGetMethod prop)
      (il2cpp.propertyGetSetMethod prop)).isSome ↔ hasAccessor il2cpp prop := by
  unfold propClass hasAccessor
  cases il2cpp.propertyGetGetMethod prop <;> cases il2cpp.propertyGetSetMethod prop <;> simp

/-- The text of a property without the end of its line. -/
def propertyLine (prop : H.PropertyInfo) : Text :=
  let get := il2cpp.propertyGetGetMethod prop
  let set := il2cpp.propertyGetSetMethod prop
  "\t" ++ propModifier il2cpp get set ++
    match propClass il2cpp get set with
    | some propClass =>
      il2cpp.classGetName propClass ++ " " ++ (il2cpp.propertyGetName prop).getD [] ++ " \x7b " ++
        (if get.isSome then ("get; " : Text) else []) ++
        (if set.isSome then ("set; " : Text) else []) ++ "\x7d"
    | none =>
      match il2cpp.propertyGetName prop with
      | some name => " // unknown property " ++ name
      | none => []

/-- Only a property with an accessor ends its line. -/
def propertyText (prop : H.PropertyInfo) : Text :=
  propertyLine il2cpp prop ++ if hasAccessor il2cpp prop then ['\n'] else []

theorem dumpPropertyStep_ofText (prop : H.PropertyInfo)
    (hname : hasAccessor il2cpp prop → (il2cpp.propertyGetName prop).isSome) (t : Text) (b : Base) :
    dumpPropertyStep il2cpp (ofText t b) prop =
      .ok (ofText (t ++ propertyText il2cpp prop) b) := by
  have hclass := propClass_isSome_iff il2cpp prop
  simp only [dumpPropertyStep, propertyText, propertyLine]
  rcases hc : propClass il2cpp (il2cpp.propertyGetGetMethod prop)
    (il2cpp.propertyGetSetMethod prop) with _ | propClass
  · -- no accessor: the name, if there is one, and no end of line
    have hnone : ¬ hasAccessor il2cpp prop := by rw [← hclass, hc]; simp
    rw [if_neg hnone]
    rcases il2cpp.propertyGetName prop with _ | name
    · simp only [put_ofText, pure, Except.pure, List.append_assoc, List.append_nil]
    · simp only [put_ofText, pure, Except.pure, List.append_assoc, List.append_nil]
  · have haccessor : hasAccessor il2cpp prop := by rw [← hclass, hc]; rfl
    obtain ⟨name, hn⟩ := Option.isSome_iff_exists.1 (hname haccessor)
    rw [if_pos haccessor, hn]
    simp only [cstr, bind, Except.bind, pure, Except.pure, put_ofText, putIf_ofText,
      Option.getD_some, List.append_assoc]
    rfl

theorem dumpProperty_eq (klass : H.Il2CppClass)
    (hname : ∀ prop ∈ il2cpp.classGetProperties klass,
      hasAccessor il2cpp prop → (il2cpp.propertyGetName prop).isSome) :
    dumpProperty il2cpp klass = .ok ("\n\t// Properties\n" ++
      (il2cpp.classGetProperties klass).flatMap (propertyText il2cpp)) := by
  have hfold : ∀ (props : List H.PropertyInfo) (t : Text),
      (∀ prop ∈ props, hasAccessor il2cpp prop → (il2cpp.propertyGetName prop).isSome) →
      props.foldlM (dumpPropertyStep il2cpp) (ofText t .dec) =
        .ok (ofText (t ++ props.flatMap (propertyText il2cpp)) .dec) := by
    intro props
    induction props with
    | nil => intro t _; simp [pure, Except.pure]
    | cons prop props ih =>
      intro t hprops
      rw [List.foldlM_cons, dumpPropertyStep_ofText il2cpp prop (hprops prop (by simp))]
      simp only [bind, Except.bind]
      rw [ih _ fun p hp => hprops p (by simp [hp])]
      simp
  simp only [dumpProperty, OStringStream.empty, put_ofText, List.nil_append, hfold _ _ hname]
  rfl

def paramText (method : H.MethodInfo) (i : Nat) : Text :=
  paramModifier il2cpp (il2cpp.methodGetParam method i) ++
    il2cpp.classGetName (il2cpp.classFromType (il2cpp.methodGetParam method i)) ++ " " ++
    il2cpp.methodGetParamName method i

def pointerLine (il2cppBase : UInt64) (method : H.MethodInfo) : Text :=
  let pointer := il2cpp.methodPointer method
  if pointer ≠ 0 then
    "\t// RVA: 0x" ++ numeral .hex (pointer - il2cppBase).toNat ++ " VA: 0x" ++
      numeral .hex pointer.toNat
  else "\t// RVA: 0x VA: 0x0"

/-- The type of a returned value, as a declaration of a method shows it. -/
def returnTypeText (type : H.Il2CppType) : Text :=
  (if typeIsByref il2cpp type then ("ref " : Text) else []) ++
    il2cpp.classGetName (il2cpp.classFromType type)

def signatureLine (method : H.MethodInfo) : Text :=
  "\t" ++ getMethodModifier (il2cpp.methodGetFlags method) ++
    returnTypeText il2cpp (il2cpp.methodGetReturnType method) ++ " " ++
    il2cpp.methodGetName method ++ "(" ++
    List.intercalate ", "
      ((List.range (il2cpp.methodGetParamCount method)).map (paramText il2cpp method)) ++ ") \x7b \x7d"

/-- Separators after every item and one taken back are separators between the items. -/
theorem flatMap_separator {α : Type} (sep : Text) (g : α → Text) (l : List α) (hl : l ≠ []) :
    l.flatMap (fun x => g x ++ sep) = sep.intercalate (l.map g) ++ sep := by
  induction l with
  | nil => exact absurd rfl hl
  | cons x l ih =>
    cases l with
    | nil => simp
    | cons y l =>
      rw [List.flatMap_cons, ih (by simp)]
      simp [List.intercalate_cons_cons]

/-- The parameter list: a separator after every parameter, and the last one overwritten. -/
theorem params_ofText (method : H.MethodInfo) (n : Nat) (t : Text) (b : Base) :
    ∃ b', ((if 0 < n then
        ((List.range n).foldl (dumpParamStep il2cpp method) (ofText t b)).seekp 2
      else (List.range n).foldl (dumpParamStep il2cpp method) (ofText t b)).put ") \x7b \x7d\n") =
      ofText (t ++ (List.intercalate ", " ((List.range n).map (paramText il2cpp method)) ++
        ") \x7b \x7d\n")) b' := by
  obtain ⟨b', hfold⟩ := foldl_ofText (f := dumpParamStep il2cpp method)
    (g := fun i => paramText il2cpp method i ++ ", ") (List.range n)
    (fun t b i _ => ⟨b, by simp [dumpParamStep, paramText]⟩) t b
  refine ⟨b', ?_⟩
  rw [hfold]
  split
  · rename_i hn
    rw [flatMap_separator _ _ _ (by simp; omega), ← List.append_assoc]
    exact (put_seekp_ofText _ b' ", " ") \x7b \x7d\n" (by decide)).trans (by simp)
  · rename_i hn
    obtain rfl : n = 0 := by omega
    simp

def methodText (il2cppBase : UInt64) (method : H.MethodInfo) : Text :=
  terminated '\n' [pointerLine il2cpp il2cppBase method, signatureLine il2cpp method]

theorem pointer_ofText (il2cppBase : UInt64) (method : H.MethodInfo) (t : Text) (b : Base) :
    ∃ b', (if il2cpp.methodPointer method ≠ 0 then
      ((((((ofText t b).put "\t// RVA: 0x").setBase .hex).putNat
        (il2cpp.methodPointer method - il2cppBase).toNat).put " VA: 0x").setBase .hex).putNat
        (il2cpp.methodPointer method).toNat
      else (ofText t b).put "\t// RVA: 0x VA: 0x0") =
      ofText (t ++ pointerLine il2cpp il2cppBase method) b' := by
  by_cases h : il2cpp.methodPointer method ≠ 0
  · refine ⟨.hex, ?_⟩
    simp only [pointerLine, if_pos h, put_ofText, setBase_ofText, putNat_ofText, List.append_assoc]
  · refine ⟨b, ?_⟩
    simp only [pointerLine, if_neg h, put_ofText]

theorem dumpMethodStep_ofText (il2cppBase : UInt64) (method : H.MethodInfo) (t : Text) (b : Base) :
    ∃ b', dumpMethodStep il2cpp il2cppBase (ofText t b) method =
      ofText (t ++ methodText il2cpp il2cppBase method) b' := by
  obtain ⟨b', hpointer⟩ := pointer_ofText il2cpp il2cppBase method t b
  simp only [dumpMethodStep]
  rw [hpointer]
  simp only [put_ofText, putIf_ofText]
  obtain ⟨b'', hparams⟩ := params_ofText il2cpp method (il2cpp.methodGetParamCount method) _ b'
  refine ⟨b'', hparams.trans ?_⟩
  simp only [methodText, signatureLine, returnTypeText, terminated_cons, terminated_nil,
    List.append_assoc]
  rfl

theorem dumpMethod_eq (il2cppBase : UInt64) (klass : H.Il2CppClass) :
    dumpMethod il2cpp il2cppBase klass = "\n\t// Methods\n" ++
      (il2cpp.classGetMethods klass).flatMap (methodText il2cpp il2cppBase) := by
  obtain ⟨b, hfold⟩ := foldl_ofText (il2cpp.classGetMethods klass)
    (fun t b method _ => dumpMethodStep_ofText il2cpp il2cppBase method t b)
    "\n\t// Methods\n" .dec
  simp only [dumpMethod, OStringStream.empty, put_ofText, List.nil_append, hfold, str_ofText]

/-! ### The text of a type -/

/-- ` : Base, IFirst, ISecond`. -/
def extendsText (extends_ : List Text) : Text :=
  if extends_ = [] then [] else (" : " : Text) ++ List.intercalate ", " extends_

theorem intercalate_cons_flatMap (sep first : Text) (rest : List Text) :
    sep.intercalate (first :: rest) = first ++ rest.flatMap (sep ++ ·) := by
  induction rest generalizing first with
  | nil => simp
  | cons second rest ih => rw [List.intercalate_cons_cons, ih]; simp

theorem putExtends_ofText (extends_ : List Text) (t : Text) (b : Base) :
    putExtends (ofText t b) extends_ = ofText (t ++ extendsText extends_) b := by
  have hfold : ∀ (rest : List Text) (t : Text),
      rest.foldl (fun outPut base => (outPut.put ", ").put base) (ofText t b) =
        ofText (t ++ rest.flatMap (", ".toList ++ ·)) b := by
    intro rest
    induction rest with
    | nil => simp
    | cons base rest ih =>
      intro t
      rw [List.foldl_cons, put_ofText, put_ofText, ih]
      simp
  cases extends_ with
  | nil => simp [putExtends, extendsText]
  | cons first rest =>
    simp only [putExtends, put_ofText, hfold, extendsText, intercalate_cons_flatMap,
      List.append_assoc, reduceCtorEq, if_false]

/-- `Foo : Base, IFirst, ISecond` after the modifiers and the kind word. -/
def typeHeader (klass : H.Il2CppClass) : Text :=
  typeModifier (il2cpp.classGetFlags klass) (il2cpp.classIsValuetype klass)
      (il2cpp.classIsEnum klass) ++
    typeKind (il2cpp.classGetFlags klass) (il2cpp.classIsValuetype klass)
      (il2cpp.classIsEnum klass) ++
    il2cpp.classGetName klass ++ extendsText (typeExtends il2cpp klass)

/-- The text of a type up to the line with the opening brace. -/
def typeHead (klass : H.Il2CppClass) : Text :=
  "\n// Namespace: " ++ il2cpp.classGetNamespace klass ++ "\n" ++
    (if il2cpp.classGetFlags klass &&& TYPE_ATTRIBUTE_SERIALIZABLE ≠ 0 then
      ("[Serializable]\n" : Text) else []) ++
    typeHeader il2cpp klass

/-- What stands between `{` and `}`. -/
def bodyText (il2cppBase : UInt64) (klass : H.Il2CppClass) : Text :=
  dumpField il2cpp klass ++ ("\n\t// Properties\n" ++
    (il2cpp.classGetProperties klass).flatMap (propertyText il2cpp)) ++
    dumpMethod il2cpp il2cppBase klass

theorem dumpType_eq (il2cppBase : UInt64) (type : H.Il2CppType)
    (hname : ∀ prop ∈ il2cpp.classGetProperties (il2cpp.classFromType type),
      hasAccessor il2cpp prop → (il2cpp.propertyGetName prop).isSome) :
    dumpType il2cpp il2cppBase type =
      .ok (typeHead il2cpp (il2cpp.classFromType type) ++ "\n\x7b" ++
        bodyText il2cpp il2cppBase (il2cpp.classFromType type) ++ "\x7d\n") := by
  delta typeHead
  simp only [dumpType, OStringStream.empty, put_ofText, putIf_ofText, putExtends_ofText,
    List.nil_append, dumpProperty_eq il2cpp _ hname, bind, Except.bind, pure, Except.pure,
    str_ofText, bodyText, typeHeader, List.append_assoc]

end lines

end Il2CppDumper
