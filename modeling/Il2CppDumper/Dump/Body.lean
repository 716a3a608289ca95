import Il2CppDumper.Clib.Loop
import Il2CppDumper.Dump.Sections

/-!
# Reading a body back

`decodeBody` takes the text between `{` and `}` and returns the fields and the methods of the class;
`decodeBody_dumpType` says that it returns exactly what the class has, in iteration order, for plain
names (`PlainName`).

A line comes apart at its blanks. In a field line the words are counted from the end, where the word
before the last three is `=` only if a value is printed. In a method the declaration ends at the
first parenthesis, and a parameter ends at the first word with a trailing comma (`paramGroups`),
which can only be a parameter name followed by the separator.
-/

namespace Il2CppDumper

open Clib OStringStream

/-! ### The decoder -/

structure FieldDecl where
  modifiers : List Text
  type : Text
  name : Text
  value : Option UInt64
  offset : UInt64
  deriving DecidableEq

structure ParamDecl where
  modifiers : List Text
  type : Text
  name : Text
  deriving DecidableEq

structure MethodDecl where
  va : UInt64
  rva : Option UInt64
  modifiers : List Text
  byref : Bool
  returnType : Text
  name : Text
  params : List ParamDecl
  deriving DecidableEq

/-- A hexadecimal number after its `0x`. -/
def readHex (word : Text) : UInt64 := UInt64.ofNat (ofNumeral .hex (word.drop 2))

def decodeField (line : Text) : Option FieldDecl :=
  match ((line.drop 1).splitOn ' ').reverse with
  | offset :: _ :: last :: equals :: rest =>
    if equals = ['='] then
      match rest with
      | name :: type :: modifiers =>
        some ⟨modifiers.reverse, type, name, some (UInt64.ofNat (ofNumeral .dec last.dropLast)),
          readHex offset⟩
      | _ => none
    else some ⟨rest.reverse, equals, last.dropLast, none, readHex offset⟩
  | _ => none

/-- The words of the parameters: a word with a trailing comma is the last one of its parameter. -/
def paramGroups : List Text → List (List Text)
  | [] => []
  | w :: ws =>
    if w.getLast? = some ',' then [w.dropLast] :: paramGroups ws
    else match paramGroups ws with
      | [] => [[w]]
      | g :: gs => (w :: g) :: gs

def decodeParam (words : List Text) : Option ParamDecl :=
  match words.reverse with
  | name :: type :: modifiers => some ⟨modifiers.reverse, type, name⟩
  | _ => none

def decodeParams (t : Text) : Option (List ParamDecl) :=
  if t = [] then some [] else (paramGroups (t.splitOn ' ')).mapM decodeParam

def decodeMethod (pointers signature : Text) : Option MethodDecl :=
  let declaration := (signature.drop 1).takeWhile (· ≠ '(')
  let params := ((signature.dropWhile (· ≠ '(')).drop 1).takeWhile (· ≠ ')')
  match pointers.splitOn ' ', (declaration.splitOn ' ').reverse with
  | [_, _, rva, _, va], name :: returnType :: rest => do
    let params ← decodeParams params
    let byref : Bool := rest.head? = some "ref".toList
    return {
      va := readHex va
      rva := if rva = "0x".toList then none else some (readHex rva)
      modifiers := (if byref then rest.drop 1 else rest).reverse
      byref, returnType, name, params }
  | _, _ => none

/-- Every method takes two lines. -/
def decodeMethods : List Text → Option (List MethodDecl)
  | [] => some []
  | pointers :: signature :: rest => do
    let method ← decodeMethod pointers signature
    let methods ← decodeMethods rest
    return method :: methods
  | [_] => none

def decodeBody (body : Text) : Option (List FieldDecl × List MethodDecl) := do
  let sections := cutSections ((body.splitOn '\n').drop 1).dropLast
  let fields ← (sections.fields.drop 1).mapM decodeField
  let methods ← decodeMethods (sections.methods.drop 1)
  return (fields, methods)

/-! ### What the class has -/

section decl
variable {H : Handles} (il2cpp : Il2cppApi H)

def fieldDecl (isEnum : Bool) (field : H.FieldInfo) : FieldDecl where
  modifiers := modifierWords (fieldModifier (il2cpp.fieldGetFlags field))
  type := il2cpp.classGetName (il2cpp.classFromType (il2cpp.fieldGetType field))
  name := il2cpp.fieldGetName field
  value :=
    if il2cpp.fieldGetFlags field &&& FIELD_ATTRIBUTE_LITERAL ≠ 0 ∧ isEnum then
      some (fieldValue il2cpp field)
    else none
  offset := il2cpp.fieldGetOffset field

def paramDecl (method : H.MethodInfo) (i : Nat) : ParamDecl where
  modifiers := modifierWords (paramModifier il2cpp (il2cpp.methodGetParam method i))
  type := il2cpp.classGetName (il2cpp.classFromType (il2cpp.methodGetParam method i))
  name := il2cpp.methodGetParamName method i

def methodDecl (il2cppBase : UInt64) (method : H.MethodInfo) : MethodDecl where
  va := il2cpp.methodPointer method
  rva :=
    if il2cpp.methodPointer method = 0 then none
    else some (il2cpp.methodPointer method - il2cppBase)
  modifiers := modifierWords (getMethodModifier (il2cpp.methodGetFlags method))
  byref := typeIsByref il2cpp (il2cpp.methodGetReturnType method)
  returnType := il2cpp.classGetName (il2cpp.classFromType (il2cpp.methodGetReturnType method))
  name := il2cpp.methodGetName method
  params := (List.range (il2cpp.methodGetParamCount method)).map (paramDecl il2cpp method)

end decl

/-! ### Plain names -/

/-- A name that is not empty, has no white space and no parentheses, is not `=` and does not end in
a comma. -/
structure PlainName (name : Text) : Prop where
  ne_nil : name ≠ []
  plain : ∀ c ∈ name, isspace c = false ∧ c ≠ '(' ∧ c ≠ ')'
  ne_equals : name ≠ ['=']
  no_comma : name.getLast? ≠ some ','

instance : DecidablePred PlainName := fun name =>
  let _ : Decidable (∀ c ∈ name, isspace c = false ∧ c ≠ '(' ∧ c ≠ ')') := List.decidableBAll _ name
  decidable_of_iff (name ≠ [] ∧ (∀ c ∈ name, isspace c = false ∧ c ≠ '(' ∧ c ≠ ')') ∧
      name ≠ ['='] ∧ name.getLast? ≠ some ',')
    ⟨fun ⟨hne, hplain, hequals, hcomma⟩ => ⟨hne, hplain, hequals, hcomma⟩,
      fun h => ⟨h.ne_nil, h.plain, h.ne_equals, h.no_comma⟩⟩

namespace PlainName
variable {name : Text} (h : PlainName name)
include h

theorem blank : ' ' ∉ name := fun hc => absurd (h.plain _ hc).1 (by decide)

theorem newline : '\n' ∉ name := fun hc => absurd (h.plain _ hc).1 (by decide)

theorem opening : '(' ∉ name := fun hc => (h.plain _ hc).2.1 rfl

theorem closing : ')' ∉ name := fun hc => (h.plain _ hc).2.2 rfl

end PlainName

variable {H : Handles} (il2cpp : Il2cppApi H)

/-- Every name that a body shows is plain. -/
structure PlainNames (klass : H.Il2CppClass) : Prop where
  class_ : ∀ c, PlainName (il2cpp.classGetName c)
  field : ∀ field ∈ il2cpp.classGetFields klass, PlainName (il2cpp.fieldGetName field)
  property : ∀ prop ∈ il2cpp.classGetProperties klass,
    ∃ name, il2cpp.propertyGetName prop = some name ∧ PlainName name
  method : ∀ method ∈ il2cpp.classGetMethods klass, PlainName (il2cpp.methodGetName method)
  param : ∀ method ∈ il2cpp.classGetMethods klass, ∀ i < il2cpp.methodGetParamCount method,
    PlainName (il2cpp.methodGetParamName method i)

variable {il2cpp} {klass : H.Il2CppClass}

theorem PlainNames.newlineFree (h : PlainNames il2cpp klass) : NewlineFree il2cpp klass where
  class_ c := (h.class_ c).newline
  field field hfield := (h.field field hfield).newline
  property prop hprop name hname := by
    obtain ⟨name', hname', hplain⟩ := h.property prop hprop
    obtain rfl := Option.some.inj (hname.symm.trans hname')
    exact hplain.newline
  named prop hprop _ := by
    obtain ⟨name, hname, -⟩ := h.property prop hprop
    rw [hname]
    rfl
  method method hmethod := (h.method method hmethod).newline
  param method hmethod i hi := (h.param method hmethod i hi).newline

/-! ### Fields -/

theorem readHex_numeral (n : UInt64) : readHex ('0' :: 'x' :: numeral .hex n.toNat) = n := by
  have hdrop : ('0' :: 'x' :: numeral .hex n.toNat).drop 2 = numeral .hex n.toNat := rfl
  rw [readHex, hdrop, ofNumeral_numeral, UInt64.ofNat_toNat]

section words
variable {ws : List Text} {type name : Text} (hws : ∀ w ∈ ws, ' ' ∉ w) (htype : ' ' ∉ type)
  (hname : ' ' ∉ name)
include hws htype hname

theorem decodeField_value (value offset : UInt64) :
    decodeField ("\t" ++ terminated ' ' ws ++ type ++ " " ++ name ++
      (" = " ++ numeral .dec value.toNat) ++ "; // 0x" ++ numeral .hex offset.toNat) =
      some ⟨ws, type, name, some value, offset⟩ := by
  have hdec : ' ' ∉ numeral .dec value.toNat := not_mem_numeral rfl
  have hhex : ' ' ∉ '0' :: 'x' :: numeral .hex offset.toNat := by
    simpa using not_mem_numeral (b := .hex) (n := offset.toNat) (c := ' ') rfl
  have htext : ("\t" ++ terminated ' ' ws ++ type ++ " " ++ name ++
      (" = " ++ numeral .dec value.toNat) ++ "; // 0x" ++ numeral .hex offset.toNat : Text).drop 1 =
      terminated ' ' (ws ++ [type, name, ['='], numeral .dec value.toNat ++ [';'], "//"]) ++
        '0' :: 'x' :: numeral .hex offset.toNat := by
    simp
  have hblank : ∀ w ∈ ws ++ [type, name, ['='], numeral .dec value.toNat ++ [';'], "//"],
      ' ' ∉ w := by
    simp only [List.mem_append, List.mem_cons, List.not_mem_nil, or_false]
    rintro w (hw | rfl | rfl | rfl | rfl | rfl)
    · exact hws w hw
    · exact htype
    · exact hname
    · decide
    · simpa using hdec
    · decide
  rw [decodeField, htext, splitOn_terminated _ hblank, List.splitOn_eq_singleton hhex]
  simp [readHex_numeral]

theorem decodeField_no_value (hequals : type ≠ ['=']) (offset : UInt64) :
    decodeField ("\t" ++ terminated ' ' ws ++ type ++ " " ++ name ++ ([] : Text) ++ "; // 0x" ++
      numeral .hex offset.toNat) = some ⟨ws, type, name, none, offset⟩ := by
  have hhex : ' ' ∉ '0' :: 'x' :: numeral .hex offset.toNat := by
    simpa using not_mem_numeral (b := .hex) (n := offset.toNat) (c := ' ') rfl
  have htext : ("\t" ++ terminated ' ' ws ++ type ++ " " ++ name ++ ([] : Text) ++ "; // 0x" ++
      numeral .hex offset.toNat : Text).drop 1 =
      terminated ' ' (ws ++ [type, name ++ [';'], "//"]) ++
        '0' :: 'x' :: numeral .hex offset.toNat := by
    simp
  have hblank : ∀ w ∈ ws ++ [type, name ++ [';'], "//"], ' ' ∉ w := by
    simp only [List.mem_append, List.mem_cons, List.not_mem_nil, or_false]
    rintro w (hw | rfl | rfl | rfl)
    · exact hws w hw
    · exact htype
    · simpa using hname
    · decide
  rw [decodeField, htext, splitOn_terminated _ hblank, List.splitOn_eq_singleton hhex]
  simp [readHex_numeral, hequals]

end words

/-- The words of a keyword text have no blank. -/
theorem Spaced.blank_not_mem {K : List Text} {t : Text} (h : Spaced K t) (hK : ∀ w ∈ K, ' ' ∉ w) :
    ∀ w ∈ modifierWords t, ' ' ∉ w :=
  fun w hw => hK w (h.words_mem hK w hw)

theorem PlainNames.decodeField_fieldLine (h : PlainNames il2cpp klass) (isEnum : Bool)
    {field : H.FieldInfo} (hfield : field ∈ il2cpp.classGetFields klass) :
    decodeField (fieldLine il2cpp isEnum field) = some (fieldDecl il2cpp isEnum field) := by
  have hspaced := fieldModifier_spaced (il2cpp.fieldGetFlags field)
  have hblank := hspaced.blank_not_mem blank_not_mem_modifierKeywords
  have htype := h.class_ (il2cpp.classFromType (il2cpp.fieldGetType field))
  have hname := (h.field field hfield).blank
  rw [fieldLine, ← hspaced.terminated_words blank_not_mem_modifierKeywords, fieldDecl]
  split
  · exact decodeField_value hblank htype.blank hname _ _
  · exact decodeField_no_value hblank htype.blank hname htype.ne_equals _

/-! ### Parameters -/

section groups

theorem paramGroups_append (g : List Text) (last : Text) (rest : List Text)
    (hg : ∀ w ∈ g, w.getLast? ≠ some ',') :
    paramGroups (g ++ (last ++ [',']) :: rest) = (g ++ [last]) :: paramGroups rest := by
  induction g with
  | nil => simp [paramGroups]
  | cons w g ih =>
    rw [List.cons_append, paramGroups, if_neg (hg w (by simp)), ih fun v hv => hg v (by simp [hv])]
    rfl

theorem paramGroups_single (g : List Text) (hne : g ≠ []) (hg : ∀ w ∈ g, w.getLast? ≠ some ',') :
    paramGroups g = [g] := by
  induction g with
  | nil => exact absurd rfl hne
  | cons w g ih =>
    rw [paramGroups, if_neg (hg w (by simp))]
    cases g with
    | nil => rfl
    | cons v g => rw [ih (by simp) fun u hu => hg u (by simp [hu])]

/-- Parameters, each the words before its name and the name, come apart at the separators. -/
theorem paramGroups_splitOn (ps : List (List Text × Text)) (hne : ps ≠ [])
    (hps : ∀ p ∈ ps, ∀ w ∈ p.1 ++ [p.2], ' ' ∉ w ∧ w.getLast? ≠ some ',') :
    paramGroups ((List.intercalate ", " (ps.map fun p => terminated ' ' p.1 ++ p.2)).splitOn ' ') =
      ps.map fun p => p.1 ++ [p.2] := by
  induction ps with
  | nil => exact absurd rfl hne
  | cons p ps ih =>
    obtain ⟨init, name⟩ := p
    have hwords := hps (init, name) (by simp)
    have hinit : ∀ w ∈ init, ' ' ∉ w ∧ w.getLast? ≠ some ',' := fun w hw => hwords w (by simp [hw])
    have hname : ' ' ∉ name ∧ name.getLast? ≠ some ',' := hwords name (by simp)
    cases ps with
    | nil =>
      simp only [List.map_cons, List.map_nil, List.intercalate_singleton]
      rw [splitOn_terminated _ fun w hw => (hinit w hw).1, List.splitOn_eq_singleton hname.1,
        paramGroups_single _ (by simp) fun w hw => (hwords w hw).2]
    | cons q ps =>
      have htext : List.intercalate ", "
          (((init, name) :: q :: ps).map fun p => terminated ' ' p.1 ++ p.2) =
          terminated ' ' (init ++ [name ++ [',']]) ++
            List.intercalate ", " ((q :: ps).map fun p => terminated ' ' p.1 ++ p.2) := by
        simp only [List.map_cons, List.intercalate_cons_cons]
        simp
      have hblank : ∀ w ∈ init ++ [name ++ [',']], ' ' ∉ w := by
        simp only [List.mem_append, List.mem_singleton]
        rintro w (hw | rfl)
        · exact (hinit w hw).1
        · simpa using hname.1
      rw [htext, splitOn_terminated _ hblank, List.append_assoc, List.singleton_append,
        paramGroups_append _ _ _ fun w hw => (hinit w hw).2,
        ih (by simp) fun p hp => hps p (by simp [hp])]
      rfl

end groups

theorem no_comma_of_mem_keywords :
    ∀ w ∈ modifierKeywords ++ paramKeywords, w.getLast? ≠ some ',' := by decide

section decode
variable (h : PlainNames il2cpp klass) {method : H.MethodInfo}
  (hmethod : method ∈ il2cpp.classGetMethods klass)
include h hmethod

theorem PlainNames.decodeParams_intercalate :
    decodeParams (List.intercalate ", "
      ((List.range (il2cpp.methodGetParamCount method)).map (paramText il2cpp method))) =
      some ((List.range (il2cpp.methodGetParamCount method)).map (paramDecl il2cpp method)) := by
  rcases hn : il2cpp.methodGetParamCount method with _ | n
  · rfl
  -- every parameter as the words before its name and the name
  let split (i : Nat) : List Text × Text :=
    (modifierWords (paramModifier il2cpp (il2cpp.methodGetParam method i)) ++
      [il2cpp.classGetName (il2cpp.classFromType (il2cpp.methodGetParam method i))],
      il2cpp.methodGetParamName method i)
  have htext : (List.range (n + 1)).map (paramText il2cpp method) =
      ((List.range (n + 1)).map split).map fun p => terminated ' ' p.1 ++ p.2 := by
    rw [List.map_map]
    refine List.map_congr_left fun i _ => ?_
    have hspaced := paramModifier_spaced il2cpp (il2cpp.methodGetParam method i)
    simp [split, paramText, hspaced.terminated_words blank_not_mem_paramKeywords]
  have hwords : ∀ p ∈ (List.range (n + 1)).map split, ∀ w ∈ p.1 ++ [p.2],
      ' ' ∉ w ∧ w.getLast? ≠ some ',' := by
    intro p hp w hw
    obtain ⟨i, hi, rfl⟩ := List.mem_map.1 hp
    have hspaced := paramModifier_spaced il2cpp (il2cpp.methodGetParam method i)
    have htype := h.class_ (il2cpp.classFromType (il2cpp.methodGetParam method i))
    have hname := h.param method hmethod i (by rw [hn]; exact List.mem_range.1 hi)
    simp only [split, List.append_assoc, List.mem_append, List.mem_singleton] at hw
    rcases hw with hw | rfl | rfl
    · have hkeyword := hspaced.words_mem blank_not_mem_paramKeywords w hw
      exact ⟨blank_not_mem_paramKeywords w hkeyword, no_comma_of_mem_keywords w (by simp [hkeyword])⟩
    · exact ⟨htype.blank, htype.no_comma⟩
    · exact ⟨hname.blank, hname.no_comma⟩
  have hne : List.intercalate ", " ((List.range (n + 1)).map (paramText il2cpp method)) ≠ [] := by
    rw [List.range_succ_eq_map, List.map_cons, intercalate_cons_flatMap]
    simp [paramText]
  rw [decodeParams, if_neg hne, htext, paramGroups_splitOn _ (by simp) hwords, List.map_map]
  rw [List.mapM_map]
  refine mapM_of_forall _ fun i _ => ?_
  simp [split, decodeParam, paramDecl]

omit hmethod in
theorem PlainNames.closing_not_mem_params (hmethod : method ∈ il2cpp.classGetMethods klass) :
    ')' ∉ List.intercalate ", "
      ((List.range (il2cpp.methodGetParamCount method)).map (paramText il2cpp method)) := by
  refine not_mem_intercalate (by decide) _ fun t ht => ?_
  obtain ⟨i, hi, rfl⟩ := List.mem_map.1 ht
  have hmodifier := (paramModifier_spaced il2cpp (il2cpp.methodGetParam method i)).not_mem
    (c := ')') (by decide) (by decide)
  have htype := (h.class_ (il2cpp.classFromType (il2cpp.methodGetParam method i))).closing
  have hname := (h.param method hmethod i (List.mem_range.1 hi)).closing
  simp [paramText, hmodifier, htype, hname]

end decode

/-! ### Methods -/

/-- The words of the line with the two addresses. -/
theorem splitOn_pointerLine (il2cpp : Il2cppApi H) (il2cppBase : UInt64) (method : H.MethodInfo) :
    ∃ rva va, (pointerLine il2cpp il2cppBase method).splitOn ' ' =
        ["\t//".toList, "RVA:".toList, rva, "VA:".toList, va] ∧
      readHex va = il2cpp.methodPointer method ∧
      (if rva = "0x".toList then none else some (readHex rva)) =
        (methodDecl il2cpp il2cppBase method).rva := by
  by_cases hnull : il2cpp.methodPointer method = 0
  · refine ⟨"0x", "0x0", ?_, ?_, ?_⟩
    · simp only [pointerLine, hnull, ne_eq, not_true, if_false]
      decide
    · rw [hnull]
      decide
    · simp [methodDecl, hnull]
  · have hblank : ∀ n, ' ' ∉ '0' :: 'x' :: numeral .hex n := fun n => by
      simpa using not_mem_numeral (b := .hex) (n := n) (c := ' ') rfl
    refine ⟨'0' :: 'x' :: numeral .hex (il2cpp.methodPointer method - il2cppBase).toNat,
      '0' :: 'x' :: numeral .hex (il2cpp.methodPointer method).toNat, ?_, readHex_numeral _, ?_⟩
    · have htext : pointerLine il2cpp il2cppBase method = terminated ' ' ["\t//".toList,
          "RVA:".toList,
          '0' :: 'x' :: numeral .hex (il2cpp.methodPointer method - il2cppBase).toNat,
          "VA:".toList] ++ '0' :: 'x' :: numeral .hex (il2cpp.methodPointer method).toNat := by
        simp only [pointerLine, ne_eq, hnull, not_false_eq_true, if_true, terminated_cons,
          terminated_nil, List.append_assoc, List.cons_append]
        rfl
      rw [htext, splitOn_terminated _ ?_, List.splitOn_eq_singleton (hblank _)]
      · rfl
      · simp only [List.mem_cons, List.not_mem_nil, or_false]
        rintro w (rfl | rfl | rfl | rfl)
        · decide
        · decide
        · exact hblank _
        · decide
    · rw [readHex_numeral, methodDecl, if_neg hnull, if_neg (by simp)]

/-- The words of a signature before the method's name. -/
def signatureWords (il2cpp : Il2cppApi H) (method : H.MethodInfo) : List Text :=
  modifierWords (getMethodModifier (il2cpp.methodGetFlags method)) ++
    ((if typeIsByref il2cpp (il2cpp.methodGetReturnType method) then ["ref".toList] else []) ++
      [il2cpp.classGetName (il2cpp.classFromType (il2cpp.methodGetReturnType method))])

theorem signatureLine_eq (il2cpp : Il2cppApi H) (method : H.MethodInfo) :
    signatureLine il2cpp method =
      '\t' :: (terminated ' ' (signatureWords il2cpp method) ++ il2cpp.methodGetName method ++ '(' ::
        (List.intercalate ", " ((List.range (il2cpp.methodGetParamCount method)).map
          (paramText il2cpp method)) ++ ") \x7b \x7d")) := by
  have hspaced := getMethodModifier_spaced (il2cpp.methodGetFlags method)
  simp only [signatureLine, returnTypeText, signatureWords, terminated_append,
    hspaced.terminated_words blank_not_mem_modifierKeywords, List.append_assoc]
  split <;> simp

theorem PlainNames.signatureWords_plain (h : PlainNames il2cpp klass) (method : H.MethodInfo) :
    ∀ w ∈ signatureWords il2cpp method, ' ' ∉ w ∧ '(' ∉ w := by
  have hmodifiers : ∀ w ∈ modifierKeywords, ' ' ∉ w ∧ '(' ∉ w := by decide
  have hkeywords := (getMethodModifier_spaced (il2cpp.methodGetFlags method)).words_mem
    blank_not_mem_modifierKeywords
  have htype := h.class_ (il2cpp.classFromType (il2cpp.methodGetReturnType method))
  simp only [signatureWords, List.mem_append, List.mem_singleton]
  rintro w (hw | hw | rfl)
  · exact hmodifiers w (hkeywords w hw)
  · split at hw
    · rw [List.mem_singleton.1 hw]
      decide
    · exact absurd hw (by simp)
  · exact ⟨htype.blank, htype.opening⟩

section decode
variable (h : PlainNames il2cpp klass) (il2cppBase : UInt64)
include h

theorem PlainNames.decodeMethod_lines {method : H.MethodInfo}
    (hmethod : method ∈ il2cpp.classGetMethods klass) :
    decodeMethod (pointerLine il2cpp il2cppBase method) (signatureLine il2cpp method) =
      some (methodDecl il2cpp il2cppBase method) := by
  have hname := h.method method hmethod
  have hwords := h.signatureWords_plain method
  have hsignature := signatureLine_eq il2cpp method
  -- the text before the parameters, and the text of these
  let declaration := terminated ' ' (signatureWords il2cpp method) ++ il2cpp.methodGetName method
  let params := List.intercalate ", "
    ((List.range (il2cpp.methodGetParamCount method)).map (paramText il2cpp method))
  have hopening : '(' ∉ declaration := by
    simp only [declaration, terminated, List.mem_append, List.mem_flatMap, List.mem_singleton, not_or,
      not_exists, not_and]
    exact ⟨fun w hw => ⟨(hwords w hw).2, by decide⟩, hname.opening⟩
  have hsplit : declaration.splitOn ' ' =
      signatureWords il2cpp method ++ [il2cpp.methodGetName method] := by
    rw [splitOn_terminated _ fun w hw => (hwords w hw).1, List.splitOn_eq_singleton hname.blank]
  have hdeclaration : ((signatureLine il2cpp method).drop 1).takeWhile (· ≠ '(') = declaration := by
    rw [hsignature]
    exact takeWhile_ne_append hopening _
  have hparams : (((signatureLine il2cpp method).dropWhile (· ≠ '(')).drop 1).takeWhile (· ≠ ')') =
      params := by
    have hdrop := dropWhile_ne_append (l := '\t' :: declaration) (x := '(') (by simpa using hopening)
      (params ++ ") \x7b \x7d")
    rw [hsignature, ← List.cons_append, hdrop]
    exact takeWhile_ne_append (h.closing_not_mem_params hmethod) _
  obtain ⟨rva, va, hpointer, hva, hrva⟩ := splitOn_pointerLine il2cpp il2cppBase method
  -- no modifier is `ref`, so the word stands before the type exactly for a reference
  have href : (modifierWords (getMethodModifier (il2cpp.methodGetFlags method))).getLast? ≠
      some ['r', 'e', 'f'] := by
    have hkeywords := (getMethodModifier_spaced (il2cpp.methodGetFlags method)).words_mem
      blank_not_mem_modifierKeywords
    exact fun hlast => absurd (hkeywords _ (List.mem_of_getLast? hlast)) (by decide)
  have hdecode := h.decodeParams_intercalate hmethod
  simp only [decodeMethod, hdeclaration, hparams, hpointer, hsplit, List.reverse_append,
    List.reverse_singleton, List.cons_append, List.nil_append, signatureWords, params, hdecode, hva,
    hrva]
  by_cases hbyref : typeIsByref il2cpp (il2cpp.methodGetReturnType method) = true
  · simp [methodDecl, hbyref]
  · simp [methodDecl, hbyref, href]

theorem PlainNames.decodeMethods_lines (methods : List H.MethodInfo)
    (hmethods : ∀ method ∈ methods, method ∈ il2cpp.classGetMethods klass) :
    decodeMethods (methods.flatMap fun method =>
      [pointerLine il2cpp il2cppBase method, signatureLine il2cpp method]) =
      some (methods.map (methodDecl il2cpp il2cppBase)) := by
  induction methods with
  | nil => rfl
  | cons method methods ih =>
    simp only [List.flatMap_cons, List.cons_append, List.nil_append, decodeMethods,
      h.decodeMethod_lines il2cppBase (hmethods method (by simp)),
      ih fun m hm => hmethods m (by simp [hm])]
    rfl

theorem PlainNames.decodeBody_bodyText :
    decodeBody (bodyText il2cpp il2cppBase klass) =
      some ((il2cpp.classGetFields klass).map (fieldDecl il2cpp (il2cpp.classIsEnum klass)),
        (il2cpp.classGetMethods klass).map (methodDecl il2cpp il2cppBase)) := by
  have hfields : ((bodySections il2cpp il2cppBase klass).fields.drop 1).mapM decodeField =
      some ((il2cpp.classGetFields klass).map (fieldDecl il2cpp (il2cpp.classIsEnum klass))) := by
    simp only [bodySections, List.drop_succ_cons, List.drop_zero, List.mapM_map]
    exact mapM_of_forall _ fun field hfield => h.decodeField_fieldLine _ hfield
  have hmethods : decodeMethods ((bodySections il2cpp il2cppBase klass).methods.drop 1) =
      some ((il2cpp.classGetMethods klass).map (methodDecl il2cpp il2cppBase)) :=
    h.decodeMethods_lines il2cppBase _ fun _ hmethod => hmethod
  have hlines := h.newlineFree.splitOn_bodyText il2cppBase
  have hsections := h.newlineFree.cutSections_bodyText il2cppBase
  simp only [decodeBody, hlines, List.cons_append, List.drop_succ_cons, List.drop_zero,
    List.dropLast_concat, hsections, hfields, hmethods]
  rfl

end decode

/-- **The fields and the methods of a class can be read back from its text.** -/
theorem decodeBody_dumpType (il2cpp : Il2cppApi H) (il2cppBase : UInt64) (type : H.Il2CppType)
    (h : PlainNames il2cpp (il2cpp.classFromType type)) :
    let klass := il2cpp.classFromType type
    ∃ body, dumpType il2cpp il2cppBase type =
        .ok (typeHead il2cpp klass ++ "\n\x7b" ++ body ++ "\x7d\n") ∧
      decodeBody body =
        some ((il2cpp.classGetFields klass).map (fieldDecl il2cpp (il2cpp.classIsEnum klass)),
          (il2cpp.classGetMethods klass).map (methodDecl il2cpp il2cppBase)) :=
  ⟨bodyText il2cpp il2cppBase _, dumpType_eq il2cpp il2cppBase type h.newlineFree.named,
    h.decodeBody_bodyText il2cppBase⟩

/-- A class with a static field and another one, a property, a constructor without code, and a method
with code and two parameters, of which the second is by reference. -/
def smallClass : Il2cppApi .numbered :=
  { Il2cppApi.blank with
    typeIsByref := some fun type => type = 2
    classGetName := fun klass => if klass = 0 then "List`1" else "Int32"
    classGetFields := fun _ => [0, 1]
    classGetProperties := fun _ => [0]
    classGetMethods := fun _ => [0, 1]
    fieldGetFlags := fun field => if field = 0 then 0x16 else 1
    fieldGetName := fun field => if field = 0 then "empty" else "count"
    fieldGetOffset := fun field => if field = 0 then 0 else 0x10
    propertyGetGetMethod := fun _ => some 1
    methodGetName := fun method => if method = 0 then ".ctor" else "Add"
    methodGetParamCount := fun method => if method = 0 then 0 else 2
    methodGetParam := fun _ i => i + 1
    methodGetParamName := fun _ i => if i = 0 then "item" else "index"
    methodPointer := fun method => if method = 0 then 0 else 0x5234 }

theorem decodeBody_dumpType_smallClass :
    ∃ body, dumpType smallClass 0x1000 0 =
        .ok (typeHead smallClass 0 ++ "\n\x7b" ++ body ++ "\x7d\n") ∧
      decodeBody body = some ([fieldDecl smallClass false 0, fieldDecl smallClass false 1],
        [methodDecl smallClass 0x1000 0, methodDecl smallClass 0x1000 1]) := by
  refine decodeBody_dumpType smallClass 0x1000 0 ⟨fun klass => ?_, fun field _ => ?_,
    fun _ _ => ⟨"P", rfl, by decide⟩, fun method _ => ?_, fun _ _ i _ => ?_⟩
  · show PlainName (if klass = 0 then _ else _)
    split <;> decide
  · show PlainName (if field = 0 then _ else _)
    split <;> decide
  · show PlainName (if method = 0 then _ else _)
    split <;> decide
  · show PlainName (if i = 0 then _ else _)
    split <;> decide

end Il2CppDumper
