import Il2CppDumper.Dump.Sections
import Mathlib.Data.List.Forall2

/-!
# The property section

Two results about `dump_property`. A property without accessors is written without the end of its line,
so the next one goes on inside its comment: the lines of the section are the properties exactly if only
the last one may lack accessors (`property_lines_iff`). And the type of a property comes from the
getter's return type or else from the setter's first parameter, never with `ref`: it is the type a
method returning the same value shows exactly if the value is not by reference and the setter's first
parameter has the name of the value's class (`property_type_iff`).
-/

namespace Il2CppDumper

open Clib OStringStream

variable {H : Handles} (il2cpp : Il2cppApi H)

/-! ### One line for each property -/

/-- What stands between the braces of a declaration. -/
def accessorText (prop : H.PropertyInfo) : Text :=
  (if (il2cpp.propertyGetGetMethod prop).isSome then ("get; " : Text) else []) ++
    if (il2cpp.propertyGetSetMethod prop).isSome then ("set; " : Text) else []

/-- The line tells the property: a declaration with nothing but modifiers before the type, or, without
accessors, a comment. -/
def TellsProperty (prop : H.PropertyInfo) (line : Text) : Prop :=
  ∃ name, il2cpp.propertyGetName prop = some name ∧
    if hasAccessor il2cpp prop then
      ∃ modifiers klass, Spaced modifierKeywords modifiers ∧
        line = "\t" ++ modifiers ++ il2cpp.classGetName klass ++ " " ++ name ++ " \x7b " ++
          accessorText il2cpp prop ++ "\x7d"
    else line = "\t // unknown property " ++ name

variable {il2cpp}

theorem tellsProperty_propertyLine {prop : H.PropertyInfo} {name : Text}
    (hname : il2cpp.propertyGetName prop = some name) :
    TellsProperty il2cpp prop (propertyLine il2cpp prop) := by
  refine ⟨name, hname, ?_⟩
  split
  · rename_i haccessor
    obtain ⟨klass, hklass⟩ := Option.isSome_iff_exists.1 ((propClass_isSome_iff il2cpp prop).2 haccessor)
    refine ⟨_, klass, propModifier_spaced il2cpp (il2cpp.propertyGetGetMethod prop)
      (il2cpp.propertyGetSetMethod prop), ?_⟩
    simp only [propertyLine, hklass, hname, accessorText, Option.getD_some, List.append_assoc]
  · rename_i haccessor
    rw [propertyLine_of_no_accessor haccessor, hname]
    rfl

theorem propertyLine_ne_nil (prop : H.PropertyInfo) : propertyLine il2cpp prop ≠ [] := by
  simp [propertyLine]

section lines
variable {props : List H.PropertyInfo}
  (hnewline : ∀ prop ∈ props, '\n' ∉ propertyLine il2cpp prop)
include hnewline

/-- Only the last property may leave its line open. -/
theorem textLines_properties (haccessor : ∀ prop ∈ props.dropLast, hasAccessor il2cpp prop) :
    textLines (props.flatMap (propertyText il2cpp)) = props.map (propertyLine il2cpp) := by
  induction props with
  | nil => rfl
  | cons prop props ih =>
    have hline := hnewline prop (by simp)
    cases props with
    | nil =>
      simp only [List.flatMap_cons, List.flatMap_nil, List.append_nil, List.map_cons, List.map_nil,
        propertyText]
      split
      · exact textLines_line _ hline []
      · rw [List.append_nil]
        exact textLines_unterminated _ hline (propertyLine_ne_nil prop)
    | cons next props =>
      have hprop : hasAccessor il2cpp prop := haccessor prop (by simp)
      rw [List.flatMap_cons, propertyText, if_pos hprop, List.append_assoc, List.singleton_append,
        textLines_line _ hline, ih (fun p hp => hnewline p (by simp [hp]))
          fun p hp => haccessor p (by rw [List.dropLast_cons_cons]; simp [hp]),
        List.map_cons (l := next :: props)]

theorem length_textLines_properties_le :
    (textLines (props.flatMap (propertyText il2cpp))).length ≤ props.length := by
  induction props with
  | nil => simp [textLines]
  | cons prop props ih =>
    have hline := hnewline prop (by simp)
    have hle := ih fun p hp => hnewline p (by simp [hp])
    rw [List.flatMap_cons, propertyText]
    split
    · rw [List.append_assoc, List.singleton_append, textLines_line _ hline]
      simpa using hle
    · rw [List.append_nil]
      by_cases hrest : props.flatMap (propertyText il2cpp) = []
      · rw [hrest, List.append_nil, textLines_unterminated _ hline (propertyLine_ne_nil prop)]
        simp
      · rw [length_textLines_append _ hline _ hrest, List.length_cons]
        omega

/-- A line for each property takes an accessor in all but the last. -/
theorem hasAccessor_of_length
    (hlength : (textLines (props.flatMap (propertyText il2cpp))).length = props.length) :
    ∀ prop ∈ props.dropLast, hasAccessor il2cpp prop := by
  induction props with
  | nil => simp
  | cons prop props ih =>
    have hline := hnewline prop (by simp)
    have hnewline' : ∀ p ∈ props, '\n' ∉ propertyLine il2cpp p := fun p hp => hnewline p (by simp [hp])
    cases props with
    | nil => simp
    | cons next props =>
      rw [List.flatMap_cons, propertyText] at hlength
      split at hlength
      · rename_i haccessor
        rw [List.append_assoc, List.singleton_append, textLines_line _ hline] at hlength
        have hrest := ih hnewline' (by simpa using hlength)
        rw [List.dropLast_cons_cons]
        intro p hp
        rcases List.mem_cons.1 hp with rfl | hp
        · exact haccessor
        · exact hrest p hp
      · -- the next property goes on in this line, and a line is missing
        have hrest : (next :: props).flatMap (propertyText il2cpp) ≠ [] := by
          simp [propertyText, propertyLine_ne_nil]
        have hle := length_textLines_properties_le hnewline'
        rw [List.append_nil, length_textLines_append _ hline _ hrest] at hlength
        rw [hlength, List.length_cons] at hle
        omega

end lines

/-- **The section tells every property on a line of its own exactly if all but the last have an
accessor.** -/
theorem property_lines_iff (il2cpp : Il2cppApi H) (klass : H.Il2CppClass)
    (hclass : ∀ c, '\n' ∉ il2cpp.classGetName c)
    (hname : ∀ prop ∈ il2cpp.classGetProperties klass,
      ∃ name, il2cpp.propertyGetName prop = some name ∧ '\n' ∉ name) :
    (∃ t, dumpProperty il2cpp klass = .ok ("\n\t// Properties\n" ++ t) ∧
      List.Forall₂ (TellsProperty il2cpp) (il2cpp.classGetProperties klass) (textLines t)) ↔
      ∀ prop ∈ (il2cpp.classGetProperties klass).dropLast, hasAccessor il2cpp prop := by
  have hnewline : ∀ prop ∈ il2cpp.classGetProperties klass, '\n' ∉ propertyLine il2cpp prop := by
    intro prop hprop
    obtain ⟨name, hname, hn⟩ := hname prop hprop
    refine not_mem_propertyLine hclass fun name' hname' => ?_
    rwa [Option.some.inj (hname'.symm.trans hname)]
  have htext := dumpProperty_eq il2cpp klass fun prop hprop _ => by
    obtain ⟨name, hname, -⟩ := hname prop hprop
    rw [hname]
    rfl
  constructor
  · rintro ⟨t, ht, hlines⟩
    rw [htext, Except.ok.injEq, List.append_cancel_left_eq] at ht
    subst ht
    exact hasAccessor_of_length hnewline hlines.length_eq.symm
  · intro haccessor
    refine ⟨_, htext, ?_⟩
    rw [textLines_properties hnewline haccessor, List.forall₂_map_right_iff, List.forall₂_same]
    intro prop hprop
    obtain ⟨name, hname, -⟩ := hname prop hprop
    exact tellsProperty_propertyLine hname

/-- A property with a getter before one without accessors. -/
def unknownLast : Il2cppApi .numbered :=
  { Il2cppApi.blank with
    classGetProperties := fun _ => [0, 1]
    propertyGetGetMethod := fun prop => if prop = 0 then some 0 else none }

theorem property_lines_unknownLast :
    (∃ t, dumpProperty unknownLast 0 = .ok ("\n\t// Properties\n" ++ t) ∧
      List.Forall₂ (TellsProperty unknownLast) [0, 1] (textLines t)) ↔
      ∀ prop ∈ [0], hasAccessor unknownLast prop :=
  property_lines_iff unknownLast 0 (fun _ => (by decide : '\n' ∉ "C".toList))
    fun _ _ => ⟨"P", rfl, by decide⟩

/-- A property without accessors before one with a getter. -/
def unknownFirst : Il2cppApi .numbered :=
  { Il2cppApi.blank with
    classGetProperties := fun _ => [0, 1]
    propertyGetGetMethod := fun prop => if prop = 0 then none else some 0 }

/-- The declaration of the second property stands in the comment about the first. -/
theorem unknownFirst_swallows :
    dumpProperty unknownFirst 0 =
        .ok ("\n\t// Properties\n" ++ "\t // unknown property P\tC P \x7b get; \x7d\n") ∧
      ¬ ∃ t, dumpProperty unknownFirst 0 = .ok ("\n\t// Properties\n" ++ t) ∧
        List.Forall₂ (TellsProperty unknownFirst) [0, 1] (textLines t) := by
  have htext : dumpProperty unknownFirst 0 =
      .ok ("\n\t// Properties\n" ++ "\t // unknown property P\tC P \x7b get; \x7d\n") :=
    (dumpProperty_eq unknownFirst 0 fun _ _ _ => rfl).trans rfl
  refine ⟨htext, ?_⟩
  rintro ⟨t, ht, hlines⟩
  rw [htext, Except.ok.injEq, List.append_cancel_left_eq] at ht
  subst ht
  exact absurd hlines.length_eq (by decide)

/-! ### The type of a property -/

/-- The method takes parameters of the given types. -/
def Takes (il2cpp : Il2cppApi H) (types : List H.Il2CppType) (method : H.MethodInfo) : Prop :=
  (List.range (il2cpp.methodGetParamCount method)).map (il2cpp.methodGetParam method) = types

theorem Takes.param_zero {ps : List H.Il2CppType} {v : H.Il2CppType} {method : H.MethodInfo}
    (h : Takes il2cpp (ps ++ [v]) method) : il2cpp.methodGetParam method 0 = ps.headD v := by
  have hlength : il2cpp.methodGetParamCount method = (ps ++ [v]).length := by
    rw [← show List.map _ _ = ps ++ [v] from h, List.length_map, List.length_range]
  have hzero : ((List.range (il2cpp.methodGetParamCount method)).map
      (il2cpp.methodGetParam method))[0]? = some (il2cpp.methodGetParam method 0) := by
    simp [hlength]
  rw [show List.map _ _ = ps ++ [v] from h] at hzero
  cases ps with
  | nil => exact (Option.some.inj hzero).symm
  | cons p ps => exact (Option.some.inj hzero).symm

/-- The accessors of a property with value type `v` and index parameters `ps`. -/
structure TypedAccessors (il2cpp : Il2cppApi H) (ps : List H.Il2CppType) (v : H.Il2CppType)
    (get set : H.MethodInfo) : Prop where
  getTakes : Takes il2cpp ps get
  getReturns : il2cpp.methodGetReturnType get = v
  setTakes : Takes il2cpp (ps ++ [v]) set

/-- `dump_property` writes `type` as the type of the property, between the modifiers and the name. -/
def PrintsType (il2cpp : Il2cppApi H) (prop : H.PropertyInfo) (type : Text) : Prop :=
  ∃ name, il2cpp.propertyGetName prop = some name ∧ ∀ t b,
    dumpPropertyStep il2cpp (ofText t b) prop = .ok (ofText (t ++ ("\t" ++
      propModifier il2cpp (il2cpp.propertyGetGetMethod prop) (il2cpp.propertyGetSetMethod prop) ++
      type ++ " " ++ name ++ " \x7b " ++ accessorText il2cpp prop ++ "\x7d\n")) b)

theorem printsType_iff {prop : H.PropertyInfo} {name : Text} {klass : H.Il2CppClass}
    (hname : il2cpp.propertyGetName prop = some name)
    (hklass : propClass il2cpp (il2cpp.propertyGetGetMethod prop)
      (il2cpp.propertyGetSetMethod prop) = some klass) (type : Text) :
    PrintsType il2cpp prop type ↔ type = il2cpp.classGetName klass := by
  have haccessor : hasAccessor il2cpp prop := by
    rw [← propClass_isSome_iff, hklass]
    rfl
  have hstep := dumpPropertyStep_ofText il2cpp prop fun _ => by rw [hname]; rfl
  have htext : propertyText il2cpp prop = "\t" ++
      propModifier il2cpp (il2cpp.propertyGetGetMethod prop) (il2cpp.propertyGetSetMethod prop) ++
      il2cpp.classGetName klass ++ " " ++ name ++ " \x7b " ++ accessorText il2cpp prop ++ "\x7d\n" := by
    simp only [propertyText, propertyLine, if_pos haccessor, hklass, hname, Option.getD_some,
      accessorText, List.append_assoc]
    rfl
  constructor
  · rintro ⟨name', hname', hprints⟩
    obtain rfl := Option.some.inj (hname.symm.trans hname')
    have hbuf := (hstep [] .dec).symm.trans (hprints [] .dec)
    rw [htext, Except.ok.injEq] at hbuf
    have htype := congrArg OStringStream.buf hbuf
    simp only [buf_ofText, List.nil_append, List.append_assoc, List.append_cancel_left_eq] at htype
    exact (List.append_left_inj _).1 htype.symm
  · rintro rfl
    exact ⟨name, hname, fun t b => by rw [hstep, htext]⟩

/-- The text of a returned value is the class name exactly if the value is not by reference. -/
theorem returnTypeText_eq_iff (type : H.Il2CppType) :
    returnTypeText il2cpp type = il2cpp.classGetName (il2cpp.classFromType type) ↔
      typeIsByref il2cpp type = false := by
  unfold returnTypeText
  cases typeIsByref il2cpp type
  · simp
  · rw [if_pos rfl]
    refine iff_of_false (fun heq => ?_) (by simp)
    have hlength := congrArg List.length heq
    simp only [List.length_append, String.length_toList] at hlength
    have hpos : 0 < "ref ".length := by decide
    omega

/-- **A property shows the type that a method returning its value shows, whichever accessors it has,
exactly if the value is not by reference and the setter's first parameter has the name of its class.** -/
theorem property_type_iff (il2cpp : Il2cppApi H) (ps : List H.Il2CppType) (v : H.Il2CppType)
    (get set : H.MethodInfo) (htyped : TypedAccessors il2cpp ps v get set)
    (getOnly setOnly both : H.PropertyInfo)
    (hget : il2cpp.propertyGetGetMethod getOnly = some get ∧
      il2cpp.propertyGetSetMethod getOnly = none)
    (hset : il2cpp.propertyGetGetMethod setOnly = none ∧
      il2cpp.propertyGetSetMethod setOnly = some set)
    (hboth : il2cpp.propertyGetGetMethod both = some get ∧
      il2cpp.propertyGetSetMethod both = some set)
    (hname : ∀ prop ∈ [getOnly, setOnly, both], (il2cpp.propertyGetName prop).isSome) :
    (PrintsType il2cpp getOnly (returnTypeText il2cpp v) ∧
      PrintsType il2cpp setOnly (returnTypeText il2cpp v) ∧
      PrintsType il2cpp both (returnTypeText il2cpp v)) ↔
    typeIsByref il2cpp v = false ∧
      il2cpp.classGetName (il2cpp.classFromType (ps.headD v)) =
        il2cpp.classGetName (il2cpp.classFromType v) := by
  have hfirst : il2cpp.methodGetParam set 0 = ps.headD v := htyped.setTakes.param_zero
  obtain ⟨nameGet, hnameGet⟩ := Option.isSome_iff_exists.1 (hname getOnly (by simp))
  obtain ⟨nameSet, hnameSet⟩ := Option.isSome_iff_exists.1 (hname setOnly (by simp))
  obtain ⟨nameBoth, hnameBoth⟩ := Option.isSome_iff_exists.1 (hname both (by simp))
  have hclassGet : propClass il2cpp (il2cpp.propertyGetGetMethod getOnly)
      (il2cpp.propertyGetSetMethod getOnly) = some (il2cpp.classFromType v) := by
    rw [hget.1, propClass, htyped.getReturns]
  have hclassSet : propClass il2cpp (il2cpp.propertyGetGetMethod setOnly)
      (il2cpp.propertyGetSetMethod setOnly) = some (il2cpp.classFromType (ps.headD v)) := by
    rw [hset.1, hset.2, propClass, hfirst]
  have hclassBoth : propClass il2cpp (il2cpp.propertyGetGetMethod both)
      (il2cpp.propertyGetSetMethod both) = some (il2cpp.classFromType v) := by
    rw [hboth.1, propClass, htyped.getReturns]
  rw [printsType_iff hnameGet hclassGet, printsType_iff hnameSet hclassSet,
    printsType_iff hnameBoth hclassBoth, returnTypeText_eq_iff]
  constructor
  · rintro ⟨hbyref, hparam, -⟩
    exact ⟨hbyref, hparam.symm.trans ((returnTypeText_eq_iff v).2 hbyref)⟩
  · rintro ⟨hbyref, hparam⟩
    exact ⟨hbyref, ((returnTypeText_eq_iff v).2 hbyref).trans hparam.symm, hbyref⟩

/-- Three properties of value type 1 with index parameters `ps`, one for each choice of accessors. -/
def indexers (ps : List Nat) : Il2cppApi .numbered :=
  { Il2cppApi.blank with
    classGetName := fun klass => if klass = 0 then "Key" else "Value"
    propertyGetGetMethod := fun prop => if prop = 1 then none else some 0
    propertyGetSetMethod := fun prop => if prop = 0 then none else some 1
    methodGetReturnType := fun _ => 1
    methodGetParamCount := fun method => if method = 0 then ps.length else (ps ++ [1]).length
    methodGetParam := fun method i => (if method = 0 then ps else ps ++ [1]).getD i 0 }

/-- With index parameters of which the first has the value's type, the types agree. -/
theorem property_type_indexers :
    PrintsType (indexers [1, 0]) 0 (returnTypeText (indexers [1, 0]) 1) ∧
      PrintsType (indexers [1, 0]) 1 (returnTypeText (indexers [1, 0]) 1) ∧
      PrintsType (indexers [1, 0]) 2 (returnTypeText (indexers [1, 0]) 1) :=
  (property_type_iff (indexers [1, 0]) [1, 0] 1 0 1 ⟨rfl, rfl, rfl⟩ 0 1 2 ⟨rfl, rfl⟩ ⟨rfl, rfl⟩
    ⟨rfl, rfl⟩ (by decide)).2 ⟨rfl, rfl⟩

/-- With an index parameter and only a setter, the property shows the type of the index. -/
theorem indexers_mistyped :
    TypedAccessors (indexers [0]) [0] 1 0 1 ∧
      PrintsType (indexers [0]) 0 "Value" ∧ PrintsType (indexers [0]) 1 "Key" ∧
      returnTypeText (indexers [0]) 1 = "Value" ∧
      ¬ PrintsType (indexers [0]) 1 (returnTypeText (indexers [0]) 1) := by
  have hget : ∀ type, PrintsType (indexers [0]) 0 type ↔
      type = (indexers [0]).classGetName 1 := printsType_iff rfl rfl
  have hset : ∀ type, PrintsType (indexers [0]) 1 type ↔
      type = (indexers [0]).classGetName 0 := printsType_iff rfl rfl
  refine ⟨⟨rfl, rfl, rfl⟩, (hget _).2 rfl, (hset _).2 rfl, rfl, fun hprints => ?_⟩
  exact absurd ((hset _).1 hprints) (by decide)

end Il2CppDumper
