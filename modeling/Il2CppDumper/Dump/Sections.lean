import Il2CppDumper.Dump.Layout

/-!
# The three sections of a body

Between `{` and `}` stand the fields, the properties and the methods. A field line is never empty, so
the first empty line ends the fields; no line of the properties, however many of them run together
without an end of line, is the header of the methods (`PropLine`). The only condition is that no name
holds a newline.
-/

namespace Il2CppDumper

open Clib OStringStream

def methodsHeader : Text := "\t// Methods"

/-- The lines of a body, cut into its three sections. -/
structure Sections where
  fields : List Text
  properties : List Text
  methods : List Text
  deriving DecidableEq

def cutSections (lines : List Text) : Sections :=
  let rest := lines.dropWhile (· ≠ [])
  { fields := lines.takeWhile (· ≠ [])
    properties := rest.takeWhile (· ≠ methodsHeader)
    methods := rest.dropWhile (· ≠ methodsHeader) }

theorem cutSections_append (fields properties methods : List Text) (hfields : [] ∉ fields)
    (hproperties : methodsHeader ∉ [] :: properties) :
    cutSections (fields ++ [] :: properties ++ methodsHeader :: methods) =
      ⟨fields, [] :: properties, methodsHeader :: methods⟩ := by
  have hrest := dropWhile_ne_append hfields (properties ++ methodsHeader :: methods)
  simp only [cutSections, List.append_assoc, List.cons_append, hrest, Sections.mk.injEq]
  refine ⟨takeWhile_ne_append hfields _, ?_, ?_⟩
  · exact takeWhile_ne_append hproperties methods
  · exact dropWhile_ne_append hproperties methods

/-! ### Text without a newline -/

theorem Spaced.not_mem {K : List Text} {t : Text} (h : Spaced K t) {c : Char} (hc : c ≠ ' ')
    (hK : ∀ w ∈ K, c ∉ w) : c ∉ t := by
  obtain ⟨ws, hws, rfl⟩ := h
  simp only [terminated, List.mem_flatMap, List.mem_append, List.mem_singleton, not_exists, not_and,
    not_or]
  exact fun w hw => ⟨hK w (hws w hw), hc⟩

theorem newline_not_mem_modifierKeywords : ∀ w ∈ modifierKeywords, '\n' ∉ w := by decide

theorem newline_not_mem_paramKeywords : ∀ w ∈ paramKeywords, '\n' ∉ w := by decide

theorem not_mem_intercalate {c : Char} {sep : Text} (hsep : c ∉ sep) (ls : List Text)
    (hls : ∀ l ∈ ls, c ∉ l) : c ∉ sep.intercalate ls := by
  induction ls with
  | nil => simp
  | cons l ls ih =>
    cases ls with
    | nil => simpa using hls l (by simp)
    | cons m ls =>
      rw [List.intercalate_cons_cons]
      simp only [List.mem_append, not_or]
      exact ⟨⟨hls l (by simp), hsep⟩, ih fun x hx => hls x (by simp [hx])⟩

variable {H : Handles} (il2cpp : Il2cppApi H)

/-- No name that the body of the class shows holds a newline, and a property whose type is shown has
a name. -/
structure NewlineFree (klass : H.Il2CppClass) : Prop where
  class_ : ∀ c, '\n' ∉ il2cpp.classGetName c
  field : ∀ field ∈ il2cpp.classGetFields klass, '\n' ∉ il2cpp.fieldGetName field
  property : ∀ prop ∈ il2cpp.classGetProperties klass, ∀ name,
    il2cpp.propertyGetName prop = some name → '\n' ∉ name
  named : ∀ prop ∈ il2cpp.classGetProperties klass, hasAccessor il2cpp prop →
    (il2cpp.propertyGetName prop).isSome
  method : ∀ method ∈ il2cpp.classGetMethods klass, '\n' ∉ il2cpp.methodGetName method
  param : ∀ method ∈ il2cpp.classGetMethods klass, ∀ i < il2cpp.methodGetParamCount method,
    '\n' ∉ il2cpp.methodGetParamName method i

section newline
variable {il2cpp} {klass : H.Il2CppClass} (h : NewlineFree il2cpp klass)
include h

theorem NewlineFree.not_mem_fieldLine (isEnum : Bool) {field : H.FieldInfo}
    (hfield : field ∈ il2cpp.classGetFields klass) : '\n' ∉ fieldLine il2cpp isEnum field := by
  have hmodifier := (fieldModifier_spaced (il2cpp.fieldGetFlags field)).not_mem (by decide)
    newline_not_mem_modifierKeywords
  have hdec := not_mem_numeral (b := .dec) (n := (fieldValue il2cpp field).toNat) (c := '\n') rfl
  have hhex := not_mem_numeral (b := .hex) (n := (il2cpp.fieldGetOffset field).toNat) (c := '\n') rfl
  have hclass := h.class_ (il2cpp.classFromType (il2cpp.fieldGetType field))
  have hname := h.field field hfield
  unfold fieldLine
  split <;> simp [*]

theorem NewlineFree.not_mem_signatureLine {method : H.MethodInfo}
    (hmethod : method ∈ il2cpp.classGetMethods klass) : '\n' ∉ signatureLine il2cpp method := by
  have hmodifier := (getMethodModifier_spaced (il2cpp.methodGetFlags method)).not_mem (by decide)
    newline_not_mem_modifierKeywords
  have hreturn : '\n' ∉ returnTypeText il2cpp (il2cpp.methodGetReturnType method) := by
    have := h.class_ (il2cpp.classFromType (il2cpp.methodGetReturnType method))
    unfold returnTypeText
    split <;> simp [this]
  have hname := h.method method hmethod
  have hparam : ∀ p ∈ (List.range (il2cpp.methodGetParamCount method)).map
      (paramText il2cpp method), '\n' ∉ p := by
    intro p hp
    obtain ⟨i, hi, rfl⟩ := List.mem_map.1 hp
    have hmodifier := (paramModifier_spaced il2cpp (il2cpp.methodGetParam method i)).not_mem
      (by decide) newline_not_mem_paramKeywords
    have hclass := h.class_ (il2cpp.classFromType (il2cpp.methodGetParam method i))
    have hname := h.param method hmethod i (List.mem_range.1 hi)
    simp [paramText, hmodifier, hclass, hname]
  have hparams := not_mem_intercalate (show '\n' ∉ ", ".toList by decide) _ hparam
  unfold signatureLine
  simp only [List.mem_append, not_or]
  exact ⟨⟨⟨⟨⟨⟨⟨by decide, hmodifier⟩, hreturn⟩, by decide⟩, hname⟩, by decide⟩, hparams⟩, by decide⟩

omit h in
theorem not_mem_pointerLine (il2cppBase : UInt64) (method : H.MethodInfo) :
    '\n' ∉ pointerLine il2cpp il2cppBase method := by
  have hhex : ∀ n, '\n' ∉ numeral .hex n := fun n => not_mem_numeral rfl
  simp only [pointerLine]
  split
  · simp only [List.mem_append, not_or]
    exact ⟨⟨⟨by decide, hhex _⟩, by decide⟩, hhex _⟩
  · decide

omit h in
theorem not_mem_propertyLine (hclass : ∀ c, '\n' ∉ il2cpp.classGetName c) {prop : H.PropertyInfo}
    (hname : ∀ name, il2cpp.propertyGetName prop = some name → '\n' ∉ name) :
    '\n' ∉ propertyLine il2cpp prop := by
  have hmodifier := (propModifier_spaced il2cpp (il2cpp.propertyGetGetMethod prop)
    (il2cpp.propertyGetSetMethod prop)).not_mem (by decide) newline_not_mem_modifierKeywords
  have hname' : '\n' ∉ (il2cpp.propertyGetName prop).getD [] := by
    rcases hn : il2cpp.propertyGetName prop with _ | name
    · simp
    · exact hname name hn
  unfold propertyLine
  simp only [List.mem_append, not_or]
  refine ⟨⟨by decide, hmodifier⟩, ?_⟩
  split
  · simp only [List.mem_append, not_or]
    exact ⟨⟨⟨⟨⟨⟨hclass _, by decide⟩, hname'⟩, by decide⟩, by split <;> decide⟩,
      by split <;> decide⟩, by decide⟩
  · split
    · rename_i name hn
      simp only [List.mem_append, not_or]
      exact ⟨by decide, hname name hn⟩
    · simp

/-! ### The lines of the properties -/

omit h in
/-- A line of the property section: empty, or indented and either a declaration, which ends in a
brace, or a piece without accessors, whose second character is blank. -/
def PropLine (l : Text) : Prop :=
  l = [] ∨ ∃ r, l = '\t' :: r ∧
    (r = [] ∨ r.head? = some ' ' ∨ r.head? = some '\t' ∨ r.getLast? = some '}')

omit h in
theorem PropLine.ne_methodsHeader {l : Text} (hl : PropLine l) : l ≠ methodsHeader := by
  rintro rfl
  rcases hl with hl | ⟨r, hr, hl⟩
  · exact absurd hl (by decide)
  · obtain rfl : "// Methods".toList = r := List.tail_eq_of_cons_eq hr
    exact absurd hl (by decide)

omit h in
theorem propertyLine_of_accessor {prop : H.PropertyInfo} (hprop : hasAccessor il2cpp prop) :
    ∃ r, propertyLine il2cpp prop = '\t' :: (r ++ ['}']) := by
  have hclass : ∃ c, propClass il2cpp (il2cpp.propertyGetGetMethod prop)
      (il2cpp.propertyGetSetMethod prop) = some c := by
    unfold propClass
    rcases hprop with hget | hset
    · obtain ⟨get, hget⟩ := Option.isSome_iff_exists.1 hget
      exact ⟨_, by rw [hget]⟩
    · obtain ⟨set, hset⟩ := Option.isSome_iff_exists.1 hset
      rcases il2cpp.propertyGetGetMethod prop with _ | get
      · exact ⟨_, by rw [hset]⟩
      · exact ⟨_, rfl⟩
  obtain ⟨c, hc⟩ := hclass
  simp only [propertyLine, hc]
  exact ⟨_, by rw [← List.cons_append, ← List.append_assoc]; rfl⟩

omit h in
theorem propertyLine_of_no_accessor {prop : H.PropertyInfo} (hprop : ¬ hasAccessor il2cpp prop) :
    propertyLine il2cpp prop = '\t' ::
      match il2cpp.propertyGetName prop with
      | some name => " // unknown property " ++ name
      | none => [] := by
  obtain ⟨hget, hset⟩ := not_or.1 hprop
  rw [Option.not_isSome_iff_eq_none] at hget hset
  simp only [propertyLine, hget, hset, propModifier, propClass]
  rfl

theorem NewlineFree.propLine (props : List H.PropertyInfo)
    (hprops : ∀ prop ∈ props, prop ∈ il2cpp.classGetProperties klass) :
    ∀ l ∈ (props.flatMap (propertyText il2cpp)).splitOn '\n', PropLine l := by
  induction props with
  | nil => simp [PropLine]
  | cons prop props ih =>
    have hrest := ih fun p hp => hprops p (by simp [hp])
    have hnewline := not_mem_propertyLine h.class_ (h.property prop (hprops prop (by simp)))
    intro l hl
    by_cases haccessor : hasAccessor il2cpp prop
    · -- the line ends here
      rw [List.flatMap_cons, propertyText, if_pos haccessor, List.append_assoc,
        List.singleton_append, List.splitOn_append_cons_self_of_not_mem hnewline] at hl
      rcases List.mem_cons.1 hl with rfl | hl
      · obtain ⟨r, hr⟩ := propertyLine_of_accessor haccessor
        exact .inr ⟨_, hr, .inr (.inr (.inr (by simp)))⟩
      · exact hrest l hl
    · -- the next property goes on in the same line
      rw [List.flatMap_cons, propertyText, if_neg haccessor, List.append_nil,
        splitOn_append_of_not_mem _ hnewline] at hl
      obtain ⟨m, ms, hsplit⟩ := List.exists_cons_of_ne_nil
        (List.splitOn_ne_nil '\n' (props.flatMap (propertyText il2cpp)))
      rw [hsplit, List.modifyHead_cons, propertyLine_of_no_accessor haccessor,
        List.cons_append] at hl
      rw [hsplit] at hrest
      rcases List.mem_cons.1 hl with rfl | hl
      · refine .inr ⟨_, rfl, ?_⟩
        split
        · exact .inr (.inl rfl)
        · rcases hrest m (by simp) with rfl | ⟨r, rfl, -⟩
          · exact .inl rfl
          · exact .inr (.inr (.inl rfl))
      · exact hrest l (by simp [hl])

end newline

/-! ### The lines of the body -/

/-- The sections of a body, as lines. -/
def bodySections (il2cppBase : UInt64) (klass : H.Il2CppClass) : Sections where
  fields := "\t// Fields" ::
    (il2cpp.classGetFields klass).map (fieldLine il2cpp (il2cpp.classIsEnum klass))
  properties := [] :: "\t// Properties" ::
    ((il2cpp.classGetProperties klass).flatMap (propertyText il2cpp)).splitOn '\n'
  methods := methodsHeader :: (il2cpp.classGetMethods klass).flatMap fun method =>
    [pointerLine il2cpp il2cppBase method, signatureLine il2cpp method]

section body
variable {il2cpp} {klass : H.Il2CppClass} (h : NewlineFree il2cpp klass) (il2cppBase : UInt64)
include h

/-- The body is an empty line and the lines of its sections. -/
theorem NewlineFree.splitOn_bodyText :
    (bodyText il2cpp il2cppBase klass).splitOn '\n' =
      [] :: ((bodySections il2cpp il2cppBase klass).fields ++
        (bodySections il2cpp il2cppBase klass).properties ++
        (bodySections il2cpp il2cppBase klass).methods) ++ [[]] := by
  have hfields : ∀ l ∈ [] :: (bodySections il2cpp il2cppBase klass).fields, '\n' ∉ l := by
    simp only [bodySections, List.mem_cons, List.mem_map, forall_eq_or_imp, forall_exists_index,
      and_imp, forall_apply_eq_imp_iff₂]
    exact ⟨by simp, by decide, fun field hfield => h.not_mem_fieldLine _ hfield⟩
  have hmethods : ∀ l ∈ (bodySections il2cpp il2cppBase klass).methods, '\n' ∉ l := by
    simp only [bodySections, List.mem_cons, List.mem_flatMap, forall_eq_or_imp,
      forall_exists_index, and_imp, List.not_mem_nil, or_false]
    refine ⟨by decide, fun l method hmethod hl => ?_⟩
    rcases hl with rfl | rfl
    · exact not_mem_pointerLine il2cppBase method
    · exact h.not_mem_signatureLine hmethod
  have htext : bodyText il2cpp il2cppBase klass =
      terminated '\n' ([] :: (bodySections il2cpp il2cppBase klass).fields) ++
        (terminated '\n' [[], "\t// Properties"] ++
          ((il2cpp.classGetProperties klass).flatMap (propertyText il2cpp) ++ '\n' ::
            (terminated '\n' (bodySections il2cpp il2cppBase klass).methods ++ []))) := by
    have hmethod : (il2cpp.classGetMethods klass).flatMap (methodText il2cpp il2cppBase) =
        terminated '\n' ((il2cpp.classGetMethods klass).flatMap fun method =>
          [pointerLine il2cpp il2cppBase method, signatureLine il2cpp method]) := by
      simp only [terminated, List.flatMap_assoc]
      rfl
    simp only [bodyText, dumpField_eq, dumpMethod_eq, bodySections, terminated_cons,
      terminated_nil, List.append_assoc, hmethod, List.append_nil]
    rfl
  rw [htext, splitOn_terminated _ hfields, splitOn_terminated _ (by decide),
    List.splitOn_append_cons_self, splitOn_terminated _ hmethods]
  simp [bodySections]

theorem NewlineFree.cutSections_bodyText :
    cutSections ((bodySections il2cpp il2cppBase klass).fields ++
      (bodySections il2cpp il2cppBase klass).properties ++
      (bodySections il2cpp il2cppBase klass).methods) = bodySections il2cpp il2cppBase klass := by
  refine cutSections_append _ _ _ (fun hempty => ?_) (fun hheader => ?_)
  · rcases List.mem_cons.1 hempty with hempty | hempty
    · exact absurd hempty (by decide)
    · obtain ⟨field, -, hline⟩ := List.mem_map.1 hempty
      simp [fieldLine] at hline
  · rcases List.mem_cons.1 hheader with hheader | hheader
    · exact absurd hheader (by decide)
    · rcases List.mem_cons.1 hheader with hheader | hheader
      · exact absurd hheader (by decide)
      · exact (h.propLine _ (fun _ hp => hp) _ hheader).ne_methodsHeader rfl

end body

end Il2CppDumper
