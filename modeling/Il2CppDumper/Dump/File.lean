import Il2CppDumper.Clib.Loop
import Il2CppDumper.Dump.Sections
import Il2CppDumper.Model.Driver

/-!
# Cutting the file back into its types

The file is the image list and one block for every class. All of it is lines, so the decoder splits at
newlines first. The image list ends at the first empty line, with which every block begins; a block ends
at the first line `}`. No other line of a block is `}`: the lines before the body begin with a comment
sign, a bracket or a keyword, and the lines of the body are empty or indented (`blockLines_closing`).

Inside a block the header comes apart at its blanks, where the kind word is the first that is no
modifier, and the sections are those of the body (`cutSections`).
-/

namespace Il2CppDumper

open Clib OStringStream

/-! ### The decoder -/

section block
variable {H : Handles} (il2cpp : Il2cppApi H) (il2cppBase : UInt64)

end block

/-! ### Headers -/

/-- A name that can be taken out of a header again. -/
structure HeaderName (name : Text) : Prop where
  no_space : ∀ c ∈ name, isspace c = false
  no_comma : name.getLast? ≠ some ','

theorem HeaderName.blank {name : Text} (h : HeaderName name) : ' ' ∉ name :=
  fun hc => absurd (h.no_space _ hc) (by decide)

theorem HeaderName.newline {name : Text} (h : HeaderName name) : '\n' ∉ name :=
  fun hc => absurd (h.no_space _ hc) (by decide)

section header
variable {H : Handles} {il2cpp : Il2cppApi H} (hclass : ∀ c, HeaderName (il2cpp.classGetName c))
include hclass

end header

/-! ### The lines of a block -/

section lines
variable {H : Handles} (il2cpp : Il2cppApi H) (il2cppBase : UInt64)

/-- The lines of a block up to the one with the opening brace. -/
def blockHead (image : H.Il2CppImage) (klass : H.Il2CppClass) : List Text :=
  [[], ("// Dll : " : Text) ++ il2cpp.imageGetName image,
      ("// Namespace: " : Text) ++ il2cpp.classGetNamespace klass] ++
    (if il2cpp.classGetFlags klass &&& TYPE_ATTRIBUTE_SERIALIZABLE ≠ 0 then
      (["[Serializable]"] : List Text) else []) ++
    [typeHeader il2cpp klass, "\x7b"]

def Sections.lines (s : Sections) : List Text := s.fields ++ s.properties ++ s.methods

/-- The lines of a block without the one with the closing brace. -/
def blockLines (image : H.Il2CppImage) (klass : H.Il2CppClass) : List Text :=
  blockHead il2cpp image klass ++ (bodySections il2cpp il2cppBase klass).lines

/-- What the decoder asks of the names in a block. -/
structure BlockNames (image : H.Il2CppImage) (klass : H.Il2CppClass) : Prop where
  class_ : ∀ c, HeaderName (il2cpp.classGetName c)
  image : '\n' ∉ il2cpp.imageGetName image
  namespace_ : '\n' ∉ il2cpp.classGetNamespace klass
  members : NewlineFree il2cpp klass

end lines

section block
variable {H : Handles} {il2cpp : Il2cppApi H} {image : H.Il2CppImage} {klass : H.Il2CppClass}

theorem NewlineFree.bodyText_eq (h : NewlineFree il2cpp klass) (il2cppBase : UInt64) :
    bodyText il2cpp il2cppBase klass =
      '\n' :: terminated '\n' (bodySections il2cpp il2cppBase klass).lines := by
  have hlines := h.splitOn_bodyText il2cppBase
  have hjoin := terminated_splitOn (x := '\n') (bodyText il2cpp il2cppBase klass)
  rw [hlines, terminated_append, terminated_cons] at hjoin
  exact (List.append_left_inj ['\n']).1 hjoin.symm

/-- The text of a block up to its body, as lines. -/
theorem blockHead_text (il2cpp : Il2cppApi H) (image : H.Il2CppImage) (klass : H.Il2CppClass) :
    (imageStr il2cpp image).str ++ typeHead il2cpp klass ++ "\n\x7b\n" =
      terminated '\n' (blockHead il2cpp image klass) := by
  have hdll : "\n// Dll : ".toList = '\n' :: "// Dll : ".toList := rfl
  have hnamespace : "\n// Namespace: ".toList = '\n' :: "// Namespace: ".toList := rfl
  have hserializable : "[Serializable]\n".toList = "[Serializable]".toList ++ ['\n'] := rfl
  have hopening : "\n\x7b\n".toList = '\n' :: ("\x7b".toList ++ ['\n']) := rfl
  have hnewline : "\n".toList = ['\n'] := rfl
  delta typeHead
  by_cases hflag : il2cpp.classGetFlags klass &&& TYPE_ATTRIBUTE_SERIALIZABLE ≠ 0
  · simp only [imageStr, OStringStream.empty, put_ofText, str_ofText, blockHead, if_pos hflag,
      terminated_cons, terminated_nil, hdll, hnamespace, hserializable, hopening, hnewline,
      List.append_assoc, List.cons_append, List.nil_append]
  · simp only [imageStr, OStringStream.empty, put_ofText, str_ofText, blockHead, if_neg hflag,
      terminated_cons, terminated_nil, hdll, hnamespace, hopening, hnewline, List.append_assoc,
      List.cons_append, List.nil_append, List.append_nil]

section sections
variable (il2cpp : Il2cppApi H) (klass : H.Il2CppClass) (il2cppBase : UInt64)

end sections

variable (h : BlockNames il2cpp image klass) (il2cppBase : UInt64)
include h

/-- What is written to the file for a class. -/
theorem BlockNames.classOutPut_eq {klass₀ : H.Il2CppClass}
    (hklass : il2cpp.classFromType (il2cpp.classGetType klass₀) = klass) :
    classOutPut il2cpp il2cppBase image klass₀ =
      .ok (terminated '\n' (blockLines il2cpp il2cppBase image klass ++ ["\x7d".toList])) := by
  subst hklass
  have htype := dumpType_eq il2cpp il2cppBase (il2cpp.classGetType klass₀) h.members.named
  have hhead := blockHead_text il2cpp image
    (il2cpp.classFromType (il2cpp.classGetType klass₀))
  have hopening : "\n\x7b\n".toList = "\n\x7b".toList ++ ['\n'] := rfl
  have hclosing : "\x7d\n".toList = "\x7d".toList ++ ['\n'] := rfl
  rw [classOutPut, htype, h.members.bodyText_eq]
  simp only [bind, Except.bind, pure, Except.pure, blockLines, terminated_append, ← hhead,
    terminated_cons, terminated_nil, hopening, hclosing, List.append_assoc, List.cons_append,
    List.nil_append]

end block

/-! ### The file -/

section file
variable {H : Handles} (il2cpp : Il2cppApi H)

/-- The classes that are dumped, each with its image. -/
def dumpedClasses (imageGetClassCount : H.Il2CppImage → Nat)
    (imageGetClass : H.Il2CppImage → Nat → H.Il2CppClass) (assemblies : List H.Il2CppAssembly) :
    List (H.Il2CppImage × H.Il2CppClass) :=
  assemblies.flatMap fun assembly =>
    let image := il2cpp.assemblyGetImage assembly
    (List.range (imageGetClassCount image)).map fun j =>
      (image, il2cpp.classFromType (il2cpp.classGetType (imageGetClass image j)))

variable {il2cpp} {imageGetClassCount : H.Il2CppImage → Nat}
  {imageGetClass : H.Il2CppImage → Nat → H.Il2CppClass} {assemblies : List H.Il2CppAssembly}
  (il2cppBase : UInt64)

/-- The outputs of all loops, one for each class. -/
theorem outPuts_eq (hcount : il2cpp.imageGetClassCount = some imageGetClassCount)
    (hnames : ∀ x ∈ dumpedClasses il2cpp imageGetClassCount imageGetClass assemblies,
      BlockNames il2cpp x.1 x.2) :
    ∃ outPuts, assemblies.mapM (imageOutPuts il2cpp il2cppBase imageGetClass) = .ok outPuts ∧
      outPuts.flatten =
        (dumpedClasses il2cpp imageGetClassCount imageGetClass assemblies).map fun x =>
          terminated '\n' (blockLines il2cpp il2cppBase x.1 x.2 ++ ["\x7d".toList]) := by
  let text (image : H.Il2CppImage) (j : Nat) : Text :=
    terminated '\n' (blockLines il2cpp il2cppBase image
      (il2cpp.classFromType (il2cpp.classGetType (imageGetClass image j))) ++ ["\x7d".toList])
  have himage : ∀ assembly ∈ assemblies, imageOutPuts il2cpp il2cppBase imageGetClass assembly =
      pure ((List.range (imageGetClassCount (il2cpp.assemblyGetImage assembly))).map
        (text (il2cpp.assemblyGetImage assembly))) := by
    intro assembly hassembly
    simp only [imageOutPuts, hcount, call, bind, Except.bind]
    refine mapM_of_forall _ fun j hj => ?_
    have hmem : (il2cpp.assemblyGetImage assembly, il2cpp.classFromType (il2cpp.classGetType
        (imageGetClass (il2cpp.assemblyGetImage assembly) j))) ∈
        dumpedClasses il2cpp imageGetClassCount imageGetClass assemblies :=
      List.mem_flatMap.2 ⟨assembly, hassembly, List.mem_map.2 ⟨j, hj, rfl⟩⟩
    exact (hnames _ hmem).classOutPut_eq il2cppBase rfl
  refine ⟨_, mapM_of_forall _ himage, ?_⟩
  simp only [dumpedClasses, List.map_flatMap, List.map_map, ← List.flatMap_def]
  rfl

end file

end Il2CppDumper
