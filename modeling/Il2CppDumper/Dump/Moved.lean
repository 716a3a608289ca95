import Il2CppDumper.Dump.Layout
import Il2CppDumper.Dump.Outputs

/-!
# The library at another address

Where the library lies changes from run to run, and the file with it: the virtual addresses move, and
nothing else does (`dump_moved`). In particular no relative address changes, whichever functions the
runtime has and wherever the run ends.

The texts of a run are taken apart into pieces, of which some are virtual addresses; the pieces are the
same for all runs.
-/

namespace Il2CppDumper

open Clib OStringStream

variable {H : Handles}

/-! ### Pieces -/

/-- A piece of a text: plain, or a virtual address. -/
inductive Piece
  | plain (t : Text)
  | va (pointer : UInt64)

/-- The text of pieces where every address has moved. -/
def render (δ : UInt64) (ps : List Piece) : Text :=
  ps.flatMap fun
    | .plain t => t
    | .va pointer => numeral .hex (pointer + δ).toNat

/-- The runtime in a library that has moved: only code has another address. -/
def Il2cppApi.moved (δ : UInt64) (il2cpp : Il2cppApi H) : Il2cppApi H :=
  { il2cpp with
    methodPointer := fun method =>
      if il2cpp.methodPointer method = 0 then 0 else il2cpp.methodPointer method + δ
    assemblyLoad := fun pointer => il2cpp.assemblyLoad (pointer - δ)
    assemblyGetTypes := fun pointer => il2cpp.assemblyGetTypes (pointer - δ) }

/-- No code moves to address 0. -/
def Il2cppApi.Movable (il2cpp : Il2cppApi H) (δ : UInt64) : Prop :=
  ∀ method, il2cpp.methodPointer method ≠ 0 → il2cpp.methodPointer method + δ ≠ 0

theorem Il2cppApi.moved_zero (il2cpp : Il2cppApi H) : il2cpp.moved 0 = il2cpp := by
  have hpointer : (fun method =>
      if il2cpp.methodPointer method = 0 then 0 else il2cpp.methodPointer method + 0) =
      il2cpp.methodPointer := by
    funext method
    split
    · rename_i h
      exact h.symm
    · exact UInt64.add_zero _
  unfold moved
  simp only [hpointer, UInt64.sub_zero]

theorem Il2cppApi.movable_zero (il2cpp : Il2cppApi H) : il2cpp.Movable 0 := by
  intro method h
  rwa [UInt64.add_zero]

theorem render_append (δ : UInt64) (ps qs : List Piece) :
    render δ (ps ++ qs) = render δ ps ++ render δ qs := List.flatMap_append

theorem render_plain (δ : UInt64) (t : Text) (ps : List Piece) :
    render δ (.plain t :: ps) = t ++ render δ ps := rfl

theorem render_flatMap {α : Type} (δ : UInt64) (l : List α) (f : α → List Piece) :
    render δ (l.flatMap f) = l.flatMap fun a => render δ (f a) := List.flatMap_assoc

/-! ### The pieces of a class -/

section pieces
variable (il2cpp : Il2cppApi H) (il2cppBase : UInt64)

def methodPieces (method : H.MethodInfo) : List Piece :=
  let pointer := il2cpp.methodPointer method
  if pointer = 0 then
    [.plain (terminated '\n' ["\t// RVA: 0x VA: 0x0", signatureLine il2cpp method])]
  else
    [.plain ("\t// RVA: 0x" ++ numeral .hex (pointer - il2cppBase).toNat ++ " VA: 0x"), .va pointer,
      .plain ('\n' :: terminated '\n' [signatureLine il2cpp method])]

/-- The pieces around the properties of a class. -/
def typePieces (klass : H.Il2CppClass) (properties : Text) : List Piece :=
  .plain (typeHead il2cpp klass ++ "\n\x7b" ++ dumpField il2cpp klass ++ properties ++
      "\n\t// Methods\n") ::
    ((il2cpp.classGetMethods klass).flatMap (methodPieces il2cpp il2cppBase) ++
      [.plain "\x7d\n"])

def classPieces (x : H.Il2CppAssembly × H.Il2CppClass) : Except Fault (List Piece) :=
  let klass := il2cpp.classFromType (il2cpp.classGetType x.2)
  (dumpProperty il2cpp klass).map fun properties =>
    .plain (imageStr il2cpp (il2cpp.assemblyGetImage x.1)).str ::
      typePieces il2cpp il2cppBase klass properties

variable {il2cpp} {δ : UInt64} (hδ : il2cpp.Movable δ)
include hδ

theorem methodText_moved (method : H.MethodInfo) :
    methodText (il2cpp.moved δ) (il2cppBase + δ) method =
      render δ (methodPieces il2cpp il2cppBase method) := by
  have hline : signatureLine (il2cpp.moved δ) method = signatureLine il2cpp method := rfl
  unfold methodText pointerLine methodPieces
  dsimp only
  rw [hline]
  by_cases h : il2cpp.methodPointer method = 0
  · have hmoved : (il2cpp.moved δ).methodPointer method = 0 := if_pos h
    rw [if_neg (not_not.2 hmoved), if_pos h, render_plain]
    exact (List.append_nil _).symm
  · have hmoved : (il2cpp.moved δ).methodPointer method = il2cpp.methodPointer method + δ := if_neg h
    have hrva : il2cpp.methodPointer method + δ - (il2cppBase + δ) =
        il2cpp.methodPointer method - il2cppBase := by grind
    rw [hmoved, if_pos (hδ method h), if_neg h, hrva]
    simp [render, List.append_assoc]

theorem dumpMethod_moved (klass : H.Il2CppClass) :
    dumpMethod (il2cpp.moved δ) (il2cppBase + δ) klass = "\n\t// Methods\n" ++
      render δ ((il2cpp.classGetMethods klass).flatMap (methodPieces il2cpp il2cppBase)) := by
  rw [dumpMethod_eq, render_flatMap, ← funext (methodText_moved il2cppBase hδ)]
  rfl

theorem render_typePieces (klass : H.Il2CppClass) (properties : Text) :
    render δ (typePieces il2cpp il2cppBase klass properties) =
      typeHead il2cpp klass ++ "\n\x7b" ++ dumpField il2cpp klass ++ properties ++
        dumpMethod (il2cpp.moved δ) (il2cppBase + δ) klass ++ "\x7d\n" := by
  rw [dumpMethod_moved il2cppBase hδ, typePieces, render_plain, render_append, render_plain]
  simp only [List.append_assoc, render, List.flatMap_nil, List.append_nil]

/-- The text of a type, around its properties. -/
theorem dumpType_moved (type : H.Il2CppType) :
    dumpType (il2cpp.moved δ) (il2cppBase + δ) type =
      (dumpProperty il2cpp (il2cpp.classFromType type)).map fun properties =>
        render δ (typePieces il2cpp il2cppBase (il2cpp.classFromType type) properties) := by
  have hproperty : dumpProperty (il2cpp.moved δ) (il2cpp.classFromType type) =
      dumpProperty il2cpp (il2cpp.classFromType type) := rfl
  have hclass : (il2cpp.moved δ).classFromType type = il2cpp.classFromType type := rfl
  simp only [render_typePieces il2cppBase hδ]
  delta typeHead
  simp only [dumpType, OStringStream.empty, put_ofText, putIf_ofText, putExtends_ofText,
    List.nil_append, hclass, hproperty, bind, Except.bind, pure, Except.pure]
  cases dumpProperty il2cpp (il2cpp.classFromType type) with
  | error fault => rfl
  | ok properties =>
    simp only [Except.map, str_ofText, typeHeader, List.append_assoc]
    rfl

theorem classBlock_moved (x : H.Il2CppAssembly × H.Il2CppClass) :
    classBlock (il2cpp.moved δ) (il2cppBase + δ) x =
      (classPieces il2cpp il2cppBase x).map (render δ) := by
  have hclass : classBlock (il2cpp.moved δ) (il2cppBase + δ) x =
      (dumpType (il2cpp.moved δ) (il2cppBase + δ) (il2cpp.classGetType x.2)).map fun t =>
        (imageStr il2cpp (il2cpp.assemblyGetImage x.1)).str ++ t := by
    have himage : imageStr (il2cpp.moved δ) (il2cpp.assemblyGetImage x.1) =
        imageStr il2cpp (il2cpp.assemblyGetImage x.1) := rfl
    show (do return (imageStr (il2cpp.moved δ) (il2cpp.assemblyGetImage x.1)).str ++
      (← dumpType (il2cpp.moved δ) (il2cppBase + δ) (il2cpp.classGetType x.2))) = _
    rw [himage]
    cases dumpType (il2cpp.moved δ) (il2cppBase + δ) (il2cpp.classGetType x.2) <;> rfl
  rw [hclass, dumpType_moved il2cppBase hδ]
  unfold classPieces
  dsimp only
  cases dumpProperty il2cpp (il2cpp.classFromType (il2cpp.classGetType x.2)) with
  | error fault => rfl
  | ok properties => rfl

end pieces

/-! ### The pieces of a run -/

/-- A loop whose results are then mapped. -/
theorem mapM_map_except {α β γ : Type} (l : List α) (f : α → Except Fault β) (g : β → γ) :
    l.mapM (fun a => (f a).map g) = (l.mapM f).map (List.map g) := by
  induction l with
  | nil => rfl
  | cons a l ih =>
    rw [List.mapM_cons, List.mapM_cons, ih]
    cases f a with
    | error fault => rfl
    | ok b => cases l.mapM f <;> rfl

/-- The end of a run, in texts and in pieces. -/
theorem flatten_moved (run : Except Fault (List (List (List Piece)))) (log : List Text)
    (imageOutput : Text) (δ : UInt64) :
    Except.map Prod.snd (do
      let outPuts ← run.map (List.map (List.map (render δ)))
      return (log, some (imageOutput, outPuts.flatten))) =
    (run.map fun blocks => some (imageOutput, blocks.flatten)).map
      (Option.map fun outputs => (outputs.1, outputs.2.map (render δ))) := by
  cases run with
  | error fault => rfl
  | ok blocks =>
    show Except.ok (some (imageOutput, (blocks.map (List.map (render δ))).flatten)) = _
    rw [← List.map_flatten]
    rfl

section run
variable (il2cpp : Il2cppApi H) (il2cppBase : UInt64)

def imagePieces (imageGetClass : H.Il2CppImage → Nat → H.Il2CppClass)
    (assembly : H.Il2CppAssembly) : Except Fault (List (List Piece)) := do
  let imageGetClassCount ← call il2cpp.imageGetClassCount
  (List.range (imageGetClassCount (il2cpp.assemblyGetImage assembly))).mapM fun j =>
    classPieces il2cpp il2cppBase (assembly, imageGetClass (il2cpp.assemblyGetImage assembly) j)

def reflectionPieces (assemblyLoad assemblyGetTypes : UInt64) (assembly : H.Il2CppAssembly) :
    Except Fault (List (List Piece)) :=
  (reflectedClasses il2cpp assemblyLoad assemblyGetTypes assembly).mapM fun klass =>
    classPieces il2cpp il2cppBase (assembly, klass)

/-- The image list and the pieces of every class, unless the function returns. -/
def gatherPieces : Except Fault (Option (Text × List (List Piece))) :=
  match il2cpp.domainGetAssemblies with
  | none => .ok none
  | some domainGetAssemblies =>
    let assemblies := domainGetAssemblies il2cpp.domainGet
    let imageOutput := (imageList il2cpp assemblies).str
    match il2cpp.imageGetClass with
    | some imageGetClass =>
      (assemblies.mapM (imagePieces il2cpp il2cppBase imageGetClass)).map fun blocks =>
        some (imageOutput, blocks.flatten)
    | none =>
      match methodPointer il2cpp (assemblyMethod il2cpp "Load" 1),
        methodPointer il2cpp (assemblyMethod il2cpp "GetTypes" 0) with
      | some assemblyLoad, some assemblyGetTypes =>
        (assemblies.mapM (reflectionPieces il2cpp il2cppBase assemblyLoad assemblyGetTypes)).map
          fun blocks => some (imageOutput, blocks.flatten)
      | _, _ => .ok none

variable {il2cpp} {δ : UInt64} (hδ : il2cpp.Movable δ)
include hδ

theorem imageOutPuts_moved (imageGetClass : H.Il2CppImage → Nat → H.Il2CppClass)
    (assembly : H.Il2CppAssembly) :
    imageOutPuts (il2cpp.moved δ) (il2cppBase + δ) imageGetClass assembly =
      (imagePieces il2cpp il2cppBase imageGetClass assembly).map (List.map (render δ)) := by
  unfold imagePieces
  cases hcount : il2cpp.imageGetClassCount with
  | none =>
    have hmoved : (il2cpp.moved δ).imageGetClassCount = none := hcount
    rw [imageOutPuts, hmoved]
    rfl
  | some imageGetClassCount =>
    have hmoved : (il2cpp.moved δ).imageGetClassCount = some imageGetClassCount := hcount
    rw [imageOutPuts_eq (il2cppBase + δ) hmoved, countedClasses, List.mapM_map]
    refine Eq.trans ?_ (mapM_map_except _ _ _)
    congr 1
    funext j
    exact classBlock_moved il2cppBase hδ
      (assembly, imageGetClass (il2cpp.assemblyGetImage assembly) j)

theorem methodPointer_moved (method : Option H.MethodInfo) :
    methodPointer (il2cpp.moved δ) method = (methodPointer il2cpp method).map (· + δ) := by
  cases method with
  | none => rfl
  | some method =>
    unfold methodPointer
    dsimp only
    by_cases h : il2cpp.methodPointer method = 0
    · have hmoved : (il2cpp.moved δ).methodPointer method = 0 := if_pos h
      rw [if_neg (not_not.2 hmoved), if_neg (not_not.2 h)]
      rfl
    · have hmoved : (il2cpp.moved δ).methodPointer method = il2cpp.methodPointer method + δ :=
        if_neg h
      rw [hmoved, if_pos (hδ method h), if_pos h]
      rfl

theorem reflectionOutPuts_moved {assemblyLoad assemblyGetTypes : UInt64}
    (hload : methodPointer il2cpp (assemblyMethod il2cpp "Load" 1) = some assemblyLoad)
    (htypes : methodPointer il2cpp (assemblyMethod il2cpp "GetTypes" 0) = some assemblyGetTypes)
    (assembly : H.Il2CppAssembly) :
    reflectionOutPuts (il2cpp.moved δ) (il2cppBase + δ) (assemblyLoad + δ) (assemblyGetTypes + δ)
        assembly =
      (reflectionPieces il2cpp il2cppBase assemblyLoad assemblyGetTypes assembly).map
        (List.map (render δ)) := by
  have hloads : methodPointer (il2cpp.moved δ) (assemblyMethod (il2cpp.moved δ) "Load" 1) =
      some (assemblyLoad + δ) := by
    show methodPointer (il2cpp.moved δ) (assemblyMethod il2cpp "Load" 1) = _
    rw [methodPointer_moved hδ, hload, Option.map_some]
  have htypess : methodPointer (il2cpp.moved δ) (assemblyMethod (il2cpp.moved δ) "GetTypes" 0) =
      some (assemblyGetTypes + δ) := by
    show methodPointer (il2cpp.moved δ) (assemblyMethod il2cpp "GetTypes" 0) = _
    rw [methodPointer_moved hδ, htypes, Option.map_some]
  have hclasses : reflectedClasses (il2cpp.moved δ) (assemblyLoad + δ) (assemblyGetTypes + δ) assembly =
      reflectedClasses il2cpp assemblyLoad assemblyGetTypes assembly := by
    have hback : ∀ p : UInt64, p + δ - δ = p := by
      intro p
      grind
    unfold reflectedClasses Il2cppApi.moved
    simp only [hback]
  rw [reflectionOutPuts_eq (il2cppBase + δ) hloads htypess, hclasses]
  refine Eq.trans ?_ (mapM_map_except _ _ _)
  congr 1
  funext klass
  exact classBlock_moved il2cppBase hδ (assembly, klass)

variable {process : Process H} {handle : UInt64}

theorem gather_moved (hil2cpp : process.dlsym handle = il2cpp.moved δ)
    (hbase : process.il2cppBase = il2cppBase + δ) :
    (gather process handle).map Prod.snd =
      (gatherPieces il2cpp il2cppBase).map (Option.map fun outputs =>
        (outputs.1, outputs.2.map (render δ))) := by
  have hlist : ∀ assemblies, imageList (il2cpp.moved δ) assemblies = imageList il2cpp assemblies :=
    fun _ => rfl
  rw [gather, gatherPieces, hil2cpp, hbase]
  cases hassemblies : il2cpp.domainGetAssemblies with
  | none =>
    have hmoved : (il2cpp.moved δ).domainGetAssemblies = none := hassemblies
    rw [hmoved]
    rfl
  | some domainGetAssemblies =>
    have hmoved : (il2cpp.moved δ).domainGetAssemblies = some domainGetAssemblies := hassemblies
    rw [hmoved]
    cases hclass : il2cpp.imageGetClass with
    | some imageGetClass =>
      have hmoved : (il2cpp.moved δ).imageGetClass = some imageGetClass := hclass
      dsimp only
      rw [hmoved]
      dsimp only
      rw [funext (imageOutPuts_moved il2cppBase hδ imageGetClass), mapM_map_except]
      exact flatten_moved _ _ _ _
    | none =>
      have hmoved : (il2cpp.moved δ).imageGetClass = none := hclass
      have hmethod : ∀ name k, methodPointer (il2cpp.moved δ) (assemblyMethod (il2cpp.moved δ) name k) =
          (methodPointer il2cpp (assemblyMethod il2cpp name k)).map (· + δ) :=
        fun name k => methodPointer_moved hδ (assemblyMethod il2cpp name k)
      dsimp only
      rw [hmoved]
      dsimp only
      rw [hmethod, hmethod]
      cases hload : methodPointer il2cpp (assemblyMethod il2cpp "Load" 1) with
      | none => rfl
      | some assemblyLoad =>
        cases htypes : methodPointer il2cpp (assemblyMethod il2cpp "GetTypes" 0) with
        | none => rfl
        | some assemblyGetTypes =>
          dsimp only [Option.map]
          rw [funext (reflectionOutPuts_moved il2cppBase hδ hload htypes), mapM_map_except]
          exact flatten_moved _ _ _ _

end run

/-- The path of the file and what is written to it, in pieces. -/
def dumpPieces (process : Process H) (handle : UInt64) (outDir : Option Text) :
    Except Fault (Option (Text × List (List Piece))) := do
  match ← gatherPieces (process.dlsym handle) process.il2cppBase with
  | none => return none
  | some (imageOutput, blocks) =>
    return some ((← cstr outDir) ++ "/files/dump.cs", [.plain imageOutput] :: blocks)

theorem dumpedFile_moved {process process' : Process H} {handle δ : UInt64} (device : Device)
    (outDir : Option Text) (hδ : (process.dlsym handle).Movable δ)
    (hdlsym : process'.dlsym handle = (process.dlsym handle).moved δ)
    (hbase : process'.il2cppBase = process.il2cppBase + δ) :
    dumpedFile (il2cppDump process' device handle outDir) =
      (dumpPieces process handle outDir).map (Option.map fun file =>
        (file.1, fileContent device (file.2.map (render δ)))) := by
  have hgather := gather_moved process.il2cppBase hδ hdlsym hbase
  rw [il2cppDump_eq, dumpPieces]
  cases hpieces : gatherPieces (process.dlsym handle) process.il2cppBase with
  | error fault =>
    rw [hpieces] at hgather
    cases hout : gather process' handle with
    | error fault' =>
      rw [hout] at hgather
      cases hgather
      rfl
    | ok outputs =>
      rw [hout] at hgather
      cases hgather
  | ok pieces =>
    rw [hpieces] at hgather
    cases hout : gather process' handle with
    | error fault =>
      rw [hout] at hgather
      cases hgather
    | ok outputs =>
      obtain ⟨log, outputs⟩ := outputs
      rw [hout] at hgather
      obtain rfl : outputs = pieces.map fun outputs => (outputs.1, outputs.2.map (render δ)) :=
        Except.ok.inj hgather
      cases pieces with
      | none => rfl
      | some pieces =>
        show dumpedFile (writeDump device outDir log pieces.1 (pieces.2.map (render δ))) = _
        rw [dumpedFile_writeDump]
        cases outDir with
        | none => rfl
        | some outDir =>
          have hlist : render δ [.plain pieces.1] = pieces.1 := List.append_nil _
          show Except.ok (some (_, fileContent device _)) = Except.ok (some (_, fileContent device _))
          rw [List.map_cons, hlist]

/-- **The file does not depend on where the library lies**, but for the virtual addresses: these move
with it. The same calls fault and the same runs return early. -/
theorem dump_moved {process process' : Process H} {handle δ : UInt64} (device : Device)
    (outDir : Option Text) (hδ : (process.dlsym handle).Movable δ)
    (hdlsym : process'.dlsym handle = (process.dlsym handle).moved δ)
    (hbase : process'.il2cppBase = process.il2cppBase + δ) :
    dumpedFile (il2cppDump process device handle outDir) =
      (dumpPieces process handle outDir).map (Option.map fun file =>
        (file.1, fileContent device (file.2.map (render 0)))) ∧
    dumpedFile (il2cppDump process' device handle outDir) =
      (dumpPieces process handle outDir).map (Option.map fun file =>
        (file.1, fileContent device (file.2.map (render δ)))) :=
  ⟨dumpedFile_moved device outDir (process.dlsym handle).movable_zero
    (process.dlsym handle).moved_zero.symm (UInt64.add_zero _).symm,
    dumpedFile_moved device outDir hδ hdlsym hbase⟩

/-- A runtime with one class, of which one method has code. -/
def oneMethod : Il2cppApi .numbered :=
  { Il2cppApi.blank with
    domainGetAssemblies := some fun _ => [0]
    imageGetClassCount := some fun _ => 1
    classGetMethods := fun _ => [1]
    methodPointer := fun method => if method = 1 then 0x1234 else 0 }

theorem dump_moved_oneMethod :
    dumpedFile (il2cppDump (processOf oneMethod) .sound 0 (some "/data/g")) =
      (dumpPieces (processOf oneMethod) 0 (some "/data/g")).map (Option.map fun file =>
        (file.1, fileContent .sound (file.2.map (render 0)))) ∧
    dumpedFile (il2cppDump { processOf (oneMethod.moved 0x7000) with dladdr := some 0x7000 } .sound 0
        (some "/data/g")) =
      (dumpPieces (processOf oneMethod) 0 (some "/data/g")).map (Option.map fun file =>
        (file.1, fileContent .sound (file.2.map (render 0x7000)))) := by
  have hδ : oneMethod.Movable 0x7000 := by
    intro method h
    unfold oneMethod
    dsimp only
    split
    · decide
    · rename_i hne
      exact absurd (if_neg hne) h
  exact dump_moved .sound _ hδ rfl rfl

end Il2CppDumper
