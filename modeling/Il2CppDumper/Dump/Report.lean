import Il2CppDumper.Dump.Outputs

/-!
# What `dump done!` says

The message is the last thing that a run logs once it has gone through its writes, and no run logs it
that has not opened the file (`done_not_mem_of_gather`). Nobody asks the stream how the writes went. So
the message is true of exactly the runs whose device keeps all that is written (`done_iff`).
-/

namespace Il2CppDumper

open Clib

variable {H : Handles} {process : Process H} {handle : UInt64}

/-- The texts of the complete output: the image list, and then the block of every class, in order. -/
def CompleteTexts (process : Process H) (handle : UInt64) (texts : List Text) : Prop :=
  let il2cpp := process.dlsym handle
  ∃ blocks, List.Forall₂ (fun x block => classBlock il2cpp process.il2cppBase x = .ok block)
      (allClasses il2cpp) blocks ∧
    texts = (imageList il2cpp (allAssemblies il2cpp)).str :: blocks

/-- The run opens the file: it has gathered the texts, and knows the directory. -/
def GetsToFile (process : Process H) (handle : UInt64) (outDir : Option Text) : Prop :=
  outDir ≠ none ∧ ∃ log outputs, gather process handle = .ok (log, some outputs)

/-- What a run writes are the texts of the complete output, and there are no others. -/
theorem completeTexts_iff {log : List Text} {imageOutput : Text} {outPuts : List Text}
    (h : gather process handle = .ok (log, some (imageOutput, outPuts))) (texts : List Text) :
    CompleteTexts process handle texts ↔ texts = imageOutput :: outPuts := by
  obtain ⟨rfl, hblocks⟩ := gather_ok rfl h
  constructor
  · rintro ⟨blocks, hblocks', rfl⟩
    have hsame := (mapM_of_forall₂ hblocks').symm.trans (mapM_of_forall₂ hblocks)
    rw [Except.ok.inj hsame]
  · rintro rfl
    exact ⟨outPuts, hblocks, rfl⟩

/-! ### The message -/

theorem done_not_mem_baseLog (process : Process H) : "dump done!".toList ∉ process.baseLog := by
  have hbase : "dump done!".toList ≠ "il2cpp_base: " ++ numeral .hex process.il2cppBase.toNat := by
    intro h
    have hhead : some 'd' = some 'i' := congrArg List.head? h
    exact absurd hhead (by decide)
  rw [Process.baseLog]
  split_ifs
  · simp only [List.mem_append, List.mem_cons, List.not_mem_nil, or_false, not_or]
    exact ⟨by decide, hbase, by decide⟩
  · simp only [List.nil_append, List.mem_cons, List.not_mem_nil, or_false, not_or]
    exact ⟨hbase, by decide⟩

theorem done_not_mem_of_gather {log : List Text} {outputs : Option (Text × List Text)}
    (h : gather process handle = .ok (log, outputs)) : "dump done!".toList ∉ log := by
  have hmore : ∀ messages : List Text, "dump done!".toList ∉ messages →
      "dump done!".toList ∉ process.baseLog ++ messages := by
    intro messages hmessages hmem
    rcases List.mem_append.1 hmem with hmem | hmem
    · exact done_not_mem_baseLog process hmem
    · exact hmessages hmem
  rcases hassemblies : (process.dlsym handle).domainGetAssemblies with - | domainGetAssemblies
  · simp only [gather, hassemblies] at h
    cases h
    decide
  rcases hclass : (process.dlsym handle).imageGetClass with - | imageGetClass
  · rcases hload : methodPointer (process.dlsym handle)
      (assemblyMethod (process.dlsym handle) "Load" 1) with - | assemblyLoad
    · simp only [gather, hassemblies, hclass, hload] at h
      cases h
      rw [List.append_assoc]
      exact hmore _ (by decide)
    rcases htypes : methodPointer (process.dlsym handle)
      (assemblyMethod (process.dlsym handle) "GetTypes" 0) with - | assemblyGetTypes
    · simp only [gather, hassemblies, hclass, hload, htypes] at h
      cases h
      rw [List.append_assoc]
      exact hmore _ (by decide)
    simp only [gather, hassemblies, hclass, hload, htypes] at h
    obtain ⟨outPuts, -, h⟩ := bind_eq_ok.1 h
    cases h
    exact hmore _ (by decide)
  · simp only [gather, hassemblies, hclass] at h
    obtain ⟨outPuts, -, h⟩ := bind_eq_ok.1 h
    cases h
    exact hmore _ (by decide)

/-- What a run that gets to the file leaves. -/
theorem il2cppDump_of_gather {log : List Text} {imageOutput : Text} {outPuts : List Text}
    (h : gather process handle = .ok (log, some (imageOutput, outPuts))) (device : Device)
    (dir : Text) :
    il2cppDump process device handle (some dir) =
      .ok ⟨log ++ (["write dump file", "dump done!"] : List Text),
        some (dir ++ "/files/dump.cs", fileContent device (imageOutput :: outPuts))⟩ := by
  rw [il2cppDump_eq, h]
  rfl

/-- A run that logs the message has got to the file. -/
theorem gather_of_done {device : Device} {outDir : Option Text} {outcome : Outcome}
    (hrun : il2cppDump process device handle outDir = .ok outcome)
    (hdone : "dump done!".toList ∈ outcome.log) :
    ∃ dir log imageOutput outPuts, outDir = some dir ∧
      gather process handle = .ok (log, some (imageOutput, outPuts)) := by
  rw [il2cppDump_eq] at hrun
  rcases hgather : gather process handle with fault | ⟨log, - | ⟨imageOutput, outPuts⟩⟩
  · rw [hgather] at hrun
    cases hrun
  · rw [hgather] at hrun
    cases hrun
    exact absurd hdone (done_not_mem_of_gather hgather)
  · cases outDir with
    | none =>
      rw [hgather] at hrun
      cases hrun
    | some dir => exact ⟨dir, log, imageOutput, outPuts, rfl, rfl⟩

/-- **The message says that the file holds the complete output exactly if the device keeps all its texts
where the run gets to the file.** -/
theorem done_iff (process : Process H) (handle : UInt64) (device : Device) (outDir : Option Text) :
    (∀ outcome, il2cppDump process device handle outDir = .ok outcome →
        "dump done!".toList ∈ outcome.log →
        ∃ dir texts, outDir = some dir ∧ CompleteTexts process handle texts ∧
          outcome.file = some (dir ++ "/files/dump.cs", some texts.flatten)) ↔
      (GetsToFile process handle outDir →
        ∀ texts, CompleteTexts process handle texts → device.Keeps texts) := by
  constructor
  · rintro h ⟨hdir, log, ⟨imageOutput, outPuts⟩, hgather⟩ texts htexts
    obtain ⟨dir, rfl⟩ := Option.ne_none_iff_exists'.1 hdir
    obtain ⟨dir', texts', -, htexts', hfile⟩ :=
      h _ (il2cppDump_of_gather hgather device dir) (by simp)
    obtain rfl := (completeTexts_iff hgather texts).1 htexts
    obtain rfl := (completeTexts_iff hgather texts').1 htexts'
    exact (fileContent_eq_iff device _).1 (Prod.mk.inj (Option.some.inj hfile)).2
  · intro h outcome hrun hdone
    obtain ⟨dir, log, imageOutput, outPuts, rfl, hgather⟩ := gather_of_done hrun hdone
    have htexts := (completeTexts_iff hgather _).2 rfl
    have hkeeps := h ⟨Option.some_ne_none dir, log, _, hgather⟩ _ htexts
    rw [il2cppDump_of_gather hgather device dir] at hrun
    obtain rfl := Except.ok.inj hrun
    refine ⟨dir, imageOutput :: outPuts, rfl, htexts, ?_⟩
    simp only [(fileContent_eq_iff device _).2 hkeeps]

/-- The directory `files` does not exist yet. -/
def noFiles : Device := { Device.sound with opens := false }

theorem done_noFiles :
    ¬∀ outcome, il2cppDump (processOf .blank) noFiles 0 (some "/data/app") = .ok outcome →
      "dump done!".toList ∈ outcome.log →
      ∃ dir texts, some "/data/app".toList = some dir ∧ CompleteTexts (processOf .blank) 0 texts ∧
        outcome.file = some (dir ++ "/files/dump.cs", some texts.flatten) := by
  intro h
  obtain ⟨dir, texts, -, -, hfile⟩ := h _ rfl (by decide)
  have hcontent : none = some texts.flatten := (Prod.mk.inj (Option.some.inj hfile)).2
  cases hcontent

end Il2CppDumper
