import Il2CppDumper.Clib.Machine
import Il2CppDumper.Dobby.Hook

/-!
# Sessions

A process sets hooks, takes them away and writes to memory of its own, in any order. Beside it runs
the same process without hooks (`unhooked`), and every `origin_call` that was returned is kept.

`Layered` is the invariant: the trampolines in memory are those of the entries, each over what its
entry has saved, down to the memory of the process without hooks. From it follow where the hooked
functions lead (`hooks_lead`), that the code of no `origin_call` is ever lost (`origin_calls_kept`),
and that a hook is not seen elsewhere (`hooks_unseen`).
-/

namespace Il2CppDumper.Dobby

open Arm64 Clib HookedProcess

/-! ### Layers -/

/-- The trampoline of an entry. -/
def HookEntry.trampoline (e : HookEntry) : CodeBuffer :=
  generateNormalTrampolineBuffer e.functionAddress e.trampolineTarget

def HookEntry.region (e : HookEntry) : Set Addr := Arm64.region e.functionAddress 16

/-- Memory with the trampolines of entries, the newest first, over `unhooked` off `P`. -/
def Layered (unhooked : Mem) (P : Set Addr) : List HookEntry → Mem → Prop
  | [], m => ∀ x ∉ P, m x = unhooked x
  | e :: es, m => e.chunkBuffer.length ≤ 16 ∧ Holds m e.functionAddress e.trampoline.buffer ∧
      Layered unhooked P es (store m e.functionAddress e.chunkBuffer)

section layers
variable {unhooked m m' : Mem} {P P' : Set Addr} {e : HookEntry} {es : List HookEntry} {a x : Addr}
  {bs : List (BitVec 8)}

theorem HookEntry.trampoline_subset (e : HookEntry) :
    Arm64.region e.functionAddress (4 * e.trampoline.buffer.length) ⊆ e.region :=
  region_mono (trampoline_size e.functionAddress e.trampolineTarget)

theorem HookEntry.holds_store (hholds : Holds m e.functionAddress e.trampoline.buffer)
    (h : Disjoint e.region (Arm64.region a bs.length)) :
    Holds (store m a bs) e.functionAddress e.trampoline.buffer :=
  hholds.store (h.mono_left e.trampoline_subset)

theorem Layered.congr (h : Layered unhooked P es m) (hP : P ⊆ P')
    (hes : ∀ e ∈ es, Disjoint e.region P') (hm : ∀ x ∉ P', m' x = m x) :
    Layered unhooked P' es m' := by
  induction es generalizing m m' with
  | nil =>
    intro x hx
    rw [hm x hx]
    exact h x fun hmem => hx (hP hmem)
  | cons e es ih =>
    obtain ⟨hlen, hholds, hrest⟩ := h
    refine ⟨hlen, ?_, ih hrest (fun f hf => hes f (List.mem_cons_of_mem e hf)) ?_⟩
    · apply hholds.congr
      intro x hx
      exact hm x (Set.disjoint_left.1 (hes e List.mem_cons_self) (e.trampoline_subset hx))
    · intro x hx
      by_cases hin : x ∈ Arm64.region e.functionAddress e.chunkBuffer.length
      · unfold store
        rw [List.getElem?_eq_getElem hin, Option.getD_some, Option.getD_some]
      · rw [store_outside hin, store_outside hin, hm x hx]

theorem Layered.push (h : Layered unhooked P es m)
    (hsaved : e.chunkBuffer = load m e.functionAddress e.trampoline.getSize) :
    Layered unhooked P (e :: es) (store m e.functionAddress e.trampoline.bytes) := by
  have hsize := trampoline_size e.functionAddress e.trampolineTarget
  have hlen : e.trampoline.bytes.length = e.trampoline.getSize := length_bytes e.trampoline
  refine ⟨?_, ?_, ?_⟩
  · rw [hsaved, length_load]
    exact hsize
  · have := trampoline_length e.functionAddress e.trampolineTarget
    exact Arm64.holds_store m e.functionAddress (by unfold HookEntry.trampoline; omega)
  · have hsame : e.trampoline.bytes.length ≤ 2 ^ 64 := by
      rw [hlen]
      exact Nat.le_trans hsize (by decide)
    rw [hsaved, ← hlen, store_load hsame]
    exact h

theorem Layered.saved (h : Layered unhooked P es m) : ∀ e ∈ es, e.chunkBuffer.length ≤ 16 := by
  induction es generalizing m with
  | nil =>
    intro e he
    cases he
  | cons f es ih =>
    intro e he
    rcases List.mem_cons.1 he with rfl | he
    · exact h.1
    · exact ih h.2.2 e he

theorem HookEntry.saved_subset (hlen : e.chunkBuffer.length ≤ 16) :
    Arm64.region e.functionAddress e.chunkBuffer.length ⊆ e.region := region_mono hlen

/-- The entries of two functions do not overlap. -/
def Apart (e f : HookEntry) : Prop :=
  e.functionAddress = f.functionAddress ∨ Disjoint e.region f.region

theorem find_cons {f : HookEntry}
    (hfind : (f :: es).find? (fun e => e.functionAddress = a) = some e) :
    (f.functionAddress = a ∧ f = e) ∨
      (f.functionAddress ≠ a ∧ es.find? (fun e => e.functionAddress = a) = some e ∧ e ∈ es ∧
        e.functionAddress = a) := by
  by_cases hf : f.functionAddress = a
  · rw [List.find?_cons_of_pos (p := fun e : HookEntry => decide (e.functionAddress = a))
      (decide_eq_true hf)] at hfind
    exact Or.inl ⟨hf, Option.some.inj hfind⟩
  · rw [List.find?_cons_of_neg (p := fun e : HookEntry => decide (e.functionAddress = a))
      (by simpa using hf)] at hfind
    have haddress : e.functionAddress = a := by simpa using List.find?_some hfind
    exact Or.inr ⟨hf, hfind, List.mem_of_find?_eq_some hfind, haddress⟩

theorem Layered.erase (h : Layered unhooked P es m) (hapart : es.Pairwise Apart)
    (hfind : es.find? (fun e => e.functionAddress = a) = some e) :
    Layered unhooked P (es.eraseP fun e => e.functionAddress = a) (store m a e.chunkBuffer) := by
  induction es generalizing m with
  | nil => cases hfind
  | cons f es ih =>
    have hsaved := h.saved
    obtain ⟨hlen, hholds, hrest⟩ := h
    obtain ⟨hhead, htail⟩ := List.pairwise_cons.1 hapart
    rcases find_cons hfind with ⟨hf, rfl⟩ | ⟨hf, hfind, hmem, haddress⟩
    · rw [List.eraseP_cons_of_pos (p := fun e : HookEntry => decide (e.functionAddress = a))
        (decide_eq_true hf), ← hf]
      exact hrest
    · rw [List.eraseP_cons_of_neg (p := fun e : HookEntry => decide (e.functionAddress = a))
        (by simpa using hf)]
      have hdisjoint : Disjoint f.region (Arm64.region a e.chunkBuffer.length) := by
        have hfe : Disjoint f.region e.region :=
          (hhead e hmem).resolve_left fun heq => hf (heq.trans haddress)
        rw [← haddress]
        exact hfe.mono_right (HookEntry.saved_subset (hsaved e (List.mem_cons_of_mem f hmem)))
      refine ⟨hlen, HookEntry.holds_store hholds hdisjoint, ?_⟩
      rw [store_comm m (hdisjoint.symm.mono_right (HookEntry.saved_subset hlen))]
      exact ih hrest htail hfind

theorem Layered.write (h : Layered unhooked P es m)
    (hes : ∀ e ∈ es, Disjoint e.region (Arm64.region a bs.length)) :
    Layered (store unhooked a bs) P es (store m a bs) := by
  induction es generalizing m with
  | nil =>
    intro x hx
    unfold store
    rw [h x hx]
  | cons e es ih =>
    obtain ⟨hlen, hholds, hrest⟩ := h
    have hdisjoint := hes e List.mem_cons_self
    refine ⟨hlen, HookEntry.holds_store hholds hdisjoint, ?_⟩
    rw [store_comm m (hdisjoint.symm.mono_right (HookEntry.saved_subset hlen))]
    exact ih hrest fun f hf => hes f (List.mem_cons_of_mem e hf)

theorem Layered.newest (h : Layered unhooked P es m) (hapart : es.Pairwise Apart)
    (hfind : es.find? (fun e => e.functionAddress = a) = some e) :
    Holds m e.functionAddress e.trampoline.buffer := by
  induction es generalizing m with
  | nil => cases hfind
  | cons f es ih =>
    obtain ⟨hlen, hholds, hrest⟩ := h
    obtain ⟨hhead, htail⟩ := List.pairwise_cons.1 hapart
    rcases find_cons hfind with ⟨-, rfl⟩ | ⟨hf, hfind, hmem, haddress⟩
    · exact hholds
    · have hdisjoint : Disjoint f.region e.region :=
        (hhead e hmem).resolve_left fun heq => hf (heq.trans haddress)
      apply (ih hrest htail hfind).congr
      intro x hx
      have hin : x ∈ e.region := e.trampoline_subset hx
      rw [store_outside fun hf => Set.disjoint_left.1 hdisjoint (HookEntry.saved_subset hlen hf) hin]

theorem Layered.unseen (h : Layered unhooked P es m) (hx : x ∉ P) (hes : ∀ e ∈ es, x ∉ e.region) :
    m x = unhooked x := by
  induction es generalizing m with
  | nil => exact h x hx
  | cons e es ih =>
    obtain ⟨hlen, -, hrest⟩ := h
    rw [← ih hrest fun f hf => hes f (List.mem_cons_of_mem e hf)]
    exact (store_outside fun hin => hes e List.mem_cons_self (HookEntry.saved_subset hlen hin)).symm

end layers

/-! ### Sessions -/

/-- An `origin_call`, with the function and the words that it stands for. -/
structure OriginCall where
  functionAddress : Addr
  covered : List Word
  originCall : Addr

/-- A process with hooks, the memory of the same process without, and what was returned. -/
structure Session where
  process : HookedProcess
  unhooked : Mem
  originCalls : List OriginCall

inductive Action
  | hook (mmap : Option Addr) (address replaceCall : Addr)
  | destroy (address : Addr)
  | write (address : Addr) (bytes : List (BitVec 8))

/-- One call of Dobby, or a write of the program. A crash ends the session. -/
def sessionStep (pageSize : Nat) (s : Session) : Action → Option Session
  | .hook mmap address replaceCall =>
    match s.process.dobbyHook pageSize mmap address replaceCall with
    | .error _ => none
    | .ok (process, _, none) => some { s with process }
    | .ok (process, _, some origin) => some { s with
        process
        originCalls := ⟨address, s.process.covered address replaceCall, origin⟩ :: s.originCalls }
  | .destroy address =>
    match s.process.dobbyDestroy pageSize address with
    | .error _ => none
    | .ok (process, _) => some { s with process }
  | .write address bytes => some { s with
      process := { s.process with
        memory := { s.process.memory with bytes := store s.process.memory.bytes address bytes } }
      unhooked := store s.unhooked address bytes }

def sessionMachine (pageSize : Nat) (memory : Memory) : Machine Session Action where
  init := ⟨start memory, memory.bytes, []⟩
  step := sessionStep pageSize

def arenaRegion (arena : MemoryArena) : Set Addr := {x | ∃ p ∈ arena, x ∈ p.region}

/-- The functions that are hooked are the same or 16 bytes apart, and off the arena; what `mmap`
returns is new and off the functions; and the program writes neither to a hooked function nor to the
arena. -/
def Allowed (pageSize : Nat) (s : Session) : Action → Prop
  | .hook mmap address _ => Hookable pageSize mmap s.process address ∧
      (∀ e ∈ s.process.hookEntryList,
        address = e.functionAddress ∨ Disjoint (region address 16) e.region) ∧
      ∀ a, mmap = some a → ∀ e ∈ s.process.hookEntryList, Disjoint (region a pageSize) e.region
  | .destroy _ => True
  | .write address bytes =>
      Disjoint (arenaRegion s.process.pageChunks) (region address bytes.length) ∧
      ∀ e ∈ s.process.hookEntryList, Disjoint e.region (region address bytes.length)

/-- The code of an `origin_call` is in a chunk of the arena. -/
def OriginCall.Kept (o : OriginCall) (m : Mem) (arena : MemoryArena) : Prop :=
  ∃ F, genRelocateCodeAndBranch o.functionAddress o.covered = some F ∧
    Holds m o.originCall F.buffer ∧
    ∃ c ∈ chunksOf arena, region o.originCall (4 * F.buffer.length) ⊆ c.region

structure SessionSound (pageSize : Nat) (s : Session) : Prop where
  arena : ArenaSound pageSize s.process.pageChunks
  apart : s.process.hookEntryList.Pairwise Apart
  offArena : ∀ e ∈ s.process.hookEntryList, Disjoint e.region (arenaRegion s.process.pageChunks)
  layered : Layered s.unhooked (arenaRegion s.process.pageChunks) s.process.hookEntryList
    s.process.memory.bytes
  calls : ∀ o ∈ s.originCalls, o.Kept s.process.memory.bytes s.process.pageChunks

section sound
variable {pageSize : Nat} {mmap : Option Addr} {s s' : Session} {process : HookedProcess}
  {address replaceCall origin : Addr} {F : CodeBuffer}

theorem dobbyDestroy_inv {s s' : HookedProcess} {r : Int}
    (h : s.dobbyDestroy pageSize address = .ok (s', r)) :
    (s' = s ∧ r = -1) ∨ ∃ e, s.findHookEntry address = some e ∧
      s'.memory.bytes = store s.memory.bytes address e.chunkBuffer ∧
      s'.pageChunks = s.pageChunks ∧
      (s'.hookEntryList = s.hookEntryList.eraseP fun e => e.functionAddress = address) ∧
      ∀ x, s'.memory.writable x = true → s.memory.writable x = true := by
  unfold dobbyDestroy at h
  split at h
  · obtain ⟨rfl, rfl⟩ := Prod.mk.inj (Except.ok.inj h)
    exact Or.inl ⟨rfl, rfl⟩
  · rename_i e he
    obtain ⟨m, hm, h⟩ := bind_eq_ok.1 h
    obtain ⟨rfl, rfl⟩ := Prod.mk.inj (Except.ok.inj h)
    refine Or.inr ⟨e, he, ?_, rfl, rfl, ?_⟩
    · show m.bytes = _
      rw [(Memory.codePatch_inv hm).2]
      rfl
    · intro x hx
      have hx : m.writable x = true := hx
      rw [(Memory.codePatch_inv hm).2] at hx
      exact (Memory.patched_writable hx).1

theorem mem_arenaRegion {arena : MemoryArena} {c : MemoryChunk} (hs : ArenaSound pageSize arena)
    (hc : c ∈ chunksOf arena) : c.region ⊆ arenaRegion arena := by
  obtain ⟨p, hp, hcp⟩ := List.mem_flatMap.1 hc
  exact fun x hx => ⟨p, hp, (hs.pages p hp).chunk_subset hcp hx⟩

theorem disjoint_arenaRegion {arena : MemoryArena} {S : Set Addr}
    (h : ∀ p ∈ arena, Disjoint p.region S) : Disjoint (arenaRegion arena) S := by
  rw [Set.disjoint_left]
  rintro x ⟨p, hp, hx⟩
  exact Set.disjoint_left.1 (h p hp) hx

theorem SessionSound.hook (hs : SessionSound pageSize s) (hpage : 100 ≤ pageSize)
    (hguard : Allowed pageSize s (.hook mmap address replaceCall))
    (h : Hooked pageSize mmap s.process process address replaceCall origin F) :
    SessionSound pageSize { s with
      process
      originCalls :=
        ⟨address, s.process.covered address replaceCall, origin⟩ :: s.originCalls } := by
  obtain ⟨hhook, hfunctions, hnew⟩ := hguard
  obtain ⟨hsound, hfresh, d, hd, hsub⟩ := h.arena hs.arena hhook hpage
  obtain ⟨hchunks, hpages⟩ := h.kept hs.arena hhook hpage
  obtain ⟨htramp, hcode, -⟩ := h.code hs.arena hhook hpage
  have hP : arenaRegion s.process.pageChunks ⊆ arenaRegion process.pageChunks := by
    rintro x ⟨p, hp, hx⟩
    obtain ⟨p', hp', hregion⟩ := hpages p hp
    exact ⟨p', hp', hregion ▸ hx⟩
  have hF : region origin F.bytes.length ⊆ arenaRegion process.pageChunks :=
    hsub.trans (mem_arenaRegion hsound hd)
  have hnewarena : Disjoint (region address 16) (arenaRegion process.pageChunks) :=
    (disjoint_arenaRegion (h.pages_apart hs.arena hpage hhook.apart hhook.apartNew)).symm
  have holdarena : ∀ e ∈ s.process.hookEntryList,
      Disjoint e.region (arenaRegion process.pageChunks) := by
    intro e he
    apply Disjoint.symm
    apply disjoint_arenaRegion
    apply h.pages_apart hs.arena hpage
    · intro p hp
      exact (Set.disjoint_left.2 fun x hx hpx =>
        Set.disjoint_left.1 (hs.offArena e he) hx ⟨p, hp, hpx⟩ : Disjoint e.region p.region).symm
    · exact fun a ha => hnew a ha e he
  refine ⟨hsound, ?_, ?_, ?_, ?_⟩
  · show process.hookEntryList.Pairwise Apart
    rw [h.entries]
    exact List.pairwise_cons.2 ⟨hfunctions, hs.apart⟩
  · show ∀ e ∈ process.hookEntryList, _
    rw [h.entries]
    intro e he
    rcases List.mem_cons.1 he with rfl | he
    · exact hnewarena
    · exact holdarena e he
  · show Layered s.unhooked _ process.hookEntryList process.memory.bytes
    rw [h.entries, h.bytes]
    -- the relocated code is in the arena, and the trampoline is the newest layer
    have hbelow : Layered s.unhooked (arenaRegion process.pageChunks) s.process.hookEntryList
        (store s.process.memory.bytes origin F.bytes) :=
      hs.layered.congr hP holdarena fun x hx => store_outside fun hin => hx (hF hin)
    exact hbelow.push (e := s.process.newEntry address replaceCall origin _) rfl
  · intro o ho
    rcases List.mem_cons.1 ho with rfl | ho
    · refine ⟨F, h.relocated, hcode, d, hd, ?_⟩
      rwa [length_bytes] at hsub
    · obtain ⟨G, hgen, hholds, c, hc, hcsub⟩ := hs.calls o ho
      refine ⟨G, hgen, ?_, c, hchunks c hc, hcsub⟩
      show Holds process.memory.bytes o.originCall G.buffer
      rw [h.bytes]
      apply (hholds.store ((hfresh c hc).mono_left hcsub)).store
      apply Disjoint.symm
      apply hnewarena.mono
      · rw [length_bytes]
        exact region_mono (trampoline_size address replaceCall)
      · exact hcsub.trans (mem_arenaRegion hsound (hchunks c hc))

theorem SessionSound.calls_store (hs : SessionSound pageSize s) {bs : List (BitVec 8)}
    (h : Disjoint (arenaRegion s.process.pageChunks) (region address bs.length)) :
    ∀ o ∈ s.originCalls,
      o.Kept (store s.process.memory.bytes address bs) s.process.pageChunks := by
  intro o ho
  obtain ⟨F, hgen, hholds, c, hc, hsub⟩ := hs.calls o ho
  exact ⟨F, hgen, hholds.store (h.mono_left (hsub.trans (mem_arenaRegion hs.arena hc))), c, hc, hsub⟩

theorem SessionSound.destroy (hs : SessionSound pageSize s) {e : HookEntry}
    (hfind : s.process.findHookEntry address = some e)
    (hbytes : process.memory.bytes = store s.process.memory.bytes address e.chunkBuffer)
    (hpages : process.pageChunks = s.process.pageChunks)
    (hentries : process.hookEntryList =
      s.process.hookEntryList.eraseP fun e => e.functionAddress = address) :
    SessionSound pageSize { s with process } := by
  have hmem : e ∈ s.process.hookEntryList := List.mem_of_find?_eq_some hfind
  have haddress : e.functionAddress = address := by simpa using List.find?_some hfind
  have hsaved : Disjoint (arenaRegion s.process.pageChunks)
      (region address e.chunkBuffer.length) := by
    rw [← haddress]
    exact (hs.offArena e hmem).symm.mono_right
      (HookEntry.saved_subset (hs.layered.saved e hmem))
  refine ⟨?_, ?_, ?_, ?_, ?_⟩
  · show ArenaSound pageSize process.pageChunks
    rw [hpages]
    exact hs.arena
  · show process.hookEntryList.Pairwise Apart
    rw [hentries]
    exact hs.apart.sublist List.eraseP_sublist
  · show ∀ e ∈ process.hookEntryList, Disjoint e.region (arenaRegion process.pageChunks)
    rw [hentries, hpages]
    exact fun e he => hs.offArena e (List.mem_of_mem_eraseP he)
  · show Layered s.unhooked (arenaRegion process.pageChunks) process.hookEntryList
      process.memory.bytes
    rw [hentries, hpages, hbytes]
    exact hs.layered.erase hs.apart hfind
  · show ∀ o ∈ s.originCalls, o.Kept process.memory.bytes process.pageChunks
    rw [hpages, hbytes]
    exact hs.calls_store hsaved

theorem SessionSound.step (hs : SessionSound pageSize s) (hpage : 100 ≤ pageSize) {a : Action}
    (hguard : Allowed pageSize s a) (h : sessionStep pageSize s a = some s') :
    SessionSound pageSize s' := by
  cases a with
  | hook mmap address replaceCall =>
    rw [sessionStep] at h
    split at h
    · cases h
    · rename_i hcall
      obtain rfl := Option.some.inj h
      rcases dobbyHook_inv hcall with ⟨rfl, -, -⟩ | ⟨origin, F, -, ho, -⟩
      · exact hs
      · cases ho
    · rename_i hcall
      obtain rfl := Option.some.inj h
      rcases dobbyHook_inv hcall with ⟨-, -, ho⟩ | ⟨origin, F, -, ho, hooked⟩
      · cases ho
      · obtain rfl := Option.some.inj ho
        exact hs.hook hpage hguard hooked
  | destroy address =>
    rw [sessionStep] at h
    split at h
    · cases h
    · rename_i hcall
      obtain rfl := Option.some.inj h
      rcases dobbyDestroy_inv hcall with ⟨rfl, -⟩ | ⟨e, hfind, hbytes, hpages, hentries, -⟩
      · exact hs
      · exact hs.destroy hfind hbytes hpages hentries
  | write address bytes =>
    obtain rfl := Option.some.inj h
    obtain ⟨harena, hentries⟩ := hguard
    exact ⟨hs.arena, hs.apart, hs.offArena, hs.layered.write hentries, hs.calls_store harena⟩

/-! ### What holds in every session -/

variable {memory : Memory} {as : List Action}

theorem session_sound (hpage : 100 ≤ pageSize)
    (h : (sessionMachine pageSize memory).Run (Allowed pageSize)
      (sessionMachine pageSize memory).init as s) : SessionSound pageSize s := by
  have hinit : SessionSound pageSize (sessionMachine pageSize memory).init :=
    ⟨start_arena _ _, .nil, fun _ he => absurd he List.not_mem_nil, fun _ _ => rfl,
      fun _ ho => absurd ho List.not_mem_nil⟩
  exact h.invariant (I := fun _ => SessionSound pageSize) hinit
    fun _ _ _ _ hs hguard hstep => hs.step hpage hguard hstep

/-- A session with one hook. -/
theorem one_hook (f : Addr → Bool) : ∃ (s : Session) (e : HookEntry) (origin : Addr),
    (sessionMachine (2 ^ 12) (prologueMemory f)).Run (Allowed (2 ^ 12))
      (sessionMachine (2 ^ 12) (prologueMemory f)).init [.hook (some 0x40000) 0x10000 0x20000] s ∧
    s.process.hookEntryList = [e] ∧ e.functionAddress = 0x10000 ∧ e.trampolineTarget = 0x20000 ∧
    s.originCalls = [⟨0x10000, prologue, origin⟩] ∧
    (∀ p ∈ s.process.pageChunks, p.region = region 0x40000 (2 ^ 12)) := by
  have hfresh : FreshPage (2 ^ 12) [] 0x40000 := ⟨by decide, by decide, by simp⟩
  have hs : Hookable (2 ^ 12) (some 0x40000) (start (prologueMemory f)) 0x10000 :=
    start_hookable hfresh (disjoint_region (by decide) (by decide)).symm
  obtain ⟨F, hgen⟩ := prologue_relocated
  rw [← prologue_covered f] at hgen
  obtain ⟨process, origin, hcall⟩ := dobbyHook_returns (k := 12) (by decide) (by decide) (by decide)
    (by rintro e ⟨⟩) (start_arena _ _) hs hgen (by decide)
  obtain ⟨-, hr, -⟩ | ⟨origin', F', -, ho, hooked⟩ := dobbyHook_inv hcall
  · cases hr
  obtain rfl := Option.some.inj ho
  refine ⟨⟨process, (prologueMemory f).bytes, [⟨0x10000, prologue, origin⟩]⟩, _, origin,
    Clib.Machine.Run.nil.step ⟨hs, ?_, ?_⟩ ?_, hooked.entries, rfl, rfl, rfl, ?_⟩
  · exact fun _ he => absurd he List.not_mem_nil
  · exact fun _ _ _ he => absurd he List.not_mem_nil
  · simp only [sessionMachine, sessionStep, hcall, prologue_covered]
  · intro p hp
    obtain ⟨c, halloc, -⟩ := hooked.alloc
    have hsize : F'.getSize + 4 ≤ 2 ^ 12 := Nat.le_trans hooked.alloc_size (by decide)
    rcases allocateChunk_pages_new (start_arena _ (prologueMemory f)) hsize halloc p hp with
      ⟨q, hq, -⟩ | ⟨a, ha, hregion⟩
    · cases hq
    · cases ha
      exact hregion

/-- **A hooked function leads to its newest replacement**, whatever else was hooked or destroyed. -/
theorem hooks_lead {other : Word → Core → Option (Core × Flow)} (hpage : 100 ≤ pageSize)
    (h : (sessionMachine pageSize memory).Run (Allowed pageSize)
      (sessionMachine pageSize memory).init as s) {e : HookEntry}
    (he : s.process.findHookEntry address = some e) {c : Core}
    (hc : c.mem = s.process.memory.bytes) :
    Reaches other ⟨c, address⟩ ⟨c.setReg 17 (landing address e.trampolineTarget),
      landing address e.trampolineTarget⟩ := by
  have hs := session_sound hpage h
  have hholds := hs.layered.newest hs.apart he
  have haddress : e.functionAddress = address := by simpa using List.find?_some he
  unfold HookEntry.trampoline at hholds
  rw [haddress, ← hc] at hholds
  exact run_trampoline hholds

theorem findHookEntry_single {s : HookedProcess} {e : HookEntry} (h : s.hookEntryList = [e]) :
    s.findHookEntry e.functionAddress = some e := by
  unfold findHookEntry
  rw [h]
  exact List.find?_cons_of_pos
    (p := fun f : HookEntry => decide (f.functionAddress = e.functionAddress)) (decide_eq_true rfl)

theorem hooks_lead_once : ∃ s : Session, s.process.hookEntryList.length = 1 ∧
    ∀ c : Core, c.mem = s.process.memory.bytes → Reaches (fun _ _ => none) ⟨c, 0x10000⟩
      ⟨c.setReg 17 (landing 0x10000 0x20000), landing 0x10000 0x20000⟩ := by
  obtain ⟨s, e, -, hrun, hlist, haddress, htarget, -⟩ := one_hook fun _ => false
  have hfind := haddress ▸ findHookEntry_single hlist
  refine ⟨s, by rw [hlist]; rfl, fun c hc => ?_⟩
  rw [← htarget]
  exact hooks_lead (by decide) hrun hfind hc

/-- **No `origin_call` is ever lost**: its code stays what it was, even when its hook is destroyed. -/
theorem origin_calls_kept (hpage : 100 ≤ pageSize)
    (h : (sessionMachine pageSize memory).Run (Allowed pageSize)
      (sessionMachine pageSize memory).init as s) :
    ∀ o ∈ s.originCalls, ∃ F, genRelocateCodeAndBranch o.functionAddress o.covered = some F ∧
      Holds s.process.memory.bytes o.originCall F.buffer := by
  intro o ho
  obtain ⟨F, hgen, hholds, -⟩ := (session_sound hpage h).calls o ho
  exact ⟨F, hgen, hholds⟩

theorem origin_calls_kept_once : ∃ (s : Session) (origin : Addr) (F : CodeBuffer),
    s.originCalls = [⟨0x10000, prologue, origin⟩] ∧
    genRelocateCodeAndBranch 0x10000 prologue = some F ∧
    Holds s.process.memory.bytes origin F.buffer := by
  obtain ⟨s, -, origin, hrun, -, -, -, hcalls, -⟩ := one_hook fun _ => false
  obtain ⟨F, hgen, hholds⟩ := origin_calls_kept (by decide) hrun ⟨0x10000, prologue, origin⟩
    (by rw [hcalls]; exact List.mem_cons_self)
  exact ⟨s, origin, F, hcalls, hgen, hholds⟩

/-- **Hooks are not seen** off the arena and the functions that are hooked now: memory is that of the
process without hooks. -/
theorem hooks_unseen (hpage : 100 ≤ pageSize)
    (h : (sessionMachine pageSize memory).Run (Allowed pageSize)
      (sessionMachine pageSize memory).init as s) {x : Addr}
    (hx : x ∉ arenaRegion s.process.pageChunks)
    (hes : ∀ e ∈ s.process.hookEntryList, x ∉ e.region) :
    s.process.memory.bytes x = s.unhooked x :=
  (session_sound hpage h).layered.unseen hx hes

theorem hooks_unseen_once : ∃ s : Session, s.process.hookEntryList.length = 1 ∧
    s.process.memory.bytes 0x10010 = s.unhooked 0x10010 := by
  obtain ⟨s, e, -, hrun, hlist, haddress, -, -, hpages⟩ := one_hook fun _ => false
  refine ⟨s, by rw [hlist]; rfl, hooks_unseen (by decide) hrun ?_ ?_⟩
  · rintro ⟨p, hp, hx⟩
    rw [hpages p hp, mem_region] at hx
    exact absurd hx (by decide)
  · intro f hf
    rw [hlist, List.mem_singleton] at hf
    subst hf
    unfold HookEntry.region
    rw [haddress, mem_region]
    decide

/-! ### What is writable -/

/-- Nothing has become writable, and the pages of code are not. -/
def CodeProtected (pageSize : Nat) (memory : Memory) (s : Session) : Prop :=
  ∀ x, s.process.memory.writable x = true → memory.writable x = true ∧
    (∀ e ∈ s.process.hookEntryList, x ∉ Memory.patchedPage pageSize e.functionAddress) ∧
    ∀ o ∈ s.originCalls, x ∉ Memory.patchedPage pageSize o.originCall

theorem CodeProtected.step {a : Action} (hs : CodeProtected pageSize memory s)
    (h : sessionStep pageSize s a = some s') : CodeProtected pageSize memory s' := by
  cases a with
  | hook mmap address replaceCall =>
    rw [sessionStep] at h
    split at h
    · cases h
    · rename_i hcall
      obtain rfl := Option.some.inj h
      rcases dobbyHook_inv hcall with ⟨rfl, -, -⟩ | ⟨origin, F, -, ho, -⟩
      · exact hs
      · cases ho
    · rename_i hcall
      obtain rfl := Option.some.inj h
      rcases dobbyHook_inv hcall with ⟨-, -, ho⟩ | ⟨origin, F, -, ho, hooked⟩
      · cases ho
      · obtain rfl := Option.some.inj ho
        intro x hx
        obtain ⟨hx, haddress, horigin⟩ := hooked.writable x hx
        obtain ⟨hx, hentries, hcalls⟩ := hs x hx
        refine ⟨hx, ?_, List.forall_mem_cons.2 ⟨horigin, hcalls⟩⟩
        rw [hooked.entries]
        exact List.forall_mem_cons.2 ⟨haddress, hentries⟩
  | destroy address =>
    rw [sessionStep] at h
    split at h
    · cases h
    · rename_i hcall
      obtain rfl := Option.some.inj h
      rcases dobbyDestroy_inv hcall with ⟨rfl, -⟩ | ⟨e, -, -, -, hentries, hwritable⟩
      · exact hs
      · intro x hx
        obtain ⟨hx, hold, hcalls⟩ := hs x (hwritable x hx)
        refine ⟨hx, ?_, hcalls⟩
        rw [hentries]
        exact fun e he => hold e (List.mem_of_mem_eraseP he)
  | write address bytes =>
    obtain rfl := Option.some.inj h
    exact hs

/-- **Hooking leaves nothing writable**: not the page of a hooked function nor that of an
`origin_call`, nor what was not writable at the start. -/
theorem code_protected {guard : Session → Action → Prop}
    (h : (sessionMachine pageSize memory).Run guard (sessionMachine pageSize memory).init as s) :
    CodeProtected pageSize memory s := by
  have hinit : CodeProtected pageSize memory (sessionMachine pageSize memory).init :=
    fun _ hx => ⟨hx, fun _ he => absurd he List.not_mem_nil, fun _ ho => absurd ho List.not_mem_nil⟩
  exact h.invariant (I := fun _ => CodeProtected pageSize memory) hinit
    fun _ _ _ _ hs _ hstep => hs.step hstep

theorem code_protected_once : ∃ s : Session, s.process.hookEntryList.length = 1 ∧
    s.process.memory.writable 0x10000 = false := by
  obtain ⟨s, e, -, hrun, hlist, haddress, -⟩ := one_hook fun _ => true
  refine ⟨s, by rw [hlist]; rfl, Bool.eq_false_iff.2 fun hw => ?_⟩
  obtain ⟨-, hentries, -⟩ := code_protected hrun 0x10000 hw
  apply hentries e (by rw [hlist]; exact List.mem_cons_self)
  unfold Memory.patchedPage
  rw [haddress, mem_region]
  decide

end sound

end Il2CppDumper.Dobby
