import Il2CppDumper.Clib.Loop
import Il2CppDumper.Dobby.Limits
import Il2CppDumper.Dobby.Patch
import Il2CppDumper.Dobby.Trampoline

/-!
# One hook

What `DobbyHook` does where it returns is `Hooked`, and where it does not return is
`dobbyHook_crash_iff`. A call of a hooked function leads to its replacement, and a call of
`origin_call` does what the first instructions of the function did (`dobbyHook_works`).
-/

namespace Il2CppDumper.Dobby

open Arm64 Clib

/-! ### Sizes -/

section sizes
variable {src dst origin : Addr} {ws : List Word} {F : CodeBuffer}

theorem length_bytes (b : CodeBuffer) : b.bytes.length = b.getSize := length_flatMap_bytesOf b.buffer

theorem trampoline_length (src dst : Addr) :
    (generateNormalTrampolineBuffer src dst).buffer.length ≤ 4 := by
  rw [trampoline_buffer]
  split
  · exact Nat.le_of_ble_eq_true rfl
  · exact Nat.le_of_ble_eq_true rfl

theorem trampoline_size (src dst : Addr) : (generateNormalTrampolineBuffer src dst).getSize ≤ 16 := by
  have := trampoline_length src dst
  unfold CodeBuffer.getSize
  omega

theorem relocated_size (h : genRelocateCodeAndBranch origin ws = some F) (hlen : ws.length ≤ 4) :
    F.buffer.length ≤ 24 := by
  have := length_relocated h
  omega

end sizes

/-! ### What a hook leaves -/

variable {pageSize : Nat} {mmap : Option Addr} {s s' : HookedProcess}
  {address replaceCall origin : Addr} {F : CodeBuffer}

namespace HookedProcess

/-- The words that a hook covers. -/
def covered (s : HookedProcess) (address replaceCall : Addr) : List Word :=
  s.instructions address (generateNormalTrampolineBuffer address replaceCall).buffer.length

def newEntry (s : HookedProcess) (address replaceCall origin : Addr) (bytes : Mem) : HookEntry where
  id := s.hookEntryList.length
  functionAddress := address
  trampolineTarget := replaceCall
  relocatedOriginFunction := origin
  chunk := ⟨address, (generateNormalTrampolineBuffer address replaceCall).getSize⟩
  chunkBuffer := load bytes address (generateNormalTrampolineBuffer address replaceCall).getSize

/-- `DobbyHook` has put the relocated code `F` at `origin` and a trampoline at `address`. -/
structure Hooked (pageSize : Nat) (mmap : Option Addr) (s s' : HookedProcess)
    (address replaceCall origin : Addr) (F : CodeBuffer) : Prop where
  relocated : genRelocateCodeAndBranch address (s.covered address replaceCall) = some F
  alloc : ∃ c, s.pageChunks.allocateCodeChunk pageSize mmap (F.getSize + 4) =
    (s'.pageChunks, some c) ∧ c.address = origin
  bytes : s'.memory.bytes = store (store s.memory.bytes origin F.bytes) address
    (generateNormalTrampolineBuffer address replaceCall).bytes
  entries : s'.hookEntryList =
    s.newEntry address replaceCall origin (store s.memory.bytes origin F.bytes) ::
      s.hookEntryList
  writable : ∀ x, s'.memory.writable x = true → s.memory.writable x = true ∧
    x ∉ Memory.patchedPage pageSize address ∧ x ∉ Memory.patchedPage pageSize origin

theorem finalize_inv {c : MemoryChunk} (h : s.finalize pageSize mmap F = .ok (s', c)) :
    s.pageChunks.allocateCodeChunk pageSize mmap (F.getSize + 4) = (s'.pageChunks, some c) ∧
      s'.memory = s.memory.patched pageSize c.address F.bytes ∧
      s'.hookEntryList = s.hookEntryList := by
  unfold finalize at h
  split at h
  · cases h
  · rename_i arena chunk halloc
    obtain ⟨m, hm, h⟩ := bind_eq_ok.1 h
    obtain ⟨rfl, rfl⟩ := Prod.mk.inj (Except.ok.inj h)
    exact ⟨halloc, (Memory.codePatch_inv hm).2, rfl⟩

theorem dispatchRouting_inv {tramp : CodeBuffer} {entry : HookEntry}
    (h : s.dispatchRouting pageSize mmap address replaceCall = .ok (s', tramp, entry)) :
    ∃ F c, genRelocateCodeAndBranch address (s.covered address replaceCall) = some F ∧
      s.pageChunks.allocateCodeChunk pageSize mmap (F.getSize + 4) = (s'.pageChunks, some c) ∧
      s'.memory = s.memory.patched pageSize c.address F.bytes ∧
      s'.hookEntryList = s.hookEntryList ∧
      tramp = generateNormalTrampolineBuffer address replaceCall ∧
      entry = s.newEntry address replaceCall c.address s'.memory.bytes := by
  unfold dispatchRouting at h
  dsimp only at h
  split at h
  · cases h
  · rename_i F hgen
    obtain ⟨⟨s₁, c⟩, hfin, h⟩ := bind_eq_ok.1 h
    obtain ⟨rfl, hresult⟩ := Prod.mk.inj (Except.ok.inj h)
    obtain ⟨rfl, rfl⟩ := Prod.mk.inj hresult
    obtain ⟨halloc, hmem, hlist⟩ := finalize_inv hfin
    refine ⟨F, c, hgen, halloc, hmem, hlist, rfl, ?_⟩
    unfold newEntry
    rw [hlist]

theorem dobbyHook_inv {r : Int} {o : Option Addr}
    (h : s.dobbyHook pageSize mmap address replaceCall = .ok (s', r, o)) :
    (s' = s ∧ r = -1 ∧ o = none) ∨
      ∃ origin F, r = 0 ∧ o = some origin ∧
        Hooked pageSize mmap s s' address replaceCall origin F := by
  unfold dobbyHook at h
  split at h
  · obtain ⟨rfl, hresult⟩ := Prod.mk.inj (Except.ok.inj h)
    obtain ⟨rfl, rfl⟩ := Prod.mk.inj hresult
    exact Or.inl ⟨rfl, rfl, rfl⟩
  split at h
  · obtain ⟨rfl, hresult⟩ := Prod.mk.inj (Except.ok.inj h)
    obtain ⟨rfl, rfl⟩ := Prod.mk.inj hresult
    exact Or.inl ⟨rfl, rfl, rfl⟩
  obtain ⟨⟨s₁, tramp, entry⟩, hroute, h⟩ := bind_eq_ok.1 h
  obtain ⟨m, hm, h⟩ := bind_eq_ok.1 h
  obtain ⟨rfl, hresult⟩ := Prod.mk.inj (Except.ok.inj h)
  obtain ⟨rfl, rfl⟩ := Prod.mk.inj hresult
  obtain ⟨F, c, hgen, halloc, hmem, hlist, rfl, rfl⟩ := dispatchRouting_inv hroute
  obtain ⟨-, hpatch⟩ := Memory.codePatch_inv hm
  refine Or.inr ⟨c.address, F, rfl, rfl, hgen, ⟨c, halloc, rfl⟩, ?_, ?_, ?_⟩
  · show m.bytes = _
    rw [hpatch]
    show store s₁.memory.bytes address _ = _
    rw [hmem]
    rfl
  · show _ :: s₁.hookEntryList = _
    rw [hlist, hmem]
    rfl
  · intro x hx
    have hx : m.writable x = true := hx
    rw [hpatch] at hx
    obtain ⟨hx, haddress⟩ := Memory.patched_writable hx
    have hx : s₁.memory.writable x = true := hx
    rw [hmem] at hx
    obtain ⟨hx, horigin⟩ := Memory.patched_writable hx
    exact ⟨hx, haddress, horigin⟩

/-- `DobbyHook` may be called: what `mmap` returns is new, and the function is neither there nor on a
page of the arena. -/
structure Hookable (pageSize : Nat) (mmap : Option Addr) (s : HookedProcess) (address : Addr) :
    Prop where
  fresh : ∀ a, mmap = some a → FreshPage pageSize s.pageChunks a
  apart : ∀ p ∈ s.pageChunks, Disjoint p.region (region address 16)
  apartNew : ∀ a, mmap = some a → Disjoint (region a pageSize) (region address 16)

theorem covered_length (s : HookedProcess) (address replaceCall : Addr) :
    (s.covered address replaceCall).length =
      (generateNormalTrampolineBuffer address replaceCall).buffer.length := by
  unfold covered instructions
  rw [List.length_map, List.length_range]

theorem Hooked.small (h : Hooked pageSize mmap s s' address replaceCall origin F) :
    F.buffer.length ≤ 24 := by
  apply relocated_size h.relocated
  rw [covered_length]
  exact trampoline_length address replaceCall

theorem Hooked.alloc_size (h : Hooked pageSize mmap s s' address replaceCall origin F) :
    F.getSize + 4 ≤ 100 := by
  have := h.small
  unfold CodeBuffer.getSize
  omega

/-- The relocated code lies in the arena, beside all code it has. -/
theorem Hooked.arena (h : Hooked pageSize mmap s s' address replaceCall origin F)
    (harena : ArenaSound pageSize s.pageChunks) (hs : Hookable pageSize mmap s address)
    (hpage : 100 ≤ pageSize) :
    ArenaSound pageSize s'.pageChunks ∧
      (∀ d ∈ chunksOf s.pageChunks, Disjoint d.region (region origin F.bytes.length)) ∧
      ∃ d ∈ chunksOf s'.pageChunks, region origin F.bytes.length ⊆ d.region := by
  obtain ⟨c, halloc, rfl⟩ := h.alloc
  have hsize : F.getSize + 4 ≤ pageSize := Nat.le_trans h.alloc_size hpage
  obtain ⟨hsound, hperm, hlen, hapart, -⟩ := allocateChunk_spec harena hsize hs.fresh halloc
  have hsub : region c.address F.bytes.length ⊆ c.region := by
    unfold MemoryChunk.region
    rw [hlen, length_bytes]
    exact region_mono (Nat.le_add_right _ 4)
  exact ⟨hsound, fun d hd => (hapart d hd).mono_right hsub, c,
    hperm.mem_iff.2 List.mem_cons_self, hsub⟩

theorem Hooked.kept (h : Hooked pageSize mmap s s' address replaceCall origin F)
    (harena : ArenaSound pageSize s.pageChunks) (hs : Hookable pageSize mmap s address)
    (hpage : 100 ≤ pageSize) :
    (∀ d ∈ chunksOf s.pageChunks, d ∈ chunksOf s'.pageChunks) ∧
      ∀ p ∈ s.pageChunks, ∃ p' ∈ s'.pageChunks, p'.region = p.region := by
  obtain ⟨c, halloc, rfl⟩ := h.alloc
  have hsize : F.getSize + 4 ≤ pageSize := Nat.le_trans h.alloc_size hpage
  obtain ⟨-, hperm, -⟩ := allocateChunk_spec harena hsize hs.fresh halloc
  refine ⟨fun d hd => hperm.mem_iff.2 (List.mem_cons_of_mem c hd), fun p hp => ?_⟩
  obtain ⟨p', hp', -, hregion⟩ := allocateChunk_pages harena hsize halloc p hp
  exact ⟨p', hp', hregion⟩

theorem Hooked.pages_apart (h : Hooked pageSize mmap s s' address replaceCall origin F)
    (harena : ArenaSound pageSize s.pageChunks) (hpage : 100 ≤ pageSize) {S : Set Addr}
    (hold : ∀ p ∈ s.pageChunks, Disjoint p.region S)
    (hnew : ∀ a, mmap = some a → Disjoint (region a pageSize) S) :
    ∀ p ∈ s'.pageChunks, Disjoint p.region S := by
  obtain ⟨c, halloc, rfl⟩ := h.alloc
  have hsize : F.getSize + 4 ≤ pageSize := Nat.le_trans h.alloc_size hpage
  intro p hp
  rcases allocateChunk_pages_new harena hsize halloc p hp with ⟨q, hq, hregion⟩ | ⟨a, ha, hregion⟩
  · rw [← hregion]
    exact hold q hq
  · rw [hregion]
    exact hnew a ha

theorem Hooked.origin_apart (h : Hooked pageSize mmap s s' address replaceCall origin F)
    (harena : ArenaSound pageSize s.pageChunks) (hs : Hookable pageSize mmap s address)
    (hpage : 100 ≤ pageSize) :
    Disjoint (region origin (4 * F.buffer.length)) (region address 16) := by
  obtain ⟨hsound, -, d, hd, hsub⟩ := h.arena harena hs hpage
  obtain ⟨p, hp, hdp⟩ := List.mem_flatMap.1 hd
  rw [show 4 * F.buffer.length = F.bytes.length from (length_bytes F).symm]
  exact (h.pages_apart harena hpage hs.apart hs.apartNew p hp).mono_left
    (hsub.trans ((hsound.pages p hp).chunk_subset hdp))

/-- Both codes are where they belong, and nothing else has changed. -/
theorem Hooked.code (h : Hooked pageSize mmap s s' address replaceCall origin F)
    (harena : ArenaSound pageSize s.pageChunks) (hs : Hookable pageSize mmap s address)
    (hpage : 100 ≤ pageSize) :
    Holds s'.memory.bytes address (generateNormalTrampolineBuffer address replaceCall).buffer ∧
      Holds s'.memory.bytes origin F.buffer ∧
      ∀ x ∉ codeRegion address (s.covered address replaceCall) origin F.buffer,
        s'.memory.bytes x = s.memory.bytes x := by
  have hsmall := h.small
  have htramp := trampoline_length address replaceCall
  have hdisjoint : Disjoint (region origin (4 * F.buffer.length))
      (region address (generateNormalTrampolineBuffer address replaceCall).bytes.length) := by
    rw [length_bytes]
    exact (h.origin_apart harena hs hpage).mono_right
      (region_mono (trampoline_size address replaceCall))
  rw [h.bytes]
  refine ⟨?_, ?_, ?_⟩
  · exact holds_store _ address (by omega)
  · exact (holds_store _ origin (by omega)).store hdisjoint
  · intro x hx
    have hpatch :
        x ∉ region address (generateNormalTrampolineBuffer address replaceCall).bytes.length := by
      rw [length_bytes]
      intro hin
      apply hx
      unfold codeRegion
      rw [covered_length]
      exact Or.inl hin
    have hcode : x ∉ region origin F.bytes.length := by
      rw [length_bytes]
      exact fun hin => hx (Or.inr hin)
    rw [store_outside hpatch, store_outside hcode]

theorem covered_holds (s : HookedProcess) (address replaceCall : Addr) :
    Holds s.memory.bytes address (s.covered address replaceCall) := by
  intro i w hw
  unfold covered instructions at hw
  rw [List.getElem?_map] at hw
  obtain ⟨j, hj, hw⟩ := Option.map_eq_some_iff.1 hw
  obtain ⟨hlt, hj⟩ := List.getElem?_eq_some_iff.1 hj
  rw [List.getElem_range] at hj
  rwa [hj]

def start (m : Memory) : HookedProcess := ⟨m, [], []⟩

theorem start_arena (pageSize : Nat) (m : Memory) : ArenaSound pageSize (start m).pageChunks :=
  ⟨fun _ hp => absurd hp List.not_mem_nil, .nil⟩

theorem start_hookable {page : Addr} {m : Memory} (hpage : FreshPage pageSize [] page)
    (h : Disjoint (region page pageSize) (region address 16)) :
    Hookable pageSize (some page) (start m) address := by
  refine ⟨?_, fun _ hp => absurd hp List.not_mem_nil, ?_⟩
  · rintro _ ⟨⟩
    exact hpage
  · rintro _ ⟨⟩
    exact h

/-- A memory with `prologue` at `0x10000`. -/
def prologueMemory (writable : Addr → Bool) : Memory :=
  ⟨store (fun _ => 0) 0x10000 (prologue.flatMap bytesOf), writable⟩

theorem prologue_covered (writable : Addr → Bool) :
    (start (prologueMemory writable)).covered 0x10000 0x20000 = prologue := by
  show (start (prologueMemory fun _ => false)).covered 0x10000 0x20000 = prologue
  decide

theorem prologue_relocated : ∃ F, genRelocateCodeAndBranch 0x10000 prologue = some F := by
  have hlen : (genRelocateCodeAndBranch 0x10000 prologue).map
      (fun F => F.buffer.length) = some 14 := by decide
  obtain ⟨F, hgen, -⟩ := Option.map_eq_some_iff.1 hlen
  exact ⟨F, hgen⟩

end HookedProcess

/-! ### Where a hook returns -/

section crash
variable {k : Nat}

open HookedProcess

/-- A chunk lies on one page, so that it can be patched. -/
theorem PageSound.patchable {p : PageChunk} {c : MemoryChunk} (hp : PageSound (2 ^ k) p)
    (hk : k < 64) (hc : c ∈ p.chunks) (m : Memory) {n : Nat} (hn : n ≤ c.length) :
    m.Patchable (2 ^ k) c.address n := by
  have hbounds := hp.tiles.bounds c hc
  have hlow := hp.low
  have hfits := hp.fits
  intro i hi
  left
  unfold Memory.patchedPage
  rw [mem_region, BitVec.toNat_sub, BitVec.toNat_add, BitVec.toNat_ofNat,
    Memory.toNat_alignFloor hk]
  have hmod : c.address.toNat % 2 ^ k = c.address.toNat - p.page.address.toNat := by
    obtain ⟨q, hq⟩ := Nat.dvd_of_mod_eq_zero hp.aligned
    have hsplit : c.address.toNat = 2 ^ k * q + (c.address.toNat - p.page.address.toNat) := by omega
    rw [hsplit, Nat.mul_add_mod, Nat.mod_eq_of_lt (by omega)]
    omega
  rw [hmod]
  omega

theorem dobbyHook_eq (haddress : address ≠ 0)
    (hnew : ∀ e, s.findHookEntry address = some e → e.trampolineTarget ≠ replaceCall) :
    s.dobbyHook pageSize mmap address replaceCall = (do
      let (s, trampolineBuffer, entry) ← s.dispatchRouting pageSize mmap address replaceCall
      let memory ← s.memory.codePatch pageSize address trampolineBuffer.bytes
      return (⟨memory, s.pageChunks, entry :: s.hookEntryList⟩, 0,
        some entry.relocatedOriginFunction)) := by
  unfold dobbyHook
  rw [if_neg haddress, if_neg]
  intro hany
  obtain ⟨e, he, htarget⟩ := (Option.any_eq_true _ _).1 hany
  exact hnew e he (of_decide_eq_true htarget)

/-- What comes before the patch, where relocation does not abort. -/
theorem dispatchRouting_ok {page : Addr} (hk : k < 64) (hpage : 100 ≤ 2 ^ k)
    (harena : ArenaSound (2 ^ k) s.pageChunks) (hs : Hookable (2 ^ k) (some page) s address)
    (hgen : genRelocateCodeAndBranch address (s.covered address replaceCall) = some F) :
    ∃ (s' : HookedProcess) (c : MemoryChunk),
      s.dispatchRouting (2 ^ k) (some page) address replaceCall = .ok (s',
        generateNormalTrampolineBuffer address replaceCall,
        s.newEntry address replaceCall c.address s'.memory.bytes) ∧
      s'.memory = s.memory.patched (2 ^ k) c.address F.bytes := by
  have hlen : (s.covered address replaceCall).length ≤ 4 := by
    rw [covered_length]
    exact trampoline_length address replaceCall
  have hsmall := relocated_size hgen hlen
  have hsize : F.getSize + 4 ≤ 2 ^ k := by
    unfold CodeBuffer.getSize
    omega
  generalize halloc : s.pageChunks.allocateCodeChunk (2 ^ k) (some page) (F.getSize + 4) = r
  obtain ⟨arena, chunk⟩ := r
  rcases allocateChunk_cases harena.pages hsize halloc with ⟨hnone, -, -⟩ | ⟨xs, p, ys, -, -, -, rfl, -⟩
  · cases hnone
  obtain ⟨hsound, hperm, hclen, -, -⟩ := allocateChunk_spec harena hsize hs.fresh halloc
  generalize (MemoryArena.take p (F.getSize + 4)).1 = c at *
  obtain ⟨q, hq, hcq⟩ := List.mem_flatMap.1 (hperm.mem_iff.2 List.mem_cons_self)
  have hpatch := Memory.codePatch_ok ((hsound.pages q hq).patchable hk hcq s.memory
    (n := F.bytes.length) (by rw [length_bytes, hclen]; exact Nat.le_add_right _ 4))
  refine ⟨{ s with memory := s.memory.patched (2 ^ k) c.address F.bytes, pageChunks := arena }, c,
    ?_, rfl⟩
  unfold dispatchRouting finalize
  dsimp only
  rw [show s.instructions address _ = s.covered address replaceCall from rfl, hgen]
  dsimp only
  rw [halloc]
  dsimp only
  rw [hpatch]
  rfl

theorem dispatchRouting_abort
    (hgen : genRelocateCodeAndBranch address (s.covered address replaceCall) = none) :
    s.dispatchRouting pageSize mmap address replaceCall = .error .abort := by
  unfold dispatchRouting
  dsimp only
  rw [show s.instructions address _ = s.covered address replaceCall from rfl, hgen]

/-- The patch of `DobbyHook`, behind a relocation that did not abort. -/
theorem dobbyHook_patch {page : Addr} (hk : k < 64) (hpage : 100 ≤ 2 ^ k) (haddress : address ≠ 0)
    (hnew : ∀ e, s.findHookEntry address = some e → e.trampolineTarget ≠ replaceCall)
    (harena : ArenaSound (2 ^ k) s.pageChunks) (hs : Hookable (2 ^ k) (some page) s address)
    (hgen : genRelocateCodeAndBranch address (s.covered address replaceCall) = some F) :
    ∃ (m : Memory) (result : Memory → HookedProcess × Int × Option Addr),
      s.dobbyHook (2 ^ k) (some page) address replaceCall = (m.codePatch (2 ^ k) address
        (generateNormalTrampolineBuffer address replaceCall).bytes).map result ∧
      (∀ m', (result m').2.1 = 0) ∧ (∀ m', (result m').2.2.isSome) ∧
      ∀ x, s.memory.writable x = false → m.writable x = false := by
  obtain ⟨s₁, c, hroute, hmem⟩ := dispatchRouting_ok hk hpage harena hs hgen
  rw [dobbyHook_eq haddress hnew, hroute]
  refine ⟨s₁.memory, fun m => (⟨m, s₁.pageChunks, _⟩, 0, some c.address), rfl, fun _ => rfl,
    fun _ => rfl, ?_⟩
  intro x hx
  rw [hmem]
  apply Bool.eq_false_iff.2
  intro hw
  have hbefore := (Memory.patched_writable hw).1
  rw [hx] at hbefore
  cases hbefore

theorem dobbyHook_returns {page : Addr} (hk : k < 64) (hpage : 100 ≤ 2 ^ k) (haddress : address ≠ 0)
    (hnew : ∀ e, s.findHookEntry address = some e → e.trampolineTarget ≠ replaceCall)
    (harena : ArenaSound (2 ^ k) s.pageChunks) (hs : Hookable (2 ^ k) (some page) s address)
    (hgen : genRelocateCodeAndBranch address (s.covered address replaceCall) = some F)
    (hfits : address.toNat % 2 ^ k + (generateNormalTrampolineBuffer address replaceCall).getSize ≤
      2 ^ k) :
    ∃ s' origin, s.dobbyHook (2 ^ k) (some page) address replaceCall = .ok (s', 0, some origin) := by
  obtain ⟨m, result, hcall, hzero, horigin, -⟩ :=
    dobbyHook_patch hk hpage haddress hnew harena hs hgen
  rw [← length_bytes] at hfits
  have hm := Memory.codePatch_ok (Memory.patchable_of_fits hk hfits (m := m))
  generalize m.patched (2 ^ k) address _ = m' at hm
  obtain ⟨origin, ho⟩ := Option.isSome_iff_exists.1 (horigin m')
  refine ⟨(result m').1, origin, ?_⟩
  rw [hcall, hm]
  exact congrArg Except.ok (Prod.ext rfl (Prod.ext (hzero m') ho))

/-- **Where a hook ends the process**: an unimplemented instruction aborts it, and a trampoline over
the end of a page is stored where nothing may be. Otherwise it returns. -/
theorem dobbyHook_crash_iff {page : Addr} (hk : k < 64) (hpage : 100 ≤ 2 ^ k) (haddress : address ≠ 0)
    (hnew : ∀ e, s.findHookEntry address = some e → e.trampolineTarget ≠ replaceCall)
    (harena : ArenaSound (2 ^ k) s.pageChunks) (hs : Hookable (2 ^ k) (some page) s address)
    (hnext : s.memory.writable (alignFloor address (BitVec.ofNat 64 (2 ^ k)) +
      BitVec.ofNat 64 (2 ^ k)) = false) :
    (s.dobbyHook (2 ^ k) (some page) address replaceCall = .error .abort ↔
      ∃ w ∈ s.covered address replaceCall, Unimplemented w) ∧
    (s.dobbyHook (2 ^ k) (some page) address replaceCall = .error .segv ↔
      (∀ w ∈ s.covered address replaceCall, ¬ Unimplemented w) ∧
        2 ^ k < address.toNat % 2 ^ k +
          (generateNormalTrampolineBuffer address replaceCall).getSize) ∧
    ((∃ s' origin, s.dobbyHook (2 ^ k) (some page) address replaceCall = .ok (s', 0, some origin)) ↔
      (∀ w ∈ s.covered address replaceCall, ¬ Unimplemented w) ∧
        address.toNat % 2 ^ k + (generateNormalTrampolineBuffer address replaceCall).getSize ≤
          2 ^ k) := by
  have hsize := trampoline_size address replaceCall
  have himpl := genRelocate_none_iff address (s.covered address replaceCall)
  rcases hgen : genRelocateCodeAndBranch address (s.covered address replaceCall) with _ | F
  · obtain ⟨w, hw, hun⟩ := himpl.1 hgen
    rw [dobbyHook_eq haddress hnew, dispatchRouting_abort hgen]
    refine ⟨iff_of_true rfl ⟨w, hw, hun⟩, iff_of_false ?_ fun h => h.1 w hw hun,
      iff_of_false ?_ fun h => h.1 w hw hun⟩
    · exact fun h => Crash.noConfusion (Except.error.inj h)
    · rintro ⟨s', origin, h⟩
      cases h
  · have hall : ∀ w ∈ s.covered address replaceCall, ¬ Unimplemented w := by
      intro w hw hun
      rw [himpl.2 ⟨w, hw, hun⟩] at hgen
      cases hgen
    have hsome : ¬ ∃ w ∈ s.covered address replaceCall, Unimplemented w :=
      fun ⟨w, hw, hun⟩ => hall w hw hun
    have hbytes := length_bytes (generateNormalTrampolineBuffer address replaceCall)
    by_cases hover : 2 ^ k < address.toNat % 2 ^ k +
        (generateNormalTrampolineBuffer address replaceCall).getSize
    · obtain ⟨m, result, hcall, -, -, hwritable⟩ :=
        dobbyHook_patch hk hpage haddress hnew harena hs hgen
      have hsegv : ¬ m.Patchable (2 ^ k) address
          (generateNormalTrampolineBuffer address replaceCall).bytes.length := by
        intro hp
        have := Memory.fits_of_patchable hk hp (by omega) (hwritable _ hnext)
        omega
      rw [hcall, Memory.codePatch_segv hsegv]
      refine ⟨iff_of_false ?_ hsome, iff_of_true rfl ⟨hall, hover⟩, iff_of_false ?_ fun h => ?_⟩
      · exact fun h => Crash.noConfusion (Except.error.inj h)
      · rintro ⟨s', origin, h⟩
        cases h
      · exact absurd h.2 (Nat.not_le_of_lt hover)
    · obtain ⟨s', origin, hreturns⟩ :=
        dobbyHook_returns hk hpage haddress hnew harena hs hgen (Nat.le_of_not_lt hover)
      rw [hreturns]
      refine ⟨iff_of_false ?_ hsome, iff_of_false ?_ fun h => hover h.2, iff_of_true ?_ ?_⟩
      · exact fun h => nomatch h
      · exact fun h => nomatch h
      · exact ⟨s', origin, rfl⟩
      · exact ⟨hall, Nat.le_of_not_lt hover⟩

/-- A trampoline of twelve bytes, eight bytes before the end of a page. -/
theorem dobbyHook_crash_over_page :
    (start ⟨fun _ => 0, fun _ => false⟩).dobbyHook (2 ^ 12) (some 0x40000) 0x10FF8 0x20000 =
      .error .segv := by
  have hfresh : FreshPage (2 ^ 12) [] 0x40000 := ⟨by decide, by decide, by simp⟩
  have hs : Hookable (2 ^ 12) (some 0x40000) (start ⟨fun _ => 0, fun _ => false⟩) 0x10FF8 :=
    start_hookable hfresh (disjoint_region (by decide) (by decide)).symm
  obtain ⟨-, hsegv, -⟩ := dobbyHook_crash_iff (k := 12) (by decide) (by decide) (by decide)
    (by rintro e ⟨⟩) (start_arena _ _) hs rfl
  have hcovered : (start ⟨fun _ => 0, fun _ => false⟩).covered 0x10FF8 0x20000 = [0, 0, 0] := by
    decide
  rw [hcovered] at hsegv
  have hzero : ¬ Unimplemented 0 := by decide
  exact hsegv.2 ⟨by simpa using hzero, by decide⟩

end crash

/-! ### Where a hook leads -/

section works
variable {other : Word → Core → Option (Core × Flow)}

open HookedProcess

/-- **A hooked function leads to its replacement**, and `origin_call` does what the words under the
trampoline did. -/
theorem dobbyHook_works {D : Nat → Set Reg} (harena : ArenaSound pageSize s.pageChunks)
    (hs : Hookable pageSize mmap s address) (hpage : 100 ≤ pageSize)
    (h : s.dobbyHook pageSize mmap address replaceCall = .ok (s', 0, some origin))
    (hgen : genRelocateCodeAndBranch address (s.covered address replaceCall) = some F)
    (hD : ∀ i, D i ⊆ {17})
    (hcarries : ∀ i w, (s.covered address replaceCall)[i]? = some w →
      Carries other (codeRegion address (s.covered address replaceCall) origin F.buffer)
        (codeRegion address (s.covered address replaceCall) origin F.buffer)
        (wordAddr address i) (D i) (D (i + 1)) w) :
    (∀ c : Core, c.mem = s'.memory.bytes → Reaches other ⟨c, address⟩
      ⟨c.setReg 17 (landing address replaceCall), landing address replaceCall⟩) ∧
    ∀ c : Core, c.mem = s.memory.bytes →
      LeavesAs other (codeRegion address (s.covered address replaceCall) origin F.buffer)
        (wordAddr address (s.covered address replaceCall).length)
        (fun j => wordAddr origin (place address (s.covered address replaceCall) j))
        ⟨{ c with mem := s'.memory.bytes }, origin⟩
        (leave other (s.covered address replaceCall).length ⟨c, address⟩) := by
  obtain ⟨-, hr, -⟩ | ⟨origin', F', -, ho, hooked⟩ := dobbyHook_inv h
  · cases hr
  obtain rfl := Option.some.inj ho
  obtain rfl := Option.some.inj (hgen.symm.trans hooked.relocated)
  have hsmall : F.buffer.length < 2 ^ 18 := Nat.lt_of_le_of_lt hooked.small (by decide)
  obtain ⟨htramp, hcode, hframe⟩ := hooked.code harena hs hpage
  constructor
  · intro c hc
    apply run_trampoline
    rwa [hc]
  · intro c hc
    have hagree : AgreeOff (D 0) (codeRegion address (s.covered address replaceCall) origin F.buffer)
        c { c with mem := s'.memory.bytes } := by
      refine ⟨fun _ _ => rfl, rfl, rfl, rfl, ?_⟩
      intro x hx
      rw [hc]
      exact (hframe x hx).symm
    have hblock : Holds c.mem address (s.covered address replaceCall) := by
      rw [hc]
      exact covered_holds s address replaceCall
    have hleaves := relocated_leaves_from (d := { c with mem := s'.memory.bytes }) hgen hsmall hD
      hcarries (Nat.zero_add _) hblock hcode hagree
    have hstart : wordAddr origin (place address (s.covered address replaceCall) 0) = origin :=
      wordAddr_zero origin
    simpa only [Nat.zero_add, wordAddr_zero, hstart] using hleaves

/-- A hook of a function that starts with `prologue`. -/
theorem dobbyHook_works_once : ∃ s' origin F,
    (start (prologueMemory fun _ => false)).dobbyHook (2 ^ 12) (some 0x40000) 0x10000 0x20000 =
      .ok (s', 0, some origin) ∧
    (∀ c : Core, c.mem = s'.memory.bytes → Reaches (fun _ c => some (c, .next)) ⟨c, 0x10000⟩
      ⟨c.setReg 17 (landing 0x10000 0x20000), landing 0x10000 0x20000⟩) ∧
    ∀ c : Core, c.mem = (prologueMemory fun _ => false).bytes →
      LeavesAs (fun _ c => some (c, .next)) (codeRegion 0x10000 prologue origin F)
        (wordAddr 0x10000 3) (fun j => wordAddr origin (place 0x10000 prologue j))
        ⟨{ c with mem := s'.memory.bytes }, origin⟩
        (leave (fun _ c => some (c, .next)) 3 ⟨c, 0x10000⟩) := by
  have hfresh : FreshPage (2 ^ 12) [] 0x40000 := ⟨by decide, by decide, by simp⟩
  have hs : Hookable (2 ^ 12) (some 0x40000) (start (prologueMemory fun _ => false)) 0x10000 :=
    start_hookable hfresh (disjoint_region (by decide) (by decide)).symm
  have hcovered := prologue_covered fun _ => false
  obtain ⟨F, hgen⟩ := prologue_relocated
  rw [← hcovered] at hgen
  obtain ⟨s', origin, hreturns⟩ := dobbyHook_returns (k := 12) (by decide) (by decide) (by decide)
    (by rintro e ⟨⟩) (start_arena _ _) hs hgen (by decide)
  obtain ⟨hlead, horigin⟩ := dobbyHook_works (D := fun _ => ∅) (start_arena _ _) hs (by decide)
    hreturns hgen (fun _ => Set.empty_subset _) (by rw [hcovered]; exact prologue_carries _ _ _)
  rw [hcovered] at horigin
  exact ⟨s', origin, F.buffer, hreturns, hlead, horigin⟩

end works

end Il2CppDumper.Dobby
