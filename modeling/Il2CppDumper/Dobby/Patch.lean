import Il2CppDumper.Clib.Machine
import Il2CppDumper.Model.Interceptor

/-!
# Patches and the arena

`CodePatch` makes one page writable, so that it patches across the end of a page only what was
writable before (`codePatch_ok`, `codePatch_succeeds_iff`). The arena hands out chunks that tile its
pages: no two chunks of a run of allocations overlap (`allocations_disjoint`).
-/

namespace Il2CppDumper.Dobby

open Arm64

/-! ### `CodePatch` -/

namespace Memory

/-- The page that is made writable. -/
def patchedPage (pageSize : Nat) (address : Addr) : Set Addr :=
  region (alignFloor address (BitVec.ofNat 64 pageSize)) pageSize

/-- Every byte of the patch is on the page or was writable before. -/
def Patchable (pageSize : Nat) (m : Memory) (address : Addr) (n : Nat) : Prop :=
  ∀ i < n, address + BitVec.ofNat 64 i ∈ patchedPage pageSize address ∨
    m.writable (address + BitVec.ofNat 64 i) = true

/-- The memory with the patch: its page is not writable any more. -/
def patched (pageSize : Nat) (m : Memory) (address : Addr) (buffer : List (BitVec 8)) : Memory where
  bytes := store m.bytes address buffer
  writable := fun x =>
    if (x - alignFloor address (BitVec.ofNat 64 pageSize)).toNat < pageSize then false
    else m.writable x

variable {pageSize : Nat} {m : Memory} {address : Addr} {buffer : List (BitVec 8)}

theorem patchable_iff : Patchable pageSize m address buffer.length ↔
    ((List.range buffer.length).all fun i =>
      (m.mprotect (alignFloor address (BitVec.ofNat 64 pageSize)) pageSize true).writable
        (address + BitVec.ofNat 64 i)) = true := by
  unfold Patchable patchedPage mprotect
  rw [List.all_eq_true]
  simp only [List.mem_range, mem_region]
  constructor
  · intro h i hi
    split
    · rfl
    · rename_i hout
      exact (h i hi).resolve_left hout
  · intro h i hi
    have hi := h i hi
    split at hi
    · rename_i hin
      exact Or.inl hin
    · exact Or.inr hi

theorem mprotect_memcpy (m : Memory) (page : Addr) (pageSize : Nat) (bytes : Mem) :
    mprotect ⟨bytes, (m.mprotect page pageSize true).writable⟩ page pageSize false =
      ⟨bytes, fun x => if (x - page).toNat < pageSize then false else m.writable x⟩ := by
  unfold mprotect
  congr 1
  funext x
  by_cases hx : (x - page).toNat < pageSize
  · rw [if_pos hx, if_pos hx]
  · rw [if_neg hx, if_neg hx]
    exact if_neg hx

theorem codePatch_ok (h : Patchable pageSize m address buffer.length) :
    codePatch pageSize m address buffer = .ok (patched pageSize m address buffer) := by
  unfold codePatch memcpy
  simp only [patchable_iff.1 h, if_true]
  exact congrArg Except.ok (mprotect_memcpy m _ pageSize _)

theorem codePatch_segv (h : ¬ Patchable pageSize m address buffer.length) :
    codePatch pageSize m address buffer = .error .segv := by
  unfold codePatch memcpy
  simp only [Bool.eq_false_iff.2 (mt patchable_iff.2 h), Bool.false_eq_true, if_false]
  rfl

theorem patched_writable {x : Addr} (h : (m.patched pageSize address buffer).writable x = true) :
    m.writable x = true ∧ x ∉ patchedPage pageSize address := by
  unfold patched at h
  dsimp only at h
  split at h
  · cases h
  · rename_i hout
    exact ⟨h, hout⟩

theorem codePatch_inv {m' : Memory} (h : codePatch pageSize m address buffer = .ok m') :
    Patchable pageSize m address buffer.length ∧ m' = patched pageSize m address buffer := by
  by_cases hp : Patchable pageSize m address buffer.length
  · rw [codePatch_ok hp] at h
    exact ⟨hp, (Except.ok.inj h).symm⟩
  · rw [codePatch_segv hp] at h
    cases h

theorem toNat_alignFloor {k : Nat} (hk : k < 64) (a : Addr) :
    (alignFloor a (BitVec.ofNat 64 (2 ^ k))).toNat = a.toNat - a.toNat % 2 ^ k := by
  have hmask : BitVec.ofNat 64 (2 ^ k) - 1#64 = BitVec.ofNat 64 (2 ^ k - 1) := by
    have hpow : 2 ^ k < 2 ^ 64 := Nat.pow_lt_pow_right (by decide) hk
    have hpos := Nat.two_pow_pos k
    bv_omega
  unfold alignFloor
  rw [hmask]
  exact toNat_and_high a (Nat.le_of_lt hk)

section power
variable {k : Nat}

theorem patch_offset (hk : k < 64) (a : Addr) (i : Nat) :
    (a + BitVec.ofNat 64 i - alignFloor a (BitVec.ofNat 64 (2 ^ k))).toNat =
      (a.toNat % 2 ^ k + i) % 2 ^ 64 := by
  have hpow : 2 ^ k < 2 ^ 64 := Nat.pow_lt_pow_right (by decide) hk
  have hmod := Nat.mod_le a.toNat (2 ^ k)
  have := a.isLt
  rw [BitVec.toNat_sub, BitVec.toNat_add, BitVec.toNat_ofNat, toNat_alignFloor hk]
  omega

theorem patchable_of_fits (hk : k < 64) {n : Nat} (h : address.toNat % 2 ^ k + n ≤ 2 ^ k) :
    Patchable (2 ^ k) m address n := by
  have hpow : 2 ^ k < 2 ^ 64 := Nat.pow_lt_pow_right (by decide) hk
  intro i hi
  left
  unfold patchedPage
  rw [mem_region, patch_offset hk address]
  omega

theorem fits_of_patchable (hk : k < 64) {n : Nat} (h : Patchable (2 ^ k) m address n)
    (hlen : n ≤ 2 ^ k) (hnext : m.writable (alignFloor address (BitVec.ofNat 64 (2 ^ k)) +
      BitVec.ofNat 64 (2 ^ k)) = false) : address.toNat % 2 ^ k + n ≤ 2 ^ k := by
  have hpow : 2 ^ k < 2 ^ 64 := Nat.pow_lt_pow_right (by decide) hk
  have hlt := Nat.mod_lt address.toNat (Nat.two_pow_pos k)
  by_contra hover
  -- the first byte of the next page
  rcases h (2 ^ k - address.toNat % 2 ^ k) (by omega) with hin | hw
  · unfold patchedPage at hin
    rw [mem_region, patch_offset hk address] at hin
    omega
  · have hsame : address + BitVec.ofNat 64 (2 ^ k - address.toNat % 2 ^ k) =
        alignFloor address (BitVec.ofNat 64 (2 ^ k)) + BitVec.ofNat 64 (2 ^ k) := by
      have hfloor := toNat_alignFloor hk address
      have hmod := Nat.mod_le address.toNat (2 ^ k)
      apply BitVec.eq_of_toNat_eq
      rw [BitVec.toNat_add, BitVec.toNat_add, BitVec.toNat_ofNat, BitVec.toNat_ofNat, hfloor]
      omega
    rw [hsame, hnext] at hw
    cases hw

/-- **`CodePatch` patches what does not run over the end of its page**, and faults on what does, where
the first byte of the next page is not writable. -/
theorem codePatch_succeeds_iff (hk : k < 64) (hlen : buffer.length ≤ 2 ^ k)
    (hnext : m.writable (alignFloor address (BitVec.ofNat 64 (2 ^ k)) + BitVec.ofNat 64 (2 ^ k)) =
      false) :
    ((∃ m', codePatch (2 ^ k) m address buffer = .ok m') ↔
      address.toNat % 2 ^ k + buffer.length ≤ 2 ^ k) ∧
    (codePatch (2 ^ k) m address buffer = .error .segv ↔
      2 ^ k < address.toNat % 2 ^ k + buffer.length) := by
  refine ⟨⟨?_, ?_⟩, ⟨?_, ?_⟩⟩
  · rintro ⟨m', h⟩
    exact fits_of_patchable hk (codePatch_inv h).1 hlen hnext
  · exact fun h => ⟨_, codePatch_ok (patchable_of_fits hk h)⟩
  · intro hsegv
    by_contra hfits
    rw [codePatch_ok (patchable_of_fits hk (Nat.le_of_not_lt hfits))] at hsegv
    cases hsegv
  · intro hover
    exact codePatch_segv fun h => Nat.not_le_of_lt hover (fits_of_patchable hk h hlen hnext)

theorem codePatch_over_page : codePatch (2 ^ 12) ⟨fun _ => 0, fun _ => false⟩ 0x1FF8
    (List.replicate 16 0) = .error .segv := by
  refine (codePatch_succeeds_iff (k := 12) (by decide) (by decide) rfl).2.2 ?_
  decide

end power

end Memory

/-! ### The arena -/

def MemoryChunk.region (c : MemoryChunk) : Set Addr := Arm64.region c.address c.length

/-- The chunks lie one behind the other from `a` on. -/
def Tiles : Nat → List MemoryChunk → Prop
  | _, [] => True
  | a, c :: cs => c.address.toNat = a ∧ Tiles (a + c.length) cs

def total (cs : List MemoryChunk) : Nat := (cs.map MemoryChunk.length).sum

theorem tiles_append {a : Nat} {cs : List MemoryChunk} {c : MemoryChunk} (h : Tiles a cs)
    (hc : c.address.toNat = a + total cs) : Tiles a (cs ++ [c]) := by
  induction cs generalizing a with
  | nil => exact ⟨by simpa [total] using hc, trivial⟩
  | cons d cs ih =>
    refine ⟨h.1, ih h.2 ?_⟩
    rw [hc]
    unfold total
    rw [List.map_cons, List.sum_cons]
    omega

theorem Tiles.bounds {a : Nat} {cs : List MemoryChunk} (h : Tiles a cs) :
    ∀ c ∈ cs, a ≤ c.address.toNat ∧ c.address.toNat + c.length ≤ a + total cs := by
  induction cs generalizing a with
  | nil =>
    intro c hc
    cases hc
  | cons d cs ih =>
    have htotal : total (d :: cs) = d.length + total cs := by
      unfold total
      rw [List.map_cons, List.sum_cons]
    intro c hc
    rw [htotal]
    rcases List.mem_cons.1 hc with rfl | hc
    · have := h.1
      omega
    · have := ih h.2 c hc
      omega

theorem Tiles.disjoint {a : Nat} {cs : List MemoryChunk} (h : Tiles a cs)
    (hend : a + total cs ≤ 2 ^ 64) : cs.Pairwise fun c d => Disjoint c.region d.region := by
  induction cs generalizing a with
  | nil => exact .nil
  | cons d cs ih =>
    have htotal : total (d :: cs) = d.length + total cs := by
      unfold total
      rw [List.map_cons, List.sum_cons]
    rw [htotal] at hend
    refine List.pairwise_cons.2 ⟨fun c hc => ?_, ih h.2 (by omega)⟩
    have hbounds := h.2.bounds c hc
    exact disjoint_region (by have := h.1; omega) (by omega)

def PageChunk.region (p : PageChunk) : Set Addr := Arm64.region p.page.address p.page.length

/-- A page of the arena: its chunks tile it up to its cursor. -/
structure PageSound (pageSize : Nat) (p : PageChunk) : Prop where
  length : p.page.length = pageSize
  aligned : p.page.address.toNat % pageSize = 0
  low : p.page.address.toNat + 2 * pageSize < 2 ^ 64
  cursor : p.pageCursor.toNat = p.page.address.toNat + total p.chunks
  fits : total p.chunks ≤ pageSize
  tiles : Tiles p.page.address.toNat p.chunks

structure ArenaSound (pageSize : Nat) (arena : MemoryArena) : Prop where
  pages : ∀ p ∈ arena, PageSound pageSize p
  disjoint : arena.Pairwise fun p q => Disjoint p.region q.region

def chunksOf (arena : MemoryArena) : List MemoryChunk := arena.flatMap PageChunk.chunks

/-- What `mmap` returns is a page of its own. -/
def FreshPage (pageSize : Nat) (arena : MemoryArena) (a : Addr) : Prop :=
  a.toNat % pageSize = 0 ∧ a.toNat + 2 * pageSize < 2 ^ 64 ∧
    ∀ p ∈ arena, Disjoint p.region (Arm64.region a pageSize)

variable {pageSize allocSize : Nat} {permission : MemoryPermission} {mmap : Option Addr}

theorem total_append (cs : List MemoryChunk) (c : MemoryChunk) :
    total (cs ++ [c]) = total cs + c.length := by
  unfold total
  rw [List.map_append, List.sum_append, List.map_singleton, List.sum_singleton]

theorem take_sound {p : PageChunk} (hp : PageSound pageSize p)
    (hroom : total p.chunks + allocSize ≤ pageSize) :
    PageSound pageSize (MemoryArena.take p allocSize).2 ∧
      (MemoryArena.take p allocSize).1.region ⊆ p.region ∧
      ∀ c ∈ p.chunks, Disjoint c.region (MemoryArena.take p allocSize).1.region := by
  have hlow := hp.low
  have hcursor := hp.cursor
  unfold MemoryArena.take
  refine ⟨⟨hp.length, hp.aligned, hp.low, ?_, ?_, ?_⟩, ?_, ?_⟩
  · rw [total_append, BitVec.toNat_add, hcursor, BitVec.toNat_ofNat]
    show _ = p.page.address.toNat + (total p.chunks + allocSize)
    omega
  · rw [total_append]
    exact hroom
  · exact tiles_append hp.tiles hcursor
  · intro x hx
    have hx : x ∈ Arm64.region p.pageCursor allocSize := hx
    show x ∈ Arm64.region p.page.address p.page.length
    rw [mem_region_iff (by omega)] at hx
    rw [hp.length, mem_region_iff (by omega)]
    omega
  · intro c hc
    have hbounds := hp.tiles.bounds c hc
    apply disjoint_region
    · show _ ≤ p.pageCursor.toNat
      omega
    · show p.pageCursor.toNat + allocSize ≤ _
      omega

theorem room_of_fits {p : PageChunk} (hp : PageSound pageSize p) (hsize : allocSize ≤ pageSize)
    (h : MemoryArena.fits p allocSize permission = true) :
    p.permission = permission ∧ total p.chunks + allocSize ≤ pageSize := by
  have hlow := hp.low
  have hfits := hp.fits
  unfold MemoryArena.fits at h
  rw [decide_eq_true_eq] at h
  obtain ⟨hperm, hlt⟩ := h
  rw [BitVec.lt_def, BitVec.toNat_add, BitVec.toNat_add, BitVec.toNat_ofNat, BitVec.toNat_ofNat,
    hp.cursor, hp.length] at hlt
  refine ⟨hperm, ?_⟩
  omega

/-- A page that `mmap` has just returned. -/
def newPage (pageSize : Nat) (permission : MemoryPermission) (a : Addr) : PageChunk :=
  ⟨⟨a, pageSize⟩, a, permission, []⟩

theorem newPage_sound {arena : MemoryArena} {a : Addr} (h : FreshPage pageSize arena a) :
    PageSound pageSize (newPage pageSize permission a) :=
  ⟨rfl, h.1, h.2.1, rfl, Nat.zero_le pageSize, trivial⟩

/-- What an allocation does: nothing, or it takes a chunk from a page with room, which is one of the
arena or new. -/
theorem allocateChunk_cases {arena arena' : MemoryArena} {chunk : Option MemoryChunk}
    (hpages : ∀ p ∈ arena, PageSound pageSize p) (hsize : allocSize ≤ pageSize)
    (h : MemoryArena.allocateChunk pageSize mmap allocSize permission arena = (arena', chunk)) :
    (mmap = none ∧ chunk = none ∧ arena' = arena) ∨
    ∃ xs p ys, p.permission = permission ∧ total p.chunks + allocSize ≤ pageSize ∧
      arena' = xs ++ (MemoryArena.take p allocSize).2 :: ys ∧
      chunk = some (MemoryArena.take p allocSize).1 ∧
      (arena = xs ++ p :: ys ∨
        arena = xs ∧ ys = [] ∧ ∃ a, mmap = some a ∧ p = newPage pageSize permission a) := by
  induction arena generalizing arena' chunk with
  | nil =>
    unfold MemoryArena.allocateChunk at h
    split at h
    · obtain ⟨rfl, rfl⟩ := Prod.mk.inj h
      exact Or.inl ⟨rfl, rfl, rfl⟩
    · rename_i a
      obtain ⟨rfl, rfl⟩ := Prod.mk.inj h
      refine Or.inr ⟨[], newPage pageSize permission a, [], rfl, ?_, rfl, rfl,
        Or.inr ⟨rfl, rfl, a, rfl, rfl⟩⟩
      show 0 + allocSize ≤ pageSize
      omega
  | cons q arena ih =>
    unfold MemoryArena.allocateChunk at h
    split at h
    · rename_i hfits
      obtain ⟨hperm, hroom⟩ := room_of_fits (hpages q List.mem_cons_self) hsize hfits
      obtain ⟨rfl, rfl⟩ := Prod.mk.inj h
      exact Or.inr ⟨[], q, arena, hperm, hroom, rfl, rfl, Or.inl rfl⟩
    · obtain ⟨rfl, rfl⟩ := Prod.mk.inj h
      have hrest := ih (fun p hp => hpages p (List.mem_cons_of_mem q hp)) (Prod.mk.eta).symm
      rcases hrest with ⟨hnone, hchunk, harena⟩ | ⟨xs, p, ys, hperm, hroom, harena, hchunk, hwhere⟩
      · rw [harena]
        exact Or.inl ⟨hnone, hchunk, rfl⟩
      · refine Or.inr ⟨q :: xs, p, ys, hperm, hroom, ?_, hchunk, ?_⟩
        · rw [harena]
          rfl
        · rcases hwhere with rfl | ⟨rfl, hnew⟩
          · exact Or.inl rfl
          · exact Or.inr ⟨rfl, hnew⟩

theorem taken_page {arena xs ys : MemoryArena} {p : PageChunk} (hs : ArenaSound pageSize arena)
    (hmmap : ∀ a, mmap = some a → FreshPage pageSize arena a)
    (hwhere : arena = xs ++ p :: ys ∨
      arena = xs ∧ ys = [] ∧ ∃ a, mmap = some a ∧ p = newPage pageSize permission a) :
    ArenaSound pageSize (xs ++ p :: ys) ∧ chunksOf (xs ++ p :: ys) = chunksOf arena := by
  rcases hwhere with rfl | ⟨rfl, rfl, a, ha, rfl⟩
  · exact ⟨hs, rfl⟩
  · have hfresh := hmmap a ha
    refine ⟨⟨?_, ?_⟩, ?_⟩
    · intro q hq
      rcases List.mem_append.1 hq with hq | hq
      · exact hs.pages q hq
      · obtain rfl := List.mem_singleton.1 hq
        exact newPage_sound hfresh
    · refine List.pairwise_append.2 ⟨hs.disjoint, List.pairwise_singleton _ _, ?_⟩
      intro q hq r hr
      obtain rfl := List.mem_singleton.1 hr
      exact hfresh.2.2 q hq
    · unfold chunksOf
      rw [List.flatMap_append]
      exact List.append_nil _

theorem PageSound.chunk_subset {p : PageChunk} (hp : PageSound pageSize p) {c : MemoryChunk}
    (hc : c ∈ p.chunks) : c.region ⊆ p.region := by
  have hlow := hp.low
  have hfits := hp.fits
  have hbounds := hp.tiles.bounds c hc
  intro x hx
  unfold MemoryChunk.region at hx
  unfold PageChunk.region
  rw [mem_region_iff (by omega)] at hx
  rw [hp.length, mem_region_iff (by omega)]
  omega

/-- **An allocation** keeps the arena sound, and what it returns is new. -/
theorem allocateChunk_spec {arena arena' : MemoryArena} {c : MemoryChunk}
    (hs : ArenaSound pageSize arena) (hsize : allocSize ≤ pageSize)
    (hmmap : ∀ a, mmap = some a → FreshPage pageSize arena a)
    (h : MemoryArena.allocateChunk pageSize mmap allocSize permission arena = (arena', some c)) :
    ArenaSound pageSize arena' ∧ (chunksOf arena').Perm (c :: chunksOf arena) ∧
      c.length = allocSize ∧ (∀ d ∈ chunksOf arena, Disjoint d.region c.region) ∧
      ∃ p ∈ arena', p.permission = permission ∧ c.region ⊆ p.region := by
  rcases allocateChunk_cases hs.pages hsize h with
    ⟨-, hnone, -⟩ | ⟨xs, p, ys, hperm, hroom, rfl, hc, hwhere⟩
  · cases hnone
  obtain rfl := Option.some.inj hc
  obtain ⟨hsound, hchunks⟩ := taken_page hs hmmap hwhere
  have hp : PageSound pageSize p := hsound.pages p (by simp)
  obtain ⟨htaken, hsub, hapart⟩ := take_sound hp hroom
  -- the page keeps its place
  have hregion : (MemoryArena.take p allocSize).2.region = p.region := rfl
  obtain ⟨hx, hy, hxy⟩ := List.pairwise_append.1 hsound.disjoint
  obtain ⟨hpy, hyy⟩ := List.pairwise_cons.1 hy
  refine ⟨⟨?_, ?_⟩, ?_, rfl, ?_, ?_⟩
  · intro q hq
    rcases List.mem_append.1 hq with hq | hq
    · exact hsound.pages q (List.mem_append_left _ hq)
    · rcases List.mem_cons.1 hq with rfl | hq
      · exact htaken
      · exact hsound.pages q (by simp [hq])
  · refine List.pairwise_append.2 ⟨hx, List.pairwise_cons.2 ⟨hpy, hyy⟩, ?_⟩
    intro q hq r hr
    rcases List.mem_cons.1 hr with rfl | hr
    · exact hxy q hq p List.mem_cons_self
    · exact hxy q hq r (List.mem_cons_of_mem p hr)
  · rw [← hchunks]
    unfold chunksOf
    rw [List.flatMap_append, List.flatMap_append, List.flatMap_cons, List.flatMap_cons]
    show (_ ++ ((p.chunks ++ [_]) ++ _)).Perm _
    rw [List.append_assoc, List.singleton_append, ← List.append_assoc, ← List.append_assoc]
    exact List.perm_middle
  · intro d hd
    rw [← hchunks] at hd
    obtain ⟨q, hq, hdq⟩ := List.mem_flatMap.1 hd
    rcases List.mem_append.1 hq with hq' | hq'
    · exact (hxy q hq' p List.mem_cons_self).mono ((hsound.pages q hq).chunk_subset hdq) hsub
    · rcases List.mem_cons.1 hq' with rfl | hq'
      · exact hapart d hdq
      · exact ((hpy q hq').symm).mono ((hsound.pages q hq).chunk_subset hdq) hsub
  · exact ⟨(MemoryArena.take p allocSize).2, by simp, hperm, hsub⟩

theorem allocateChunk_pages {arena arena' : MemoryArena} {chunk : Option MemoryChunk}
    (hs : ArenaSound pageSize arena) (hsize : allocSize ≤ pageSize)
    (h : MemoryArena.allocateChunk pageSize mmap allocSize permission arena = (arena', chunk)) :
    ∀ p ∈ arena, ∃ p' ∈ arena', p'.permission = p.permission ∧ p'.region = p.region := by
  rcases allocateChunk_cases hs.pages hsize h with
    ⟨-, -, rfl⟩ | ⟨xs, p, ys, -, -, rfl, -, hwhere⟩
  · exact fun p hp => ⟨p, hp, rfl, rfl⟩
  · intro q hq
    have hq : q ∈ xs ∨ q = p ∨ q ∈ ys := by
      rcases hwhere with rfl | ⟨rfl, -, -⟩
      · simpa using hq
      · exact Or.inl hq
    rcases hq with hq | rfl | hq
    · exact ⟨q, List.mem_append_left _ hq, rfl, rfl⟩
    · exact ⟨(MemoryArena.take q allocSize).2, by simp, rfl, rfl⟩
    · exact ⟨q, by simp [hq], rfl, rfl⟩

theorem allocateChunk_pages_new {arena arena' : MemoryArena} {chunk : Option MemoryChunk}
    (hs : ArenaSound pageSize arena) (hsize : allocSize ≤ pageSize)
    (h : MemoryArena.allocateChunk pageSize mmap allocSize permission arena = (arena', chunk)) :
    ∀ p' ∈ arena', (∃ p ∈ arena, p.region = p'.region) ∨
      ∃ a, mmap = some a ∧ p'.region = Arm64.region a pageSize := by
  rcases allocateChunk_cases hs.pages hsize h with
    ⟨-, -, rfl⟩ | ⟨xs, p, ys, -, -, rfl, -, hwhere⟩
  · exact fun p hp => Or.inl ⟨p, hp, rfl⟩
  · intro q hq
    have hq : q ∈ xs ∨ q = (MemoryArena.take p allocSize).2 ∨ q ∈ ys := by simpa using hq
    rcases hwhere with rfl | ⟨rfl, rfl, a, ha, rfl⟩
    · rcases hq with hq | rfl | hq
      · exact Or.inl ⟨q, List.mem_append_left _ hq, rfl⟩
      · exact Or.inl ⟨p, by simp, rfl⟩
      · exact Or.inl ⟨q, by simp [hq], rfl⟩
    · rcases hq with hq | rfl | hq
      · exact Or.inl ⟨q, hq, rfl⟩
      · exact Or.inr ⟨a, ha, rfl⟩
      · cases hq

/-! ### Runs of allocations -/

/-- An allocation, with what `mmap` returns if it is asked. -/
structure Allocation where
  allocSize : Nat
  permission : MemoryPermission
  mmap : Option Addr

/-- The arena with the chunks it has returned and what they are for, the newest first. -/
abbrev Returned := MemoryArena × List (MemoryChunk × MemoryPermission)

def arenaMachine (pageSize : Nat) : Clib.Machine Returned Allocation where
  init := ([], [])
  step s a :=
    let (arena, chunk) := s.1.allocateChunk pageSize a.mmap a.allocSize a.permission
    some (arena, (chunk.map fun c => (c, a.permission)).toList ++ s.2)

/-- Allocations of at most a page, with pages that are new. -/
def Allocatable (pageSize : Nat) (s : Returned) (a : Allocation) : Prop :=
  a.allocSize ≤ pageSize ∧ ∀ page, a.mmap = some page → FreshPage pageSize s.1 page

structure ReturnedSound (pageSize : Nat) (s : Returned) : Prop where
  arena : ArenaSound pageSize s.1
  chunks : (chunksOf s.1).Perm (s.2.map Prod.fst)
  apart : s.2.Pairwise fun c d => Disjoint c.1.region d.1.region
  pages : ∀ c ∈ s.2, ∃ p ∈ s.1, p.permission = c.2 ∧ c.1.region ⊆ p.region

theorem ReturnedSound.step {s s' : Returned} {a : Allocation} (h : ReturnedSound pageSize s)
    (hguard : Allocatable pageSize s a) (hstep : (arenaMachine pageSize).step s a = some s') :
    ReturnedSound pageSize s' := by
  obtain rfl := Option.some.inj hstep
  obtain ⟨hsize, hmmap⟩ := hguard
  generalize halloc : s.1.allocateChunk pageSize a.mmap a.allocSize a.permission = r
  obtain ⟨arena, chunk⟩ := r
  have hkept : ∀ c ∈ s.2, ∃ p ∈ arena, p.permission = c.2 ∧ c.1.region ⊆ p.region := by
    intro c hc
    obtain ⟨p, hp, hperm, hsub⟩ := h.pages c hc
    obtain ⟨p', hp', hperm', hregion⟩ := allocateChunk_pages h.arena hsize halloc p hp
    exact ⟨p', hp', hperm'.trans hperm, hregion ▸ hsub⟩
  rcases chunk with _ | c
  · rcases allocateChunk_cases h.arena.pages hsize halloc with ⟨-, -, rfl⟩ | ⟨xs, p, ys, -, -, -, hc, -⟩
    · exact h
    · cases hc
  · obtain ⟨hsound, hperm, -, hapart, p, hp, hpage⟩ := allocateChunk_spec h.arena hsize hmmap halloc
    refine ⟨hsound, hperm.trans (h.chunks.cons c), List.pairwise_cons.2 ⟨?_, h.apart⟩, ?_⟩
    · intro d hd
      exact (hapart d.1 (h.chunks.mem_iff.2 (List.mem_map_of_mem hd))).symm
    · intro d hd
      rcases List.mem_cons.1 hd with rfl | hd
      · exact ⟨p, hp, hpage⟩
      · exact hkept d hd

/-- **No two chunks overlap**, and each lies in a page of the arena with the permission it is for. -/
theorem allocations_disjoint {as : List Allocation} {s : Returned}
    (h : (arenaMachine pageSize).Run (Allocatable pageSize) ([], []) as s) :
    (s.2.Pairwise fun c d => Disjoint c.1.region d.1.region) ∧
      ∀ c ∈ s.2, ∃ p ∈ s.1, p.permission = c.2 ∧ c.1.region ⊆ p.region := by
  have hinit : ReturnedSound pageSize ([], []) := ⟨⟨by simp, .nil⟩, .nil, .nil, by simp⟩
  have hsound : ReturnedSound pageSize s :=
    h.invariant (I := fun _ => ReturnedSound pageSize) hinit
      fun _ _ _ _ hs hguard hstep => hs.step hguard hstep
  exact ⟨hsound.apart, hsound.pages⟩

theorem allocations_disjoint_two : ∃ s : Returned, s.2.length = 2 ∧
    (s.2.Pairwise fun c d => Disjoint c.1.region d.1.region) ∧
      ∀ c ∈ s.2, ∃ p ∈ s.1, p.permission = c.2 ∧ c.1.region ⊆ p.region := by
  have hnone : Allocatable 4096 ([], []) ⟨96, .kReadExecute, some 0x40000⟩ := by
    refine ⟨by decide, ?_⟩
    rintro page ⟨⟩
    exact ⟨by decide, by decide, by simp⟩
  have hrun := (((Clib.Machine.Run.nil (M := arenaMachine 4096)).step hnone rfl).step
    (a := ⟨40, .kReadExecute, none⟩) ⟨by decide, by simp⟩ rfl)
  exact ⟨_, rfl, allocations_disjoint hrun⟩

end Il2CppDumper.Dobby
