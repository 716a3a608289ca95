import Il2CppDumper.Model.EntryList

/-!
# The list of hooks is a list

Whatever calls are made, the ring of nodes in memory answers as the list of entries does
(`entry_list_refines`).
-/

namespace Il2CppDumper.Dobby

open Arm64 Clib

/-- The nodes that calls allocate. -/
def allocatedNodes : List EntryCall → List Addr
  | [] => []
  | .add entryNode _ :: cs => entryNode :: allocatedNodes cs
  | _ :: cs => allocatedNodes cs

namespace EntryNodes
variable {fuel : Nat} {head entryNode address : Addr} {s : EntryNodes} {nodes : List Addr}
  {entry : HookEntry} {process : HookedProcess}

theorem findHookEntryNode_eq (h : s.links.Ring head nodes) (hfuel : nodes.length < fuel)
    (address : Addr) : s.findHookEntryNode fuel head address =
      some (nodes.find? fun node => (s.entry node).functionAddress = address) := by
  obtain ⟨y, hy, hfind⟩ := h.path.findFrom (List.nodup_cons.1 h.nodup).1 hfuel
    fun node => (s.entry node).functionAddress = address
  unfold findHookEntryNode
  rw [hy]
  exact hfind

theorem findHookEntry_eq (h : s.links.Ring head nodes) (hfuel : nodes.length < fuel)
    (hlist : process.hookEntryList = nodes.map s.entry) (address : Addr) :
    s.findHookEntry fuel head address = some (process.findHookEntry address) := by
  unfold findHookEntry HookedProcess.findHookEntry
  rw [findHookEntryNode_eq h hfuel, hlist, List.find?_map]
  rfl

theorem addHookEntry_ring (h : s.links.Ring head nodes) (hnew : entryNode ∉ head :: nodes)
    (entry : HookEntry) : ∃ s', s.addHookEntry head entryNode entry = some s' ∧
      s'.links.Ring head (entryNode :: nodes) ∧
      (entryNode :: nodes).map s'.entry = entry :: nodes.map s.entry := by
  obtain ⟨links, hadd, hring⟩ := h.add hnew
  unfold addHookEntry
  dsimp only
  rw [hadd]
  refine ⟨_, rfl, hring, congrArg₂ List.cons (if_pos rfl) ?_⟩
  apply List.map_congr_left
  intro node hnode
  exact if_neg fun heq : node = entryNode => hnew (List.mem_cons_of_mem head (heq ▸ hnode))

theorem removeHookEntry_ring (h : s.links.Ring head nodes) (hfuel : nodes.length < fuel)
    (address : Addr) : ∃ s' rest, s.removeHookEntry fuel head address = some s' ∧
      s'.links.Ring head rest ∧ rest.Sublist nodes ∧
      rest.map s'.entry =
        (nodes.map s.entry).eraseP fun entry => entry.functionAddress = address := by
  unfold removeHookEntry
  rw [findHookEntryNode_eq h hfuel, List.eraseP_map]
  cases hfind : nodes.find? fun node => (s.entry node).functionAddress = address with
  | none =>
    refine ⟨s, nodes, rfl, h, List.Sublist.refl nodes, ?_⟩
    have hnone : ∀ node ∈ nodes, ¬ ((fun e : HookEntry => decide (e.functionAddress = address)) ∘
        s.entry) node := List.find?_eq_none.1 hfind
    rw [List.eraseP_of_forall_not hnone]
  | some node =>
    obtain ⟨hnode, xs, ys, rfl, hxs⟩ := List.find?_eq_some_iff_append.1 hfind
    obtain ⟨links, hdel, hring⟩ := h.del
    refine ⟨{ s with links }, xs ++ ys, ?_, hring, ?_, ?_⟩
    · dsimp only [bind, Option.bind]
      rw [hdel]
      rfl
    · exact (List.sublist_cons_self node ys).append_left xs
    · have hfront : ∀ node ∈ xs, ¬ ((fun e : HookEntry => decide (e.functionAddress = address)) ∘
          s.entry) node := fun x hx => by simpa using hxs x hx
      have hfound : ((fun e : HookEntry => decide (e.functionAddress = address)) ∘ s.entry) node :=
        hnode
      rw [List.eraseP_append_right _ hfront, List.eraseP_cons_of_pos hfound]

/-- Calls from a ring that is a list. -/
theorem calls_eq (h : s.links.Ring head nodes)
    {p : HookedProcess} (hlist : p.hookEntryList = nodes.map s.entry) {cs : List EntryCall}
    (hnew : (head :: (allocatedNodes cs ++ nodes)).Nodup) (hfuel : nodes.length + cs.length < fuel) :
    s.calls fuel head cs = some (p.calls cs) := by
  induction cs generalizing s nodes p with
  | nil => rfl
  | cons c cs ih =>
    rw [List.length_cons] at hfuel
    have hcs : nodes.length < fuel := by omega
    cases c with
    | find address =>
      rw [EntryNodes.calls, findHookEntry_eq h hcs hlist]
      dsimp only [bind, Option.bind]
      rw [ih h hlist hnew (by omega)]
      rfl
    | add entryNode entry =>
      have hfresh : entryNode ∉ head :: nodes := by
        intro hmem
        have hfront : (entryNode :: (allocatedNodes cs ++ nodes)).Nodup := (List.nodup_cons.1 hnew).2
        rcases List.mem_cons.1 hmem with rfl | hmem
        · exact (List.nodup_cons.1 hnew).1 List.mem_cons_self
        · exact (List.nodup_cons.1 hfront).1 (List.mem_append_right _ hmem)
      obtain ⟨s', hadd, hring, hentries⟩ := addHookEntry_ring h hfresh entry
      have hrest : (head :: (allocatedNodes cs ++ entryNode :: nodes)).Nodup :=
        hnew.perm (List.perm_middle.symm.cons head)
      rw [EntryNodes.calls, hadd]
      dsimp only [bind, Option.bind]
      rw [← hlist] at hentries
      have hcalls := ih (p := { p with hookEntryList := entry :: p.hookEntryList })
        hring hentries.symm hrest (by rw [List.length_cons]; omega)
      rw [hcalls]
      rfl
    | remove address =>
      obtain ⟨s', rest, hremove, hring, hsub, hentries⟩ := removeHookEntry_ring h hcs address
      have hrest : (head :: (allocatedNodes cs ++ rest)).Nodup :=
        hnew.sublist ((hsub.append_left _).cons_cons head)
      have hlen := hsub.length_le
      rw [← hlist] at hentries
      rw [EntryNodes.calls, hremove]
      dsimp only [bind, Option.bind]
      have hcalls := ih (p := ⟨p.memory, p.pageChunks, p.hookEntryList.eraseP fun entry =>
        entry.functionAddress = address⟩) hring hentries.symm hrest (by omega)
      rw [hcalls]
      rfl
    | count =>
      obtain ⟨y, hy, hcount⟩ := h.path.countFrom (k := 0) (List.nodup_cons.1 h.nodup).1 hcs
      rw [EntryNodes.calls, getHookEntryCount, hy]
      dsimp only [bind, Option.bind]
      rw [hcount]
      dsimp only
      rw [ih h hlist hnew (by omega), Nat.zero_add, HookedProcess.calls, hlist, List.length_map]
      rfl

end EntryNodes

/-- **The list of hooks is a list**: from an empty ring on, whatever calls are made, the nodes in
memory give the results that the list of entries gives. -/
theorem entry_list_refines (s : EntryNodes) (process : HookedProcess) {head : Addr} {fuel : Nat}
    {cs : List EntryCall} (hempty : process.hookEntryList = [])
    (hnew : (head :: allocatedNodes cs).Nodup) (hfuel : cs.length < fuel) :
    { s with links := s.links.initHead head }.calls fuel head cs = some (process.calls cs) := by
  apply EntryNodes.calls_eq (Links.ring_initHead s.links head) hempty
  · rwa [List.append_nil]
  · rwa [List.length_nil, Nat.zero_add]

/-- A function hooked twice, and the newer hook taken away. -/
theorem entry_list_refines_twice :
    (⟨Links.initHead ⟨fun _ => none, fun _ => none⟩ 0x10, fun _ => ⟨0, 0, 0, 0, ⟨0, 0⟩, []⟩⟩ :
      EntryNodes).calls 6 0x10
        [.add 0x20 ⟨0, 0x1000, 0x2000, 0x3000, ⟨0x1000, 0⟩, []⟩,
          .add 0x30 ⟨1, 0x1000, 0x4000, 0x5000, ⟨0x1000, 0⟩, []⟩,
          .find 0x1000, .remove 0x1000, .count] =
      some [.done, .done, .entry (some ⟨1, 0x1000, 0x4000, 0x5000, ⟨0x1000, 0⟩, []⟩), .done,
        .count 1] :=
  (entry_list_refines ⟨⟨fun _ => none, fun _ => none⟩, fun _ => ⟨0, 0, 0, 0, ⟨0, 0⟩, []⟩⟩
    ⟨⟨fun _ => 0, fun _ => false⟩, [], []⟩ rfl (by decide) (by decide)).trans rfl

end Il2CppDumper.Dobby
