import Mathlib.Data.List.Nodup

/-!
# Circular lists of linked nodes

Doubly linked lists whose links lie in the elements: every node knows its neighbours, and the list is
a ring through a head that is no element of it. `Ring` says which list a ring is. Putting a node in
front and taking a node out keep it (`Ring.add`, `Ring.del`), and both loops over it do what they do
over the list (`Path.findFrom`, `Path.countFrom`).
-/

namespace Clib

/-- The links of all nodes in memory. A link may be null. -/
structure Links (α : Type) where
  next : α → Option α
  prev : α → Option α

namespace Links
variable {α : Type} [DecidableEq α]

def setNext (s : Links α) (a : α) (b : Option α) : Links α :=
  { s with next := fun x => if x = a then b else s.next x }

def setPrev (s : Links α) (a : α) (b : Option α) : Links α :=
  { s with prev := fun x => if x = a then b else s.prev x }

/-- An empty ring. -/
def initHead (s : Links α) (head : α) : Links α :=
  (s.setNext head (some head)).setPrev head (some head)

def addBetween (s : Links α) (new prev next : α) : Links α :=
  (((s.setPrev next (some new)).setNext new (some next)).setPrev new (some prev)).setNext prev
    (some new)

/-- A node behind the head. A null link that is followed ends the program. -/
def add (s : Links α) (new head : α) : Option (Links α) := do
  let next ← s.next head
  return s.addBetween new head next

def delBetween (s : Links α) (prev next : α) : Links α :=
  (s.setPrev next (some prev)).setNext prev (some next)

/-- A node taken out of its ring: its own links are null then. -/
def del (s : Links α) (entry : α) : Option (Links α) := do
  let prev ← s.prev entry
  let next ← s.next entry
  return ((s.delBetween prev next).setNext entry none).setPrev entry none

/-- The loop that looks for a node, from `pos` to the head. -/
def findFrom (s : Links α) (p : α → Bool) (head : α) : Nat → α → Option (Option α)
  | 0, _ => none
  | fuel + 1, pos =>
    if pos = head then some none
    else if p pos then some (some pos)
    else do
      let next ← s.next pos
      findFrom s p head fuel next

/-- The loop that counts nodes, from `pos` to the head. -/
def countFrom (s : Links α) (head : α) : Nat → α → Nat → Option Nat
  | 0, _, _ => none
  | fuel + 1, pos, count =>
    if pos = head then some count
    else do
      let next ← s.next pos
      countFrom s head fuel next (count + 1)

end Links

/-! ### Paths -/

namespace Links
variable {α : Type}

/-- `a` is in front of `b`, from both sides. -/
def Linked (s : Links α) (a b : α) : Prop := s.next a = some b ∧ s.prev b = some a

/-- The nodes `xs` lie between `a` and `z`. -/
def Path (s : Links α) (a : α) : List α → α → Prop
  | [], z => s.Linked a z
  | x :: xs, z => s.Linked a x ∧ s.Path x xs z

variable {s s' : Links α} {a x y z p : α} {xs ys : List α}

theorem path_append : s.Path a (xs ++ y :: ys) z ↔ s.Path a xs y ∧ s.Path y ys z := by
  induction xs generalizing a with
  | nil => rfl
  | cons x xs ih => rw [List.cons_append, Path, Path, ih, and_assoc]

/-- A path does not see the links of other nodes. -/
theorem Path.congr (h : s.Path a xs z) (hnext : ∀ u ∈ a :: xs, s'.next u = s.next u)
    (hprev : ∀ v ∈ xs ++ [z], s'.prev v = s.prev v) : s'.Path a xs z := by
  induction xs generalizing a with
  | nil => exact ⟨(hnext a List.mem_cons_self).trans h.1, (hprev z List.mem_cons_self).trans h.2⟩
  | cons x xs ih =>
    obtain ⟨hlink, hrest⟩ := h
    refine ⟨⟨(hnext a List.mem_cons_self).trans hlink.1, ?_⟩, ih hrest ?_ ?_⟩
    · exact (hprev x List.mem_cons_self).trans hlink.2
    · exact fun u hu => hnext u (List.mem_cons_of_mem a hu)
    · exact fun v hv => hprev v (List.mem_cons_of_mem x hv)

/-- The node behind the start of a path. -/
theorem Path.first (h : s.Path a xs z) : ∃ y ∈ xs ++ [z], s.next a = some y := by
  cases xs with
  | nil => exact ⟨z, List.mem_cons_self, h.1⟩
  | cons x xs => exact ⟨x, List.mem_cons_self, h.1.1⟩

/-- The node in front of the end of a path. -/
theorem Path.last (h : s.Path a xs z) : ∃ p ∈ a :: xs, s.prev z = some p := by
  induction xs generalizing a with
  | nil => exact ⟨a, List.mem_cons_self, h.2⟩
  | cons x xs ih =>
    obtain ⟨p, hp, hlink⟩ := ih h.2
    exact ⟨p, List.mem_cons_of_mem a hp, hlink⟩

/-- A node in the middle taken out. -/
theorem Path.cut (hleft : s.Path a xs x) (hright : s.Path x ys z)
    (hfront : (a :: (xs ++ x :: ys)).Nodup) (hback : (xs ++ x :: (ys ++ [z])).Nodup)
    (hp : s.prev x = some p) (hy : s.next x = some y)
    (hnext : ∀ u, u ≠ p → u ≠ x → s'.next u = s.next u)
    (hprev : ∀ v, v ≠ y → v ≠ x → s'.prev v = s.prev v) (hlink : s'.Linked p y) :
    s'.Path a (xs ++ ys) z := by
  induction xs generalizing a with
  | nil =>
    obtain rfl := Option.some.inj (hp.symm.trans hleft.2)
    cases ys with
    | nil =>
      obtain rfl := Option.some.inj (hy.symm.trans hright.1)
      exact hlink
    | cons b ys =>
      obtain rfl := Option.some.inj (hy.symm.trans hright.1.1)
      obtain ⟨hpmem, -⟩ := List.nodup_cons.1 hfront
      obtain ⟨hxmem, hrest⟩ := List.nodup_cons.1 hback
      obtain ⟨hymem, -⟩ := List.nodup_cons.1 hrest
      refine ⟨hlink, hright.2.congr (fun u hu => hnext u ?_ ?_) fun v hv => hprev v ?_ ?_⟩
      · rintro rfl
        exact hpmem (List.mem_cons_of_mem x hu)
      · rintro rfl
        exact hxmem (List.mem_append_left [z] hu)
      · rintro rfl
        exact hymem hv
      · rintro rfl
        exact hxmem (List.mem_cons_of_mem y hv)
  | cons b xs ih =>
    obtain ⟨hamem, hfront⟩ := List.nodup_cons.1 hfront
    obtain ⟨hbmem, hback⟩ := List.nodup_cons.1 hback
    have hx : x ∈ xs ++ x :: ys := List.mem_append_right xs List.mem_cons_self
    have hmid : p ∈ b :: (xs ++ x :: ys) := by
      obtain ⟨q, hq, hlast⟩ := hleft.2.last
      obtain rfl := Option.some.inj (hp.symm.trans hlast)
      rcases List.mem_cons.1 hq with rfl | hmem
      · exact List.mem_cons_self
      · exact List.mem_cons_of_mem b (List.mem_append_left _ hmem)
    have hend : y ∈ xs ++ x :: (ys ++ [z]) := by
      obtain ⟨q, hq, hfirst⟩ := hright.first
      obtain rfl := Option.some.inj (hy.symm.trans hfirst)
      exact List.mem_append_right xs (List.mem_cons_of_mem x hq)
    refine ⟨⟨(hnext a ?_ ?_).trans hleft.1.1, (hprev b ?_ ?_).trans hleft.1.2⟩,
      ih hleft.2 hfront hback⟩
    · rintro rfl
      exact hamem hmid
    · rintro rfl
      exact hamem (List.mem_cons_of_mem b hx)
    · rintro rfl
      exact hbmem hend
    · rintro rfl
      exact hbmem (List.mem_append_right xs List.mem_cons_self)

/-! ### Rings -/

/-- The ring through `head` is the list `xs`. -/
structure Ring (s : Links α) (head : α) (xs : List α) : Prop where
  nodup : (head :: xs).Nodup
  path : s.Path head xs head

section operations
variable [DecidableEq α] {head new : α}

theorem ring_initHead (s : Links α) (head : α) : (s.initHead head).Ring head [] :=
  ⟨List.nodup_cons.2 ⟨List.not_mem_nil, .nil⟩, if_pos rfl, if_pos rfl⟩

theorem Ring.add (h : s.Ring head xs) (hnew : new ∉ head :: xs) :
    ∃ s', s.add new head = some s' ∧ s'.Ring head (new :: xs) := by
  obtain ⟨y, hy, hfirst⟩ := h.path.first
  obtain ⟨hne, hout⟩ := not_or.1 (mt List.mem_cons.2 hnew)
  obtain ⟨hhead, hxs⟩ := List.nodup_cons.1 h.nodup
  have hynew : y ≠ new := by
    rintro rfl
    rcases List.mem_append.1 hy with hmem | hmem
    · exact hout hmem
    · exact hne (List.mem_singleton.1 hmem)
  refine ⟨s.addBetween new head y, by rw [Links.add, hfirst]; rfl, ⟨?_, ?_⟩⟩
  · apply List.nodup_cons.2 ⟨?_, List.nodup_cons.2 ⟨hout, hxs⟩⟩
    exact fun hmem => (List.mem_cons.1 hmem).elim (fun heq => hne heq.symm) hhead
  · have hlink : (s.addBetween new head y).Linked head new := by
      simp [Linked, addBetween, setNext, setPrev]
    have hnext : (s.addBetween new head y).Linked new y := by
      simp [Linked, addBetween, setNext, setPrev, hne, hynew]
    refine ⟨hlink, ?_⟩
    -- the path from the new node is the old one from the head
    cases xs with
    | nil =>
      obtain rfl := Option.some.inj (hfirst.symm.trans h.path.1)
      exact hnext
    | cons x xs =>
      obtain rfl := Option.some.inj (hfirst.symm.trans h.path.1.1)
      refine ⟨hnext, h.path.2.congr (fun u hu => ?_) fun v hv => ?_⟩
      · have huhead : u ≠ head := fun heq => hhead (heq ▸ hu)
        have hunew : u ≠ new := fun heq => hout (heq ▸ hu)
        simp [addBetween, setNext, setPrev, huhead, hunew]
      · have hvy : v ≠ y := by
          rintro rfl
          rcases List.mem_append.1 hv with hmem | hmem
          · exact (List.nodup_cons.1 hxs).1 hmem
          · exact hhead (List.mem_singleton.1 hmem ▸ List.mem_cons_self)
        have hvnew : v ≠ new := by
          rintro rfl
          rcases List.mem_append.1 hv with hmem | hmem
          · exact hout (List.mem_cons_of_mem y hmem)
          · exact hne (List.mem_singleton.1 hmem)
        simp [addBetween, setNext, setPrev, hvy, hvnew]

theorem Ring.del (h : s.Ring head (xs ++ x :: ys)) :
    ∃ s', s.del x = some s' ∧ s'.Ring head (xs ++ ys) := by
  obtain ⟨hleft, hright⟩ := path_append.1 h.path
  obtain ⟨p, hpmem, hp⟩ := hleft.last
  obtain ⟨y, hymem, hy⟩ := hright.first
  have hback : (xs ++ x :: (ys ++ [head])).Nodup := by
    have hcomm : ((xs ++ x :: ys) ++ [head]).Nodup := List.nodup_append_comm.1 h.nodup
    rwa [List.append_assoc, List.cons_append] at hcomm
  have hpx : p ≠ x := by
    rintro rfl
    have hfront : (head :: xs ++ p :: ys).Nodup := h.nodup
    exact (List.nodup_append.1 hfront).2.2 p hpmem p List.mem_cons_self rfl
  have hyx : y ≠ x := by
    rintro rfl
    exact (List.nodup_cons.1 (List.nodup_append.1 hback).2.1).1 hymem
  refine ⟨((s.delBetween p y).setNext x none).setPrev x none, ?_, ?_, ?_⟩
  · rw [Links.del, hp, hy]
    rfl
  · exact h.nodup.sublist (((List.sublist_cons_self x ys).append_left xs).cons_cons head)
  · refine hleft.cut hright h.nodup hback hp hy (fun u hup hux => ?_) (fun v hvy hvx => ?_) ⟨?_, ?_⟩
    · simp [delBetween, setNext, setPrev, hup, hux]
    · simp [delBetween, setNext, setPrev, hvy, hvx]
    · simp [delBetween, setNext, setPrev, hpx]
    · simp [delBetween, setNext, setPrev, hyx]

/-- The loops see the nodes in the order of the list. -/
theorem Path.findFrom {n : Nat} (h : s.Path a xs head) (hhead : head ∉ xs) (hn : xs.length < n)
    (f : α → Bool) :
    ∃ y, s.next a = some y ∧ s.findFrom f head n y = some (xs.find? f) := by
  induction xs generalizing a n with
  | nil =>
    obtain ⟨n, rfl⟩ := Nat.exists_eq_succ_of_ne_zero (Nat.ne_of_gt hn)
    exact ⟨head, h.1, if_pos rfl⟩
  | cons x xs ih =>
    obtain ⟨n, rfl⟩ := Nat.exists_eq_succ_of_ne_zero (Nat.ne_of_gt (Nat.zero_lt_of_lt hn))
    obtain ⟨hne, hhead⟩ := not_or.1 (mt List.mem_cons.2 hhead)
    obtain ⟨y, hy, hrest⟩ := ih h.2 hhead (Nat.lt_of_succ_lt_succ hn)
    refine ⟨x, h.1.1, ?_⟩
    rw [Links.findFrom, if_neg fun heq => hne heq.symm]
    cases hf : f x with
    | true => rw [if_pos rfl, List.find?_cons_of_pos hf]
    | false =>
      rw [if_neg Bool.false_ne_true, List.find?_cons_of_neg (by rw [hf]; exact Bool.false_ne_true),
        hy]
      exact hrest

theorem Path.countFrom {n k : Nat} (h : s.Path a xs head) (hhead : head ∉ xs)
    (hn : xs.length < n) :
    ∃ y, s.next a = some y ∧ s.countFrom head n y k = some (k + xs.length) := by
  induction xs generalizing a n k with
  | nil =>
    obtain ⟨n, rfl⟩ := Nat.exists_eq_succ_of_ne_zero (Nat.ne_of_gt hn)
    exact ⟨head, h.1, if_pos rfl⟩
  | cons x xs ih =>
    obtain ⟨n, rfl⟩ := Nat.exists_eq_succ_of_ne_zero (Nat.ne_of_gt (Nat.zero_lt_of_lt hn))
    obtain ⟨hne, hhead⟩ := not_or.1 (mt List.mem_cons.2 hhead)
    obtain ⟨y, hy, hrest⟩ := ih (k := k + 1) h.2 hhead (Nat.lt_of_succ_lt_succ hn)
    refine ⟨x, h.1.1, ?_⟩
    rw [Links.countFrom, if_neg fun heq => hne heq.symm, hy, List.length_cons, Nat.add_comm xs.length,
      ← Nat.add_assoc]
    exact hrest

end operations

end Links

end Clib
