import Il2CppDumper.Clib.Ring
import Il2CppDumper.Model.Interceptor

/-!
# The list of hooks in memory

`hook_entry_list_` with its nodes: each has its links and the entry it holds. A loop over the list is
given a bound on its turns, and a null link that is followed has no result.
-/

namespace Il2CppDumper.Dobby

open Arm64 Clib

/-- The `HookEntryNode`s in memory. -/
structure EntryNodes where
  links : Links Addr
  entry : Addr → HookEntry

namespace EntryNodes

/-- `find_hook_entry_node`. -/
def findHookEntryNode (fuel : Nat) (head : Addr) (s : EntryNodes) (address : Addr) :
    Option (Option Addr) := do
  let pos ← s.links.next head
  s.links.findFrom (fun node => (s.entry node).functionAddress = address) head fuel pos

/-- `FindHookEntry`. -/
def findHookEntry (fuel : Nat) (head : Addr) (s : EntryNodes) (address : Addr) :
    Option (Option HookEntry) := do
  let entryNode ← s.findHookEntryNode fuel head address
  return entryNode.map s.entry

/-- `AddHookEntry`, where `new` returns `entryNode`. -/
def addHookEntry (head : Addr) (s : EntryNodes) (entryNode : Addr) (entry : HookEntry) :
    Option EntryNodes := do
  let s := { s with entry := fun node => if node = entryNode then entry else s.entry node }
  let links ← s.links.add entryNode head
  return { s with links }

/-- `RemoveHookEntry`. The node is not freed. -/
def removeHookEntry (fuel : Nat) (head : Addr) (s : EntryNodes) (address : Addr) :
    Option EntryNodes := do
  match ← s.findHookEntryNode fuel head address with
  | none => return s
  | some entryNode =>
    let links ← s.links.del entryNode
    return { s with links }

/-- `GetHookEntryCount`. -/
def getHookEntryCount (fuel : Nat) (head : Addr) (s : EntryNodes) : Option Nat := do
  let pos ← s.links.next head
  s.links.countFrom head fuel pos 0

end EntryNodes

/-- A call of the interceptor. -/
inductive EntryCall
  | find (address : Addr)
  | add (entryNode : Addr) (entry : HookEntry)
  | remove (address : Addr)
  | count

/-- What a call returns. -/
inductive EntryResult
  | entry (entry : Option HookEntry)
  | done
  | count (n : Nat)
  deriving DecidableEq

/-- The results of calls, one after the other, over the nodes. -/
def EntryNodes.calls (fuel : Nat) (head : Addr) (s : EntryNodes) :
    List EntryCall → Option (List EntryResult)
  | [] => some []
  | .find address :: cs => do
    let entry ← s.findHookEntry fuel head address
    let results ← s.calls fuel head cs
    return .entry entry :: results
  | .add entryNode entry :: cs => do
    let s ← s.addHookEntry head entryNode entry
    let results ← s.calls fuel head cs
    return .done :: results
  | .remove address :: cs => do
    let s ← s.removeHookEntry fuel head address
    let results ← s.calls fuel head cs
    return .done :: results
  | .count :: cs => do
    let n ← s.getHookEntryCount fuel head
    let results ← s.calls fuel head cs
    return .count n :: results

/-- The same calls, as `DobbyHook` and `DobbyDestroy` are modelled: over the list of entries. -/
def HookedProcess.calls (s : HookedProcess) : List EntryCall → List EntryResult
  | [] => []
  | .find address :: cs => .entry (s.findHookEntry address) :: s.calls cs
  | .add _ entry :: cs =>
    .done :: { s with hookEntryList := entry :: s.hookEntryList }.calls cs
  | .remove address :: cs =>
    .done :: { s with hookEntryList :=
      s.hookEntryList.eraseP fun entry => entry.functionAddress = address }.calls cs
  | .count :: cs => .count s.hookEntryList.length :: s.calls cs

end Il2CppDumper.Dobby
