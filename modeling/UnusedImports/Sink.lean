import UnusedImports.Diagnostic
import UnusedImports.Settings

/-!
# Where warnings go

A collector keeps the warnings about one file. A suppressor stands in front of it and drops the
warnings of certain owners and categories, which it counts. Owners and categories are looked up by
their keys, so a collection can be neither.
-/

set_option autoImplicit false

namespace UnusedImports

/-- The warnings about `file` received so far. -/
structure Collector where
  file : Value
  diagnostics : List Diagnostic
  deriving Repr

namespace Collector

/-- The collector for a file that has a name. -/
def ofFile (file : Text) : Collector := ⟨.text file, []⟩

/-- The collector for a file whose name is not known. -/
def unnamed : Collector := ofFile "<unknown>".toList

/-- Keep a warning. -/
def receive (c : Collector) (w : Warning) : Collector :=
  { c with diagnostics := c.diagnostics ++ [{ w with file := c.file }] }

/-- Forget all warnings. -/
def clear (c : Collector) : Collector :=
  { c with diagnostics := [] }

end Collector

/-- The keys of the owners and categories whose warnings are dropped, and how many have been. -/
structure Suppressor where
  owners : List Key
  categories : List Key
  dropped : Nat
  deriving Repr

namespace Suppressor

/-- The suppressor of the given owners and categories, none of which may be a collection. -/
def of (owners categories : List Value) : Except NotKey Suppressor := do
  let ownerKeys ← owners.mapM Value.key
  let categoryKeys ← categories.mapM Value.key
  return ⟨ownerKeys, categoryKeys, 0⟩

/-- What a value lists: the items of a list or set, the keys of a mapping, and the characters of
a text. Any other value lists nothing, not even an empty list. -/
def listed? : Value → Option (List Value)
  | .list items => some items
  | .set items => some items
  | .pair a b => some [a, b]
  | .map entries => some (entries.map Prod.fst)
  | .text t => some (t.map fun c => .text [c])
  | .points ps => some (ps.map fun n => .ofPoints [n])
  | .bytes b => some (b.map fun n => .int n.toNat)
  | _ => none

/-- What a value lists, which has to list something. -/
def listed (v : Value) : Except NotKey (List Value) :=
  match listed? v with
  | some items => .ok items
  | none => .error ⟨v⟩

/-- The suppressor that settings ask for. -/
def ofSettings (s : Settings) : Except NotKey Suppressor := do
  let owners ← listed s.suppressedOwners
  let ownerKeys ← owners.mapM Value.key
  let categories ← listed s.disabledCategories
  let categoryKeys ← categories.mapM Value.key
  return ⟨ownerKeys, categoryKeys, 0⟩

/-- Drop the warnings of one more owner. -/
def addOwner (s : Suppressor) (owner : Value) : Except NotKey Suppressor := do
  let k ← owner.key
  return { s with owners := s.owners ++ [k] }

/-- Warnings of this category and owner are dropped. A warning without an owner is dropped for
its category only. -/
def suppresses (s : Suppressor) (category owner : Value) : Except NotKey Bool := do
  if s.categories.contains (← category.key) then return true
  if owner.isNull then return false
  return s.owners.contains (← owner.key)

end Suppressor

/-- A collector, behind a suppressor if there is one. -/
structure Sink where
  collector : Collector
  suppressor : Option Suppressor
  deriving Repr

namespace Sink

/-- Report a warning. -/
def receive (sink : Sink) (w : Warning) : Except NotKey Sink :=
  match sink.suppressor with
  | none => .ok { sink with collector := sink.collector.receive w }
  | some s =>
    match s.suppresses w.category w.owner with
    | .error e => .error e
    | .ok true => .ok { sink with suppressor := some { s with dropped := s.dropped + 1 } }
    | .ok false => .ok { sink with collector := sink.collector.receive w }

/-- Report warnings one after the other, up to the first one that cannot be reported. -/
def receiveAll (sink : Sink) : List Warning → Sink × Option NotKey
  | [] => (sink, none)
  | w :: ws =>
    match sink.receive w with
    | .ok next => next.receiveAll ws
    | .error e => (sink, some e)

end Sink

end UnusedImports
