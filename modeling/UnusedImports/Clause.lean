import UnusedImports.Text

/-!
# Import clauses

An import statement such as `import a.x, b.{y, z => w}` is a keyword followed by clauses. A
clause names a qualifier and the selectors taken from it. Its span says where it stands in the
source; the span of the first clause of a statement starts at the keyword, before the point
where the dotted target begins, and this is how the clause that carries the keyword is known.

* `Selector.render` and `Clause.render` write selectors and clauses in source form.
* `Clause.keywordClause` finds the clause that carries the keyword for a clause.
-/

set_option autoImplicit false

namespace UnusedImports

/-- Where a clause stands: it starts at `start`, its dotted target at `point`, and it stops in
front of `stop`. -/
structure Span where
  start : Int
  point : Int
  stop : Int
  deriving DecidableEq, Repr

/-- The span covers the keyword of its statement. -/
def Span.hasKeyword (s : Span) : Bool :=
  s.start ≠ s.point

/-- The stretch from the first to the last place that the spans cover. -/
def Span.extent : List Span → Option (Int × Int)
  | [] => none
  | s :: rest =>
    some (rest.foldl (fun a r => min a r.start) s.start,
      rest.foldl (fun a r => max a r.stop) s.stop)

/-- One item that a clause imports; `namePos` is the offset of its name. -/
structure Selector where
  name : Text
  namePos : Int
  rename : Option Text
  isWildcard : Bool
  deriving DecidableEq, Repr

namespace Selector

/-- `name => _` hides the name. -/
def isExclusion (s : Selector) : Bool :=
  s.rename = some ['_'] && !s.isWildcard

/-- The selector imports under another name. -/
def isRename (s : Selector) : Bool :=
  match s.rename with
  | some r => r ≠ s.name
  | none => false

/-- The selector names its item. -/
def isSpecific (s : Selector) : Bool :=
  !s.isWildcard

/-- The selector as it stands between braces. A rename to the same name is not written. -/
def render (s : Selector) : Text :=
  if s.isWildcard then ['_']
  else
    match s.rename with
    | some r => if r ≠ s.name then s.name ++ " => ".toList ++ r else s.name
    | none => s.name

end Selector

/-- A dotted target with its selectors. Clauses with the same `id` are the same clause. -/
structure Clause where
  id : Int
  qualifier : Text
  selectors : List Selector
  span : Option Span
  deriving DecidableEq, Repr

namespace Clause

/-- The span of the clause. A clause without one stands nowhere; it counts as empty, at the start
of the text. -/
def place (c : Clause) : Span :=
  c.span.getD ⟨0, 0, 0⟩

/-- A single selector without a rename is written without braces. -/
def needsBraces : List Selector → Bool
  | [s] => s.isRename
  | _ => true

/-- The clause with the selectors `kept`, without the keyword. -/
def render (c : Clause) (kept : List Selector) : Text :=
  let inner := Text.join ", ".toList (kept.map Selector.render)
  if needsBraces kept then c.qualifier ++ ".\x7b".toList ++ inner ++ "\x7d".toList
  else c.qualifier ++ ".".toList ++ inner

/-- The clause reduced to one selector. -/
def renderOne (c : Clause) (s : Selector) : Text :=
  c.render [s]

/-- The clause has a span that covers a keyword. -/
def carriesKeyword (c : Clause) : Bool :=
  match c.span with
  | some s => s.hasKeyword
  | none => false

/-- The clause that carries the keyword for `c`: itself, or else the first clause in scope that
carries one. A clause for which there is none stands for itself. -/
def keywordClause (c : Clause) (visible : List Clause) : Clause :=
  if c.carriesKeyword then c else (visible.find? carriesKeyword).getD c

end Clause

end UnusedImports
