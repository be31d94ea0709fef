import PwshPy.Toml.Syntax

/-! # What a document says of a top-level key

A top-level key is defined by a pair above every header, or it is a table: a
dotted key or a header begins with it. TOML lets nothing else define a key that
a pair gives a value.
-/

namespace PwshPy.Toml

inductive Definition where
  /-- `key = value` above every header -/
  | pair (p : Pair)
  /-- a table, by a dotted key or a header -/
  | table

namespace Document

/-- The pairs above every header. -/
def topLevel : Document → List Pair
  | [] => []
  | .blank _ _ :: rest => topLevel rest
  | .pair _ p _ _ :: rest => p :: topLevel rest
  | .header .. :: _ => []

/-- The keys of the headers. -/
def headers : Document → List Key
  | [] => []
  | .blank _ _ :: rest => headers rest
  | .pair .. :: rest => headers rest
  | .header _ _ _ key _ _ _ :: rest => key :: headers rest

/-- The pairs above every header whose keys begin with the name. -/
def namedPairs (doc : Document) (name : PyStr) : List Pair :=
  (topLevel doc).filter (·.key.first.name == name)

/-- What the name stands for at the top of the document. -/
def definition (doc : Document) (name : PyStr) : Option Definition :=
  match namedPairs doc name with
  | p :: _ => some (if p.key.rest.isEmpty then .pair p else .table)
  | [] => if (headers doc).any (·.first.name == name) then some .table else none

/-- As TOML has it, a key with a value is defined once: beside it no other pair
defines the name, and no dotted key begins with it. -/
def DefinedOnce (doc : Document) (name : PyStr) : Prop :=
  ∀ p ∈ namedPairs doc name, p.key.rest = [] → namedPairs doc name = [p]

end Document

/-- The key is spelled without escapes. -/
def SimpleKey.unescaped : SimpleKey → Bool
  | bare _ _ => true
  | basic items => items.all fun i => i.text == [i.value]
  | literal _ => true

end PwshPy.Toml
