import Std.Data.ExtTreeMap
import ListLanguage.Operation
import ListLanguage.Text.Listing

/-!
# Host tables

A host that offers a fixed choice of operations keeps them in a table, by name; the table's
`resolve?` is what an environment asks for them.
-/

namespace ListLanguage

/-- The operations that a host offers. -/
structure HostTable where
  operations : Std.ExtTreeMap String Operation := ∅

namespace HostTable

/-- Offers an operation under a name, in the place of an earlier one of that name. -/
def insert (host : HostTable) (name : String) (operation : Operation) : HostTable :=
  ⟨host.operations.insert name operation⟩

/-- The operation under a name. -/
def resolve? (host : HostTable) (name : String) : Option Operation :=
  host.operations[name]?

/-- The names of the operations, in order. -/
def names (host : HostTable) : List String :=
  host.operations.keys

/-- How a table is shown. -/
def describe (host : HostTable) : String :=
  s!"HostNamespace \x7b functions: {Text.listedNames host.names} \x7d"

@[simp]
theorem resolve?_insert (host : HostTable) (name other : String) (operation : Operation) :
    (host.insert name operation).resolve? other =
      if name = other then some operation else host.resolve? other := by
  simp [insert, resolve?, Std.ExtTreeMap.getElem?_insert]

end HostTable

end ListLanguage
