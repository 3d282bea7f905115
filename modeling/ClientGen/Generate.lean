import ClientGen.Unit.All

/-!
# Generating a client

The passes in a row: a document with expanded references becomes a specification, its enumerations are
collected, its names are resolved, and its units are written.
-/

namespace ClientGen

open ClientGen.Api ClientGen.Document

/-- What a run produces. -/
structure Generated where
  specification : Specification
  registry : Enumeration.Registry
  names : Dictionary String Naming.ResolvedName
  units : Unit.Units
  collisions : List Naming.Collision

/-- Generate the client for a document whose references are expanded. -/
def generate (settings : Settings) (document : Value) : Journal Generated := do
  let specification ← Specification.ofDocument settings document
  let registry ← Enumeration.collect settings.tables specification
  let resolution ← Naming.resolve settings specification.endpoints
  let units ← Unit.unitsOf settings specification registry resolution.names
  Journal.info .run s!"Rendered {units.length} units"
  return { specification, registry, units, names := resolution.names, collisions := resolution.collisions }

end ClientGen
