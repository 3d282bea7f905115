import ClientGen.Document.Yaml.Content
import ClientGen.Document.Yaml.Node

/-!
# Reading YAML

The value that a YAML text stands for. Mappings under a merge key are written out first: their entries
come before the other entries of the mapping, which override them in place, and of several merged
mappings in a list the earlier ones override the later ones.
-/

namespace ClientGen.Document.Yaml

/-- The entries of a node that has to be a mapping. -/
def Node.entries : Node → Except Failure (List (Node × Node))
  | .mapping _ entries => .ok entries
  | _ => malformed

/-- The entries that the value of a merge key contributes. -/
def Node.contribution : Node → Except Failure (List (Node × Node))
  | .mapping _ entries => .ok entries
  | .sequence _ items => do return (← items.mapM Node.entries).reverse.flatten
  | .scalar _ _ => malformed

/-- Is the node a merge key? -/
def Node.isMergeKey : Node → Bool
  | .scalar tag _ | .sequence tag _ | .mapping tag _ => tag == .merge

/-- The entries of a mapping with merged entries in front. -/
def mergeEntries (entries : List (Node × Node)) : Except Failure (List (Node × Node)) := do
  let (merges, own) := entries.partition fun e => e.1.isMergeKey
  let merged ← merges.mapM fun e => e.2.contribution
  return merged.flatten ++ own

mutual

/-- The node with all merges written out, from the inside outwards. -/
def Node.merged : Node → Except Failure Node
  | .scalar tag text => .ok (.scalar tag text)
  | .sequence tag items => do return .sequence tag (← mergedItems items)
  | .mapping tag entries => do return .mapping tag (← mergeEntries (← mergedEntries entries))

/-- The items with all merges written out. -/
def mergedItems : List Node → Except Failure (List Node)
  | [] => .ok []
  | n :: ns => do return (← n.merged) :: (← mergedItems ns)

/-- The entries with all merges inside them written out. -/
def mergedEntries : List (Node × Node) → Except Failure (List (Node × Node))
  | [] => .ok []
  | (k, v) :: es => do
    let k ← k.merged
    let v ← v.merged
    return (k, v) :: (← mergedEntries es)

end

/-- A list of pairs, given as mappings with one entry each. -/
def pairsOf (items : List Value) : Except Failure (List Value) :=
  items.mapM fun item =>
    match item with
    | .map [(k, v)] => .ok (.list [k, v])
    | _ => malformed

mutual

/-- The value of a node. -/
def Node.value : Node → Except Failure Value
  | .scalar tag text => scalarValue tag text
  | .sequence tag items => do
    match tag with
    | .seq => return .list (← itemValues items)
    | .pairs => return .list (← pairsOf (← itemValues items))
    | _ => malformed
  | .mapping tag entries => do
    match tag with
    | .map => return .map (← entryValues [] entries)
    | .set => return .set (Dictionary.keys (← entryValues [] entries))
    | _ => malformed

/-- The values of items. -/
def itemValues : List Node → Except Failure (List Value)
  | [] => .ok []
  | n :: ns => do
    let v ← n.value
    return v :: (← itemValues ns)

/-- The dictionary `d` with more entries. A key for the default value is a text. -/
def entryValues (d : Entries) : List (Node × Node) → Except Failure Entries
  | [] => .ok d
  | (k, v) :: es => do
    let key ←
      match k with
      | .scalar .default text => pure (Value.str text)
      | k => k.value
    -- The key is checked before its value is looked at.
    if key.canBeKey then
      let value ← v.value
      entryValues (Dictionary.put d key value) es
    else malformed

end

/-- The value that a YAML text stands for. -/
def parse (text : String) : Except Failure Value := do
  let node ← Node.ofTokens (← Token.ofText text.toList)
  (← node.merged).value

end ClientGen.Document.Yaml
