import ClientGen.Document.Depth
import ClientGen.Journal
import ClientGen.Schema.Kind
import ClientGen.Schema.Reference

/-!
# The type of a schema

A schema has the kind that its `type` names. Without a `type` it has the kind of its composed members,
if they agree, or the kind that its `properties` or `items` imply. A schema that says nothing clear is
dynamic, which is never an error.
-/

namespace ClientGen.Schema

open ClientGen.Document

/-- Is it the schema of null alone? -/
def isNullSchema (v : Value) : Bool := ((v.field? "type").map (·.isStr "null")).getD false

/-- The one kind among the members of a composition, dynamic ones aside. -/
def agreedKind (keyword : String) (kinds : List Kind) : Journal Kind :=
  match (kinds.eraseDups).filter (· != .dynamic) with
  | [kind] => pure kind
  | mixed => do
    let names := (mixed.map Kind.typeText).mergeSort (· ≤ ·)
    Journal.debug .schemas
      s!"Falling back to dynamic type: {keyword} mixes types {(Value.list (names.map .str)).literal}"
    return .dynamic

/-- The kind that a schema without `type` and composition implies. -/
def impliedKind (schema : Value) : Kind :=
  if (schema.field? "properties").isSome then .mapping
  else if (schema.field? "items").isSome then .sequence
  else .dynamic

mutual

/-- The kind of a schema. -/
def kindOf (schema : Value) : Journal Kind :=
  if !schema.isMapping || !schema.isTruthy || isOpen schema then pure .dynamic
  else
    match schema.field? "type" with
    | some type => pure (.ofType type)
    | none =>
      match _allOf : schema.field? "allOf" with
      | some members => do
        let kinds ← memberKinds false members
        if kinds.contains .mapping || kinds.isEmpty then return .mapping
        else agreedKind "allOf" kinds
      | none =>
        match _oneOf : schema.field? "oneOf" with
        | some members => do agreedKind "oneOf" (← memberKinds true members)
        | none =>
          match _anyOf : schema.field? "anyOf" with
          | some members => do agreedKind "anyOf" (← memberKinds true members)
          | none => pure (impliedKind schema)
termination_by (schema.depth, 0)
decreasing_by all_goals exact Prod.Lex.left _ _ (Value.field?_depth (by assumption))

/-- The kinds of the members of a composition. Only a list holds schemas; the keys and characters of
anything else are dynamic. -/
def memberKinds (skipNull : Bool) (members : Value) : Journal (List Kind) :=
  match members with
  | .list items => itemKinds skipNull items
  | other => do return (← other.elements).map fun _ => .dynamic
termination_by (members.depth, 1)
decreasing_by exact Prod.Lex.left _ _ (Nat.lt_succ_self _)

/-- The kinds of the schemas in a list, leaving out those of null if `skipNull` says so. -/
def itemKinds (skipNull : Bool) (items : List Value) : Journal (List Kind) :=
  match items with
  | [] => pure []
  | schema :: rest =>
    if skipNull && isNullSchema schema then itemKinds skipNull rest
    else do
      let kind ← kindOf schema
      return kind :: (← itemKinds skipNull rest)
termination_by (Value.itemsDepth items, items.length + 1)
decreasing_by all_goals simp only [Value.itemsDepth, Prod.lex_def, List.length_cons]; omega

end

end ClientGen.Schema
