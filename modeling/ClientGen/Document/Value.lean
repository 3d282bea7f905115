import ClientGen.Dictionary
import ClientGen.Document.Calendar
import ClientGen.Number.Double

/-!
# Document values

The values of a JSON or YAML document. A mapping keeps its entries in document order and may have keys
of any scalar kind. Two values are the *same* when they are equal as data: numbers by their numeric
value, truth values counting as the numbers 0 and 1, mappings and sets without regard to order. A
mapping holds no two keys that are the same.
-/

namespace ClientGen.Document

/-- A value of a document. -/
inductive Value where
  | null
  | bool (b : Bool)
  | int (n : Int)
  | float (x : Double)
  | str (s : String)
  | list (items : List Value)
  | map (entries : List (Value × Value))
  | date (d : Date)
  | moment (m : Moment)
  | bytes (bs : List UInt8)
  | set (items : List Value)
  deriving Inhabited

/-- The entries of a mapping. -/
abbrev Entries := Dictionary Value Value

namespace Value

/-- A truth value as a number. -/
def ofBool (b : Bool) : Int := if b then 1 else 0

/-- Are two scalars the same data? -/
def sameScalar : Value → Value → Bool
  | .null, .null => true
  | .bool a, .bool b => a == b
  | .bool a, .int b => ofBool a == b
  | .int a, .bool b => a == ofBool b
  | .int a, .int b => a == b
  | .float a, .float b => a.numEq b
  | .float a, .int b => a.isInt b
  | .int a, .float b => b.isInt a
  | .float a, .bool b => a.isInt (ofBool b)
  | .bool a, .float b => b.isInt (ofBool a)
  | .str a, .str b => a == b
  | .date a, .date b => a == b
  | .moment a, .moment b => a.zone.isSome == b.zone.isSome && a.instant == b.instant
  | .bytes a, .bytes b => a == b
  | _, _ => false

mutual

/-- Are two values the same data? -/
def same : Value → Value → Bool
  | .list xs, .list ys => sameItems xs ys
  | .map es, .map fs => es.length == fs.length && coveredEntries es fs
  | .set xs, .set ys => xs.length == ys.length && coveredItems xs ys
  | v, w => sameScalar v w

/-- Are two lists the same, item by item? -/
def sameItems : List Value → List Value → Bool
  | [], [] => true
  | x :: xs, y :: ys => same x y && sameItems xs ys
  | _, _ => false

/-- Does every entry of the first list occur in the second? -/
def coveredEntries : List (Value × Value) → List (Value × Value) → Bool
  | [], _ => true
  | (k, v) :: es, fs => (fs.any fun f => same k f.1 && same v f.2) && coveredEntries es fs

/-- Does every item of the first list occur in the second? -/
def coveredItems : List Value → List Value → Bool
  | [], _ => true
  | x :: xs, ys => ys.any (same x) && coveredItems xs ys

end

instance : BEq Value := ⟨same⟩

/-- The value at a text key, if the value is a mapping that has it. -/
def field? (v : Value) (name : String) : Option Value :=
  match v with
  | .map entries => Dictionary.get? entries (.str name)
  | _ => none

/-- Does the value count as true where a condition is wanted? Nothing, zero and whatever is empty do
not. -/
def isTruthy : Value → Bool
  | .null => false
  | .bool b => b
  | .int n => n != 0
  | .float x => !x.isZero
  | .str s => s != ""
  | .list items => !items.isEmpty
  | .map entries => !entries.isEmpty
  | .bytes bs => !bs.isEmpty
  | .set items => !items.isEmpty
  | .date _ | .moment _ => true

/-- Can the value be a key? Lists, mappings and sets cannot. -/
def canBeKey : Value → Bool
  | .list _ | .map _ | .set _ => false
  | _ => true

/-- Is the value a mapping? -/
def isMapping : Value → Bool
  | .map _ => true
  | _ => false

/-- Is the value a text? -/
def isText : Value → Bool
  | .str _ => true
  | _ => false

/-- Is the value the given text? -/
def isStr (v : Value) (s : String) : Bool :=
  match v with
  | .str t => t == s
  | _ => false

/-- The value, unless it counts as false; then `default`. -/
def orElse (v : Option Value) (default : Value) : Value :=
  match v with
  | some v => if v.isTruthy then v else default
  | none => default

/-- The empty mapping. -/
def emptyMap : Value := .map []

mutual

/-- How deeply values are nested in the value. -/
def depth : Value → Nat
  | .list items => itemsDepth items + 1
  | .map entries => entriesDepth entries + 1
  | .set items => itemsDepth items + 1
  | _ => 0

/-- The greatest depth of the items. -/
def itemsDepth : List Value → Nat
  | [] => 0
  | v :: vs => max v.depth (itemsDepth vs)

/-- The greatest depth of the keys and values. -/
def entriesDepth : List (Value × Value) → Nat
  | [] => 0
  | (k, v) :: es => max (max k.depth v.depth) (entriesDepth es)

end

end Value

end ClientGen.Document
