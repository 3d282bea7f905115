import ClientGen.Document.Value

/-!
# The order of values

Values of one kind have an order: numbers by size, texts by code point, calendar values by time, lists
item by item. Values of different kinds have none, so a list of values can be sorted only if all of its
members are comparable.
-/

namespace ClientGen.Document.Value

/-- The scalar kinds that have an order. -/
inductive OrderKind where
  | number | text | date | localMoment | zonedMoment | bytes
  deriving DecidableEq

/-- The kind of a scalar, if it has an order. -/
def orderKind? : Value → Option OrderKind
  | .bool _ | .int _ | .float _ => some .number
  | .str _ => some .text
  | .date _ => some .date
  | .moment m => some (if m.zone.isSome then .zonedMoment else .localMoment)
  | .bytes _ => some .bytes
  | _ => none

mutual

/-- Have the two values an order? -/
def comparable : Value → Value → Bool
  | .list xs, .list ys => comparableItems xs ys
  | .set _, .set _ => true
  | v, w => (orderKind? v).isSome && orderKind? v == orderKind? w

/-- Have the two lists an order? The first items that differ decide. -/
def comparableItems : List Value → List Value → Bool
  | x :: xs, y :: ys => if x.same y then comparableItems xs ys else comparable x y
  | _, _ => true

end

/-- A number or truth value as an integer, if it is one. -/
def asInt? : Value → Option Int
  | .bool b => some (ofBool b)
  | .int n => some n
  | _ => none

/-- Is the first number the smaller one? -/
def numberLt (v w : Value) : Bool :=
  match v, w with
  | .float x, .float y => x.numLt y
  | .float x, w => ((asInt? w).map x.ltInt).getD false
  | v, .float y => ((asInt? v).map fun n => Double.intLt n y).getD false
  | v, w => decide ((asInt? v).getD 0 < (asInt? w).getD 0)

mutual

/-- Does the first of two comparable values come before the second? -/
def lt : Value → Value → Bool
  | .str s, .str t => decide (s < t)
  | .date d, .date e => decide (d.ordinal < e.ordinal)
  | .moment m, .moment n => decide (m.instant < n.instant)
  | .bytes bs, .bytes cs => decide (bs < cs)
  | .list xs, .list ys => ltItems xs ys
  | v, w => numberLt v w

/-- Does the first list come before the second? -/
def ltItems : List Value → List Value → Bool
  | [], ys => !ys.isEmpty
  | _ :: _, [] => false
  | x :: xs, y :: ys => if x.same y then ltItems xs ys else lt x y

end

/-- The elements sorted by a key, if their keys are comparable. Equal keys keep their order. -/
def sortOn? {α : Type} (key : α → Value) (xs : List α) : Option (List α) :=
  if xs.length ≤ 1 || (xs.all fun x => xs.all fun y => comparable (key x) (key y)) then
    some (xs.mergeSort fun x y => !lt (key y) (key x))
  else none

end ClientGen.Document.Value
