import ClientGen.Document.Display

/-!
# Addresses of parameters

Side tables refer to a parameter by its address: who owns it, in which slot it is declared, and the
chain of names that leads to it.
-/

namespace ClientGen.Api

open ClientGen.Document ClientGen.Text

/-- Where a parameter is. The owner is the key of an endpoint or the pointer to a component schema. -/
structure Address where
  owner : String
  slot : String
  names : List Value

namespace Address

/-- Two addresses are the same when their parts are. -/
def same (a b : Address) : Bool :=
  a.owner == b.owner && a.slot == b.slot && Value.sameItems a.names b.names

instance : BEq Address := ⟨same⟩

/-- The address of a nested parameter. -/
def child (a : Address) (name : Value) : Address := { a with names := a.names ++ [name] }

/-- The names in parentheses; a comma follows a single one. -/
def namesText (names : List Value) : String :=
  match names with
  | [name] => "(" ++ name.literal ++ ",)"
  | names => call "" (names.map Value.literal)

/-- The address as it is written in messages. -/
def text (a : Address) : String :=
  call "ParameterPath" [
    "owner=" ++ quoted a.owner, "slot=" ++ quoted a.slot, "names=" ++ namesText a.names]

end Address

end ClientGen.Api
