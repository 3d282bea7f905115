/-!
# Ordered dictionaries

A dictionary is the list of its entries in the order in which their keys were first put. Putting a key
again changes its value and not its place, which is how documents and tables are read, overlaid and
written throughout the library.
-/

namespace ClientGen

/-- Entries of a key and a value, in order of first insertion. -/
abbrev Dictionary (κ ν : Type) := List (κ × ν)

namespace Dictionary

variable {κ ν : Type} [BEq κ]

/-- The value at a key. -/
def get? (d : Dictionary κ ν) (k : κ) : Option ν :=
  match d with
  | [] => none
  | (k', v) :: rest => if k' == k then some v else get? rest k

/-- Is the key present? -/
def has (d : Dictionary κ ν) (k : κ) : Bool := d.any (·.1 == k)

/-- Put a value at a key: in the place of the old value, or at the end. -/
def put (d : Dictionary κ ν) (k : κ) (v : ν) : Dictionary κ ν :=
  match d with
  | [] => [(k, v)]
  | (k', v') :: rest => if k' == k then (k', v) :: rest else (k', v') :: put rest k v

/-- Put all entries of `top`, in their order. -/
def overlay (d top : Dictionary κ ν) : Dictionary κ ν := top.foldl (fun d e => put d e.1 e.2) d

/-- The dictionary of a list of entries: a repeated key keeps its first place and its last value. -/
def ofEntries (entries : List (κ × ν)) : Dictionary κ ν := overlay [] entries

/-- The entries without those of a key. -/
def erase (d : Dictionary κ ν) (k : κ) : Dictionary κ ν := d.filter fun e => !(e.1 == k)

/-- The keys in order. -/
def keys (d : Dictionary κ ν) : List κ := d.map (·.1)

/-- The values in order. -/
def values (d : Dictionary κ ν) : List ν := d.map (·.2)

end Dictionary

end ClientGen
