/-!
# Singular and plural

The English number of a resource name, as far as derived endpoint names need it.
-/

namespace ClientGen.Naming

/-- Nouns whose plural follows no rule, with their plurals. -/
def irregularPlurals : List (String × String) :=
  [("person", "people"), ("child", "children"), ("index", "indices")]

/-- The irregular plurals with their singulars. -/
def irregularSingulars : List (String × String) := irregularPlurals.map fun p => (p.2, p.1)

/-- Does the word end in one of the endings? -/
def endsInOneOf (word : String) (endings : List String) : Bool := endings.any (word.endsWith ·)

/-- The word without its last `n` characters. -/
def dropEnd (word : String) (n : Nat) : String := .ofList (word.toList.take (word.length - n))

/-- Is the last character but one a vowel? -/
def vowelBeforeLast (word : String) : Bool :=
  match word.toList.reverse with
  | _ :: c :: _ => ['a', 'e', 'i', 'o', 'u'].contains c
  | _ => false

/-- The plural of a noun. A word that looks like a plural stays as it is. -/
def plural (word : String) : String :=
  match irregularPlurals.lookup word with
  | some irregular => irregular
  | none =>
    if (irregularSingulars.lookup word).isSome || (word.endsWith "s" && !word.endsWith "ss") then word
    else if word.endsWith "y" && !vowelBeforeLast word then dropEnd word 1 ++ "ies"
    else if endsInOneOf word ["s", "x", "ch", "sh"] then word ++ "es"
    else word ++ "s"

/-- The singular of a noun. -/
def singular (word : String) : String :=
  match irregularSingulars.lookup word with
  | some irregular => irregular
  | none =>
    if (irregularPlurals.lookup word).isSome then word
    else if word.endsWith "ies" then dropEnd word 3 ++ "y"
    else if endsInOneOf word ["ses", "xes", "ches", "shes"] then dropEnd word 2
    else if word.endsWith "s" && !word.endsWith "ss" then dropEnd word 1
    else word

end ClientGen.Naming
