/-!
# Runs of characters

Operations on texts as lists of characters: trimming, replacing whole runs of a class by one
character, cutting at a separator and replacing a word.
-/

namespace ClientGen.Text

/-- Drop the characters of a class from both ends. -/
def trim (p : Char → Bool) (cs : List Char) : List Char :=
  ((cs.dropWhile p).reverse.dropWhile p).reverse

/-- Write `c` for every maximal run of characters of the class. -/
def replaceRuns (p : Char → Bool) (c : Char) : List Char → List Char
  | [] => []
  | a :: rest =>
    match rest with
    | b :: _ =>
      if p a && p b then replaceRuns p c rest
      else (if p a then c else a) :: replaceRuns p c rest
    | [] => [if p a then c else a]

/-- The pieces between the separators. There is one more piece than there are separators. -/
def splitOn (sep : Char) : List Char → List (List Char)
  | [] => [[]]
  | c :: rest =>
    if c == sep then [] :: splitOn sep rest
    else
      match splitOn sep rest with
      | [] => [[c]]
      | piece :: pieces => (c :: piece) :: pieces

/-- The words of a text: its maximal runs of characters of the class. -/
def wordsOf (p : Char → Bool) : List Char → List (List Char)
  | [] => []
  | c :: rest =>
    if p c then
      match rest with
      | [] => [[c]]
      | d :: _ =>
        if p d then
          match wordsOf p rest with
          | [] => [[c]]
          | w :: ws => (c :: w) :: ws
        else [c] :: wordsOf p rest
    else wordsOf p rest

/-- Write `new` for the two characters `a`, `b` in sequence, from left to right. -/
def replacePair (a b : Char) (new : List Char) : List Char → List Char
  | [] => []
  | [x] => [x]
  | x :: y :: rest =>
    if x == a && y == b then new ++ replacePair a b new rest
    else x :: replacePair a b new (y :: rest)

/-- Join pieces with a separator text between them. -/
def joinWith (sep : List Char) : List (List Char) → List Char
  | [] => []
  | [piece] => piece
  | piece :: pieces => piece ++ sep ++ joinWith sep pieces

end ClientGen.Text
