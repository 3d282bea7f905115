import ClientGen.Document.Expand
import ClientGen.Proofs.Path.Template
import Mathlib.Data.List.Basic

/-!
# Writing pointers

Pointers as they are written for given keys. A key may hold any characters: a tilde in it
is written as `~0` and a slash as `~1`, so that the slashes of a pointer stand between its
keys. A reader takes these pairs apart in two rounds, first `~1` and then `~0`. Between the
rounds the slashes are back, but each tilde still has its zero; no `~1` of the text comes from
a tilde of the key for that reason.

Main results:

* `decodeKey_encodeKey` — a key is read back.
* `keys?_pointerTo` — so are the keys of a pointer.
-/

namespace ClientGen.Document.Pointer

open ClientGen.Text

-- ---------------------------------------------------------------------------
-- Pairs of characters
-- ---------------------------------------------------------------------------

section Pairs

variable {a b x y : Char} {new rest : List Char}

theorem replacePair_of_eq : replacePair a b new (a :: b :: rest) = new ++ replacePair a b new rest := by
  rw [replacePair, if_pos (by simp)]

theorem replacePair_of_ne (h : x ≠ a) :
    replacePair a b new (x :: rest) = x :: replacePair a b new rest := by
  cases rest with
  | nil => rfl
  | cons y rest => rw [replacePair, if_neg (by simp [h])]

theorem replacePair_of_next_ne (h : y ≠ b) :
    replacePair a b new (x :: y :: rest) = x :: replacePair a b new (y :: rest) := by
  rw [replacePair, if_neg (by simp [h])]

end Pairs

-- ---------------------------------------------------------------------------
-- Keys
-- ---------------------------------------------------------------------------

/-- A character of a key, with tildes marked. -/
def markTilde (c : Char) : List Char := if c = '~' then ['~', '0'] else [c]

/-- A character of a key as it is written. -/
def encodeChar (c : Char) : List Char := if c = '/' then ['~', '1'] else markTilde c

/-- A key as it is written in a pointer. -/
def encodeKey (key : String) : String := .ofList (key.toList.flatMap encodeChar)

theorem encodeChar_of_ne {c : Char} (hSlash : c ≠ '/') (hTilde : c ≠ '~') : encodeChar c = [c] := by
  rw [encodeChar, if_neg hSlash, markTilde, if_neg hTilde]

/-- Most keys are written as they are. -/
theorem encodeKey_of_plain {key : String} (hTilde : '~' ∉ key.toList) (hSlash : '/' ∉ key.toList) :
    encodeKey key = key := by
  have hChars : ∀ cs : List Char, '~' ∉ cs → '/' ∉ cs → cs.flatMap encodeChar = cs := by
    intro cs hTilde hSlash
    induction cs with
    | nil => rfl
    | cons c cs ih =>
      rw [List.mem_cons, not_or] at hTilde hSlash
      rw [List.flatMap_cons, encodeChar_of_ne (Ne.symm hSlash.1) (Ne.symm hTilde.1),
        ih hTilde.2 hSlash.2, List.singleton_append]
  rw [encodeKey, hChars _ hTilde hSlash, String.ofList_toList]

theorem toList_encodeKey (key : String) : (encodeKey key).toList = key.toList.flatMap encodeChar :=
  String.toList_ofList

/-- The first round of reading brings the slashes back. -/
theorem replacePair_encoded (cs : List Char) :
    replacePair '~' '1' ['/'] (cs.flatMap encodeChar) = cs.flatMap markTilde := by
  induction cs with
  | nil => rfl
  | cons c cs ih =>
    rw [List.flatMap_cons, List.flatMap_cons, encodeChar]
    split
    · rename_i hSlash
      subst hSlash
      rw [List.cons_append, List.cons_append, List.nil_append, replacePair_of_eq, ih]
      rfl
    · rw [markTilde]
      split
      · rw [List.cons_append, List.cons_append, List.nil_append, replacePair_of_next_ne (by decide),
          replacePair_of_ne (by decide), ih]
        rfl
      · rename_i hTilde
        rw [List.singleton_append, replacePair_of_ne hTilde, ih]
        rfl

/-- The second one takes the marks from the tildes. -/
theorem replacePair_marked (cs : List Char) :
    replacePair '~' '0' ['~'] (cs.flatMap markTilde) = cs := by
  induction cs with
  | nil => rfl
  | cons c cs ih =>
    rw [List.flatMap_cons, markTilde]
    split
    · rename_i hTilde
      subst hTilde
      rw [List.cons_append, List.cons_append, List.nil_append, replacePair_of_eq, ih]
      rfl
    · rename_i hTilde
      rw [List.singleton_append, replacePair_of_ne hTilde, ih]

/-- A key is read back from how it is written. -/
theorem decodeKey_encodeKey (key : String) : decodeKey (encodeKey key).toList = key.toList := by
  rw [decodeKey, toList_encodeKey, replacePair_encoded, replacePair_marked]

theorem encodeKey_ne_empty {key : String} (h : key ≠ "") : encodeKey key ≠ "" := by
  intro hEmpty
  have hBack := decodeKey_encodeKey key
  rw [hEmpty] at hBack
  exact h (String.toList_inj.mp hBack.symm)

theorem slash_not_mem_encodeKey (key : String) : '/' ∉ (encodeKey key).toList := by
  rw [toList_encodeKey]
  simp only [List.mem_flatMap, not_exists, not_and]
  intro c _ hMem
  rw [encodeChar] at hMem
  split at hMem
  · revert hMem
    decide
  · rename_i hSlash
    rw [markTilde] at hMem
    split at hMem
    · revert hMem
      decide
    · exact hSlash (List.mem_singleton.mp hMem).symm

-- ---------------------------------------------------------------------------
-- Pointers
-- ---------------------------------------------------------------------------

/-- The pointer for keys. -/
def pointerTo (keys : List String) : String :=
  "#/" ++ .ofList (['/'].intercalate (keys.map fun key => (encodeKey key).toList))

/-- The keys of a pointer are read back. -/
theorem keys?_pointerTo {keys : List String} (h : keys ≠ []) : keys? (pointerTo keys) = some keys := by
  have hParts : splitOn '/' (['/'].intercalate (keys.map fun key => (encodeKey key).toList)) =
      keys.map fun key => (encodeKey key).toList := by
    rw [splitOn_eq]
    refine List.splitOn_intercalate '/' (fun part hPart => ?_) (by simpa using h)
    obtain ⟨key, -, rfl⟩ := List.mem_map.mp hPart
    exact slash_not_mem_encodeKey key
  have hText : (pointerTo keys).toList =
      '#' :: '/' :: ['/'].intercalate (keys.map fun key => (encodeKey key).toList) := by
    simp [pointerTo]
  rw [keys?, hText]
  simp only [hParts, List.map_map, Option.some.injEq]
  refine (List.map_congr_left fun key _ => ?_).trans (List.map_id keys)
  rw [Function.comp_apply, decodeKey_encodeKey, String.ofList_toList, id]

/-- The value that a pointer for keys resolves to is the one that the keys lead to. -/
theorem resolve_pointerTo {document : Value} {keys : List String} (h : keys ≠ []) (target : Value) :
    resolve document (pointerTo keys) = .ok target ↔ follow? document keys = some target := by
  rw [resolve, keys?_pointerTo h]
  dsimp only
  cases follow? document keys with
  | none => simp
  | some _ => simp

end ClientGen.Document.Pointer
